import Kaplar.Foundation.RedBlackDepth
import Kaplar.Tree.RbtreeFind
import Kaplar.Tree.RbtreeWalk

/-! # How long the operations take

Every loop of every operation goes along one path of the tree. So in a red-black tree it
runs at most `2 log₂ (n + 1) + 1` times, where `n` is the number of nodes.
-/
namespace Kaplar.Rbtree
open RedBlack RedBlack.ColorTree Execution
variable {ι : Type*} {compare : ι → ι → ℤ} {t : Rbtree ι} {T a b : ColorTree ι} {fs : TreePath ι}
  {s : Side} {n x : ι} {c : Color} {fuel : ℕ}

/-! ## Down the tree -/

theorem rbtFind_within (h : t.Shape T) :
    Within (T.depth + 1) (fun fuel => rbtFind fuel compare t n) := by
  refine .of_mono loop_mono ?_ (r := seek compare n T)
  have hloop : loop (findBody compare t n) (T.ids.length + 1) T.top = some (seek compare n T) :=
    findLoop_spec h.links (Nat.lt_succ_self _)
  rw [rbtFind, h.root]
  refine loop_within (fun k cur => ∃ U q, Linked t.node q U ∧ cur = U.top ∧ U.depth = k) ?_ hloop
    ⟨T,none,h.links,rfl,rfl⟩ (Nat.lt_succ_self _)
  rintro k _ p ⟨U,q,hU,rfl,rfl⟩ hbody
  cases U with
  | leaf => cases hbody
  | node l x c r =>
    obtain ⟨hx,hl,hr⟩ := hU
    simp only [findBody, top_node, hx] at hbody
    split at hbody
    · cases hbody
    · split at hbody
      · cases hbody
        exact ⟨l.depth,Nat.lt_succ_of_le (Nat.le_max_left _ _),l,_,hl,rfl,rfl⟩
      · cases hbody
        exact ⟨r.depth,Nat.lt_succ_of_le (Nat.le_max_right _ _),r,_,hr,rfl,rfl⟩

variable [DecidableEq ι]

omit [DecidableEq ι] in
theorem outermost_within (h : t.Zoom T fs) (hx : T.top = some x) (hf : T.depth < fuel) :
    ∃ y, outermost s fuel t x = some y ∧ (toward s.flip T).head? = some y := by
  obtain ⟨y,hy,hhead⟩ := outermost_spec (s := s) h hx (Nat.lt_succ_self _)
  refine ⟨y,?_,hhead⟩
  refine loop_within (fun k y => ∃ U gs, t.Zoom U gs ∧ U.top = some y ∧ U.depth = k) ?_ hy
    ⟨T,fs,h,hx,rfl⟩ hf
  rintro k y z ⟨U,gs,hz,hy,rfl⟩ hbody
  obtain ⟨a,c,b,rfl⟩ := exists_branch_of_top hy s
  have hn := hz.node_branch
  cases ha : a.top with
  | none => simp [hn,ha] at hbody
  | some w =>
    obtain rfl : w = z := by simpa [hn,ha] using hbody
    refine ⟨a.depth,?_,a,_,zoom_near.mp hz,ha,rfl⟩
    rw [depth_branch]
    omega

theorem neighbor_within (h : t.Zoom (branch s a x c b) fs) :
    Within ((plug (branch s a x c b) fs).depth + 1)
      (fun fuel => neighbor s.flip fuel t (some x)) := by
  have hdepth : (branch s a x c b).depth + fs.length ≤ (plug (branch s a x c b) fs).depth :=
    depth_plug
  rw [depth_branch] at hdepth
  have hn := h.node_branch
  have hends : ∃ r, neighbor s.flip ((plug (branch s a x c b) fs).depth + 1) t (some x) = some r := by
    rw [neighbor, hn, RbNode.child_flip_sided]
    cases hb : b.top with
    | none => exact ⟨_,climb_spec h (top_branch ..) (by omega)⟩
    | some z =>
      obtain ⟨y,ho,-⟩ := outermost_within (s := s.flip.flip) (zoom_far.mp h) hb
        (show b.depth < (plug (branch s a x c b) fs).depth + 1 by omega)
      exact ⟨some y,by simp only [ho, Option.map_some]⟩
  obtain ⟨r,hr⟩ := hends
  exact .of_mono neighbor_mono hr

omit [DecidableEq ι] in
theorem rbtMax_within (h : t.Shape T) : Within (T.depth + 1) (fun fuel => rbtMax fuel t) := by
  have hz : t.Zoom T [] := shape_plug.mp h
  cases hx : T.top with
  | none =>
    refine ⟨none,fun fuel _ => ?_⟩
    simp only [rbtMax, h.root, hx]
  | some x =>
    obtain ⟨y,hy,-⟩ := outermost_within (s := .right) hz hx (Nat.lt_succ_self _)
    refine ⟨some y,fun fuel hf => ?_⟩
    simp only [rbtMax, h.root, hx]
    exact Option.map_eq_some_iff.mpr ⟨y,loop_mono hy hf,rfl⟩

/-! ## Down and up again -/

variable (compare) in
theorem insertSearch_within (h : t.Shape T) (hn : n ∉ T.ids)
    (hx : t.node n = ⟨.red,none,none,none⟩) (hf : T.depth < fuel) :
    ∃ t', loop (insertSearchBody compare n) fuel (t,.root) =
        some (t',(descend compare n T []).map linkOf) ∧ OffNode t t' n ∧
      ∀ fs, descend compare n T [] = some fs → t'.node n = ⟨.red,above fs,none,none⟩ := by
  obtain ⟨t',hl,ho,hd⟩ := insertSearch_spec compare h hn hx (Nat.lt_succ_self _)
  refine ⟨t',?_,ho,hd⟩
  refine loop_within (fun k u => ∃ U gs, OffNode t u.1 n ∧ plug U gs = T ∧ u.2 = linkOf gs ∧
    U.depth = k) ?_ hl ⟨T,[],⟨rfl,rfl,fun _ _ => rfl⟩,rfl,rfl,rfl⟩ hf
  rintro k ⟨t₁,y⟩ ⟨t₂,y₂⟩ ⟨U,gs,ho,rfl,rfl,rfl⟩ hbody
  have hget := linkOf_get (shape_plug.mp (ho.shape h hn))
  cases U with
  | leaf => simp [insertSearchBody,hget,top] at hbody
  | node l x c r =>
    simp only [insertSearchBody, hget, top_node] at hbody
    split at hbody
    · cases hbody
    · split at hbody
      · cases hbody
        exact ⟨l.depth,Nat.lt_succ_of_le (Nat.le_max_left _ _),l,⟨.left,x,c,r⟩ :: gs,
          ho.setParent,rfl,rfl,rfl⟩
      · cases hbody
        exact ⟨r.depth,Nat.lt_succ_of_le (Nat.le_max_right _ _),r,⟨.right,x,c,l⟩ :: gs,
          ho.setParent,rfl,rfl,rfl⟩

theorem rbtInsert_within (h : t.Shape T) (hc : T.color = .black) (hn : n ∉ T.ids) :
    Within (T.depth + 1) (fun fuel => rbtInsert fuel compare t n) := by
  have ho := offNode_fresh (t := t) (n := n)
  obtain ⟨t₁,hl,ho₁,hx⟩ := insertSearch_within compare (ho.shape h hn) hn
    (by simp [node_modify]) (Nat.lt_succ_self T.depth)
  have hends : ∃ r, rbtInsert (T.depth + 1) compare t n = some r := by
    cases hd : descend compare n T [] with
    | none => exact ⟨(t₁,false),by simp [rbtInsert,hl,hd]⟩
    | some fs =>
      have hz := ho₁.hang (ho.shape h hn) hn hd (hx fs hd)
      have hplug : plug .leaf fs = T := descend_plug hd
      have hlen : fs.length < T.depth + 1 := by
        have hdepth : depth .leaf + fs.length ≤ (plug .leaf fs).depth := depth_plug
        rw [hplug] at hdepth
        omega
      obtain ⟨t₂,hfix,-⟩ := rbtInsertFixup_spec hz top_node (rootBlack_descend hc hd) hlen
      exact ⟨(t₂,true),by simp [rbtInsert,hl,hd,hfix]⟩
  obtain ⟨r,hr⟩ := hends
  exact .of_mono rbtInsert_mono hr

/-! ## Removals -/

theorem dropCachedMin_within (h : t.Shape T) (hn : n ∈ T.ids) (hf : T.depth < fuel) :
    ∃ m, dropCachedMin fuel t n = some { t with cachedMin := m } := by
  rw [dropCachedMin]
  split
  case isTrue =>
    obtain ⟨l,c,r,fs,rfl⟩ := exists_focus hn
    obtain ⟨m,hm⟩ := neighbor_within (shape_plug.mp h)
    have hnext : rbnodeNext fuel t (some n) = some m := hm fuel hf
    exact ⟨m,by rw [hnext]; rfl⟩
  case isFalse => exact ⟨t.cachedMin,rfl⟩

/-- The successor is looked for below the right child. -/
theorem unlink_within {l r : ColorTree ι} {big : ℕ} {u : Unlinked ι}
    (h : t.Zoom (branch .left l n c r) fs) (hu : unlink big t n = some u) (hf : r.depth < fuel) :
    unlink fuel t n = some u := by
  have hright : (t.node n).right = r.top := by rw [h.node_branch]; rfl
  rw [unlink] at hu ⊢
  cases hl : (t.node n).left with
  | none =>
    rw [hl] at hu
    exact hu
  | some x =>
    rw [hl] at hu
    cases hr : (t.node n).right with
    | none =>
      rw [hr] at hu
      exact hu
    | some w =>
      rw [hr] at hu
      obtain ⟨y,hy,hu⟩ := Option.bind_eq_some_iff.mp hu
      obtain ⟨y',hy',-⟩ := outermost_within (s := .left) (zoom_far.mp h) (hright.symm.trans hr) hf
      have hsame : some y' = some y := by
        rw [← loop_mono hy' (Nat.le_max_left fuel big), ← loop_mono hy (Nat.le_max_right fuel big)]
      cases hsame
      exact Option.bind_eq_some_iff.mpr ⟨y,hy',hu⟩

theorem rbtRemove_within (h : t.Shape T) (hrb : T.RedBlackTree) (hn : n ∈ T.ids) :
    Within (2 * Nat.log2 (T.ids.length + 1) + 1) (fun fuel => rbtRemove fuel t n) := by
  have hdepth := hrb.depth_le
  obtain ⟨m,hdrop⟩ := dropCachedMin_within h hn (Nat.lt_succ_of_le hdepth)
  obtain ⟨l,cn,r,fs,rfl⟩ := exists_focus hn
  have hz := (shape_plug.mp h).withMin m
  obtain ⟨u,C,Z,hs,hu,hlift,hgap⟩ := unlink_spec hz (Nat.lt_succ_self _)
  have hr : r.depth < 2 * Nat.log2 ((plug (branch .left l n cn r) fs).ids.length + 1) + 1 := by
    have hplug : (branch .left l n cn r).depth + fs.length ≤ (plug (branch .left l n cn r) fs).depth :=
      depth_plug
    rw [depth_branch] at hplug
    omega
  have hrem := rbtRemove_eq hdrop (unlink_within hz hu hr) hlift.y hgap.node hgap.parent
  have hends : ∃ t', rbtRemove (2 * Nat.log2 ((plug (branch .left l n cn r) fs).ids.length + 1) + 1)
      t n = some t' := by
    rw [hrem]
    by_cases hc : u.rmColor = .black
    · rw [if_pos hc]
      have hd := (hgap.balance hrb).2 hc
      obtain ⟨k,m,he,hp⟩ := hd.even
      have hids : (plug Z hs).ids.length ≤ (plug (branch .left l n cn r) fs).ids.length := by
        rw [← hgap.focus, hgap.excised.erase h.nodup]
        exact List.length_erase_le
      have hlen := hd.pathCalm.length_deficit he hp
      have hlog : Nat.log2 ((plug Z hs).ids.length + 1) ≤
          Nat.log2 ((plug (branch .left l n cn r) fs).ids.length + 1) := by
        refine (Nat.le_log2 (Nat.succ_ne_zero _)).mpr ?_
        exact (Nat.log2_self_le (Nat.succ_ne_zero _)).trans (Nat.succ_le_succ hids)
      obtain ⟨t',hfix,-⟩ := rbtRemoveFixup_spec (hlift.zoom hz hgap).1 hd
        (show hs.length < 2 * Nat.log2 ((plug (branch .left l n cn r) fs).ids.length + 1) + 1 by
          omega)
      exact ⟨t',hfix⟩
    · exact ⟨_,if_neg hc⟩
  obtain ⟨t',ht'⟩ := hends
  exact .of_mono rbtRemove_mono ht'

/-! ## In every run -/

/-- The number of nodes that hang in a tree. -/
def Size (t : Rbtree ι) (n : ℕ) : Prop :=
  ∃ ids : List ι, ids.Nodup ∧ (∀ x, x ∈ ids ↔ t.Has x) ∧ ids.length = n

/-- No loop of any operation runs more than `k` times. -/
structure EndsWithin (compare : ι → ι → ℤ) (t : Rbtree ι) (k : ℕ) : Prop where
  insert : ∀ x, ¬ t.Has x → Within k (fun fuel => rbtInsert fuel compare t x)
  remove : ∀ x, t.Has x → Within k (fun fuel => rbtRemove fuel t x)
  find : ∀ x, Within k (fun fuel => rbtFind fuel compare t x)
  next : ∀ x, t.Has x → Within k (fun fuel => rbnodeNext fuel t (some x))
  prev : ∀ x, t.Has x → Within k (fun fuel => rbnodePrev fuel t (some x))
  max : Within k (fun fuel => rbtMax fuel t)

/-- As long as no insertion turns a black inner grandchild over, everything takes
logarithmically many steps. -/
theorem rbtree_logarithmic {node : ι → RbNode ι} {es : List (Event ι)}
    (hr : Run (Step (NoBlackInner true) compare) (rbtInit node) es t) :
    ∃ n, t.Size n ∧ EndsWithin compare t (2 * Nat.log2 (n + 1) + 1) := by
  obtain ⟨T,h,hrb⟩ := run_redBlack hr
  have hk : T.depth + 1 ≤ 2 * Nat.log2 (T.ids.length + 1) + 1 := Nat.succ_le_succ hrb.depth_le
  have hneighbor (s : Side) (x : ι) (hx : t.Has x) :
      Within (T.depth + 1) (fun fuel => neighbor s.flip fuel t (some x)) := by
    obtain ⟨l,c,r,fs,rfl⟩ := exists_focus (h.has_iff.mp hx)
    obtain ⟨a,b,hbranch⟩ := node_eq_branch s l x c r
    change t.Shape (plug (.node l x c r) fs) at h
    change Within ((plug (.node l x c r) fs).depth + 1) _
    rw [hbranch] at h ⊢
    exact neighbor_within (shape_plug.mp h)
  refine ⟨T.ids.length,⟨T.ids,h.nodup,fun _ => h.has_iff.symm,rfl⟩,?_,?_,?_,?_,?_,?_⟩
  · exact fun x hx => (rbtInsert_within h hrb.root (fun hm => hx (h.has_iff.mpr hm))).mono hk
  · exact fun x hx => rbtRemove_within h hrb (h.has_iff.mp hx)
  · exact fun x => (rbtFind_within h).mono hk
  · exact fun x hx => (hneighbor .left x hx).mono hk
  · exact fun x hx => (hneighbor .right x hx).mono hk
  · exact (rbtMax_within h).mono hk

/-- Four insertions, the last of which only recolours. -/
theorem rbtree_logarithmic_recolored : ∃ (t : Rbtree ℕ) (n : ℕ), t.root = some 5 ∧ t.Has 7 ∧
    t.Size n ∧ EndsWithin compareKey t (2 * Nat.log2 (n + 1) + 1) := by
  have hI : insertTrees (NoBlackInner true) compareKey .leaf [4,5,6,7] =
      some (.node (.node .leaf 4 .black .leaf) 5 .black (.node .leaf 6 .black
        (.node .leaf 7 .red .leaf))) := by decide
  obtain ⟨t,hr,hs⟩ := insertTrees_run (initial_redBlack blank).1 rfl hI
  obtain ⟨n,hn,hk⟩ := rbtree_logarithmic hr
  exact ⟨t,n,hs.root,hs.has_iff.mpr (by decide),hn,hk⟩

end Kaplar.Rbtree
