import Kaplar.Tree.Rbtree

/-! # The tree a heap of nodes represents

A header and the memory of its nodes represent a tree when every node of the tree
has the colour, the parent and the children the tree gives it. The representation
can be looked at around any position, and the setters, the replacement of a child
and the rotations act on it as on the tree.
-/
namespace Kaplar
open RedBlack RedBlack.ColorTree
variable {ι : Type*}

/-- A node with its children named from side `s`. -/
def RbNode.sided (s : Side) (c : Color) (parent near far : Option ι) : RbNode ι :=
  match s with
  | .left => ⟨c,parent,near,far⟩
  | .right => ⟨c,parent,far,near⟩

namespace RbNode
variable {s : Side} {c c' : Color} {p q near far : Option ι}

@[simp] theorem color_sided : (sided s c p near far).color = c := by cases s <;> rfl
@[simp] theorem parent_sided : (sided s c p near far).parent = p := by cases s <;> rfl
@[simp] theorem child_sided : (sided s c p near far).child s = near := by cases s <;> rfl
@[simp] theorem child_flip_sided : (sided s c p near far).child s.flip = far := by
  cases s <;> rfl
@[simp] theorem withColor_sided :
    (sided s c p near far).withColor c' = sided s c' p near far := by cases s <;> rfl
@[simp] theorem withParent_sided :
    (sided s c p near far).withParent q = sided s c q near far := by cases s <;> rfl
@[simp] theorem withChild_sided :
    (sided s c p near far).withChild q s = sided s c p q far := by cases s <;> rfl
@[simp] theorem withChild_flip_sided :
    (sided s c p near far).withChild q s.flip = sided s c p near q := by cases s <;> rfl

theorem sided_flip : sided s.flip c p near far = sided s c p far near := by cases s <;> rfl

end RbNode

namespace Rbtree

/-- Every node of the tree has its colour, parent and children in memory. -/
def Linked (node : ι → RbNode ι) : Option ι → ColorTree ι → Prop
  | _, .leaf => True
  | p, .node l x c r =>
    node x = ⟨c,p,l.top,r.top⟩ ∧ Linked node (some x) l ∧ Linked node (some x) r

/-- The same for a path above a hole in which a tree with top `p` hangs. -/
def LinkedPath (node : ι → RbNode ι) : Option ι → TreePath ι → Prop
  | _, [] => True
  | p, f :: fs => node f.x = .sided f.side f.c (above fs) p f.sib.top ∧
    Linked node (some f.x) f.sib ∧ LinkedPath node (some f.x) fs

/-- The header and the memory represent a tree. -/
structure Shape (t : Rbtree ι) (T : ColorTree ι) : Prop where
  root : t.root = T.top
  links : Linked t.node none T
  nodup : T.ids.Nodup

/-- The same with a focus on one position. -/
structure Zoom (t : Rbtree ι) (T : ColorTree ι) (fs : TreePath ι) : Prop where
  root : t.root = rootOf T.top fs
  tree : Linked t.node (above fs) T
  path : LinkedPath t.node T.top fs
  nodup : (T.ids ++ pathIds fs).Nodup

section Links
variable {node node' : ι → RbNode ι} {p : Option ι} {T T' : ColorTree ι} {fs : TreePath ι}

theorem linked_branch {s : Side} {a b : ColorTree ι} {x : ι} {c : Color} :
    Linked node p (branch s a x c b) ↔ node x = .sided s c p a.top b.top ∧
      Linked node (some x) a ∧ Linked node (some x) b := by
  cases s with
  | left => exact Iff.rfl
  | right =>
    simp only [branch, Linked, RbNode.sided]
    tauto

theorem Linked.congr (h : Linked node p T) (he : ∀ y ∈ T.ids, node' y = node y) :
    Linked node' p T := by
  induction T generalizing p with
  | leaf => trivial
  | node l x c r ihl ihr =>
    obtain ⟨hx,hl,hr⟩ := h
    refine ⟨by rw [he x (by simp [ids]), hx],ihl hl ?_,ihr hr ?_⟩
    · exact fun y hy => he y (by simp [ids,hy])
    · exact fun y hy => he y (by simp [ids,hy])

theorem LinkedPath.congr (h : LinkedPath node p fs) (he : ∀ y ∈ pathIds fs, node' y = node y) :
    LinkedPath node' p fs := by
  induction fs generalizing p with
  | nil => trivial
  | cons f fs ih =>
    obtain ⟨hx,hs,hp⟩ := h
    refine ⟨by rw [he _ (mem_pathIds_cons.mpr (.inl rfl)), hx],hs.congr ?_,ih hp ?_⟩
    · exact fun y hy => he y (mem_pathIds_cons.mpr (.inr (.inl hy)))
    · exact fun y hy => he y (mem_pathIds_cons.mpr (.inr (.inr hy)))

theorem linked_plug : Linked node none (plug T fs) ↔
    Linked node (above fs) T ∧ LinkedPath node T.top fs := by
  induction fs generalizing T with
  | nil => simp [LinkedPath]
  | cons f fs ih =>
    rw [plug_cons, ih, Frame.fill, linked_branch, top_branch]
    simp only [LinkedPath, above_cons]
    tauto

/-- Two trees that the same memory represents are equal. -/
theorem Linked.unique (h : Linked node p T) (h' : Linked node p T') (ht : T.top = T'.top) :
    T = T' := by
  induction T generalizing p T' with
  | leaf => exact (eq_leaf_of_top ht.symm).symm
  | node l x c r ihl ihr =>
    cases T' with
    | leaf => cases ht
    | node l' x' c' r' =>
      cases ht
      obtain ⟨hx,hl,hr⟩ := h
      obtain ⟨hx',hl',hr'⟩ := h'
      have he := hx.symm.trans hx'
      simp only [RbNode.mk.injEq, true_and] at he
      rw [ihl hl hl' he.2.1, ihr hr hr' he.2.2, he.1]

end Links

section Focus
variable {t : Rbtree ι} {T : ColorTree ι} {f : Frame ι} {fs : TreePath ι} {s : Side} {a b : ColorTree ι}
  {x : ι} {c : Color}

theorem Shape.unique {T' : ColorTree ι} (h : t.Shape T) (h' : t.Shape T') : T = T' :=
  h.links.unique h'.links (h.root.symm.trans h'.root)

theorem shape_plug : t.Shape (plug T fs) ↔ t.Zoom T fs := by
  constructor
  · intro h
    obtain ⟨ht,hp⟩ := linked_plug.mp h.links
    exact ⟨by rw [h.root, top_plug],ht,hp,nodup_plug.mp h.nodup⟩
  · intro h
    exact ⟨by rw [h.root, top_plug],linked_plug.mpr ⟨h.tree,h.path⟩,nodup_plug.mpr h.nodup⟩

theorem zoom_fill : t.Zoom (f.fill T) fs ↔ t.Zoom T (f :: fs) := by
  rw [← shape_plug, ← shape_plug, plug_cons]

theorem zoom_append {gs : TreePath ι} : t.Zoom (plug T gs) fs ↔ t.Zoom T (gs ++ fs) := by
  rw [← shape_plug, ← shape_plug, plug_append]

theorem zoom_near : t.Zoom (branch s a x c b) fs ↔ t.Zoom a (⟨s,x,c,b⟩ :: fs) :=
  zoom_fill (f := ⟨s,x,c,b⟩)

theorem zoom_far : t.Zoom (branch s a x c b) fs ↔ t.Zoom b (⟨s.flip,x,c,a⟩ :: fs) := by
  rw [← branch_flip]
  exact zoom_near

theorem Zoom.node_branch (h : t.Zoom (branch s a x c b) fs) :
    t.node x = .sided s c (above fs) a.top b.top := (linked_branch.mp h.tree).1

theorem Zoom.node_frame (h : t.Zoom T (f :: fs)) :
    t.node f.x = .sided f.side f.c (above fs) T.top f.sib.top := h.path.1

theorem Zoom.isRed (h : t.Zoom T fs) : t.isRed T.top = (T.color == .red) := by
  cases T with
  | leaf => rfl
  | node l x c r => simp only [top, Rbtree.isRed, h.tree.1, ColorTree.color]

theorem nodup_branch : (branch s a x c b).ids.Nodup ↔ a.ids.Nodup ∧ b.ids.Nodup ∧
    x ∉ a.ids ∧ x ∉ b.ids ∧ a.ids.Disjoint b.ids := by
  cases s <;> simp only [branch, ids, List.nodup_append, List.nodup_cons, List.mem_cons,
    List.disjoint_iff_ne]
  · constructor
    · rintro ⟨ha,⟨hx,hb⟩,hd⟩
      exact ⟨ha,hb,fun hm => hd x hm x (.inl rfl) rfl,hx,fun y hy z hz => hd y hy z (.inr hz)⟩
    · rintro ⟨ha,hb,hxa,hxb,hd⟩
      refine ⟨ha,⟨hxb,hb⟩,?_⟩
      rintro y hy z (rfl | hz)
      · exact fun he => hxa (he ▸ hy)
      · exact hd y hy z hz
  · constructor
    · rintro ⟨hb,⟨hx,ha⟩,hd⟩
      exact ⟨ha,hb,hx,fun hm => hd x hm x (.inl rfl) rfl,
        fun y hy z hz he => hd z hz y (.inr hy) he.symm⟩
    · rintro ⟨ha,hb,hxa,hxb,hd⟩
      refine ⟨hb,⟨hxa,ha⟩,?_⟩
      rintro y hy z (rfl | hz)
      · exact fun he => hxb (he ▸ hy)
      · exact fun he => hd z hz y hy he.symm

/-- The node of the focus lies neither in its subtrees nor on the path. -/
theorem Zoom.fresh (h : t.Zoom (branch s a x c b) fs) :
    x ∉ a.ids ∧ x ∉ b.ids ∧ x ∉ pathIds fs := by
  obtain ⟨hb,_,hd⟩ := List.nodup_append.mp h.nodup
  obtain ⟨_,_,hxa,hxb,_⟩ := nodup_branch.mp hb
  exact ⟨hxa,hxb,fun hm => hd x (mem_ids_branch.mpr (.inl rfl)) x hm rfl⟩

theorem Zoom.disjoint (h : t.Zoom (branch s a x c b) fs) :
    a.ids.Disjoint b.ids ∧ a.ids.Disjoint (pathIds fs) ∧ b.ids.Disjoint (pathIds fs) := by
  obtain ⟨hb,_,hd⟩ := List.nodup_append.mp h.nodup
  obtain ⟨_,_,_,_,hab⟩ := nodup_branch.mp hb
  refine ⟨hab,?_,?_⟩
  · exact fun y hy hm => hd y (mem_ids_branch.mpr (.inr (.inl hy))) y hm rfl
  · exact fun y hy hm => hd y (mem_ids_branch.mpr (.inr (.inr hy))) y hm rfl

end Focus

section Setters
variable [DecidableEq ι] {t : Rbtree ι} {x y : ι} {c : Color} {p q : Option ι} {s : Side}

theorem node_modify {f : RbNode ι → RbNode ι} :
    (t.modify x f).node y = if y = x then f (t.node x) else t.node y := by
  simp only [modify, Function.update_apply]

@[simp] theorem node_setColor :
    (t.setColor x c).node y = if y = x then (t.node x).withColor c else t.node y := node_modify
@[simp] theorem node_setParent :
    (t.setParent x p).node y = if y = x then (t.node x).withParent p else t.node y := node_modify
@[simp] theorem node_setChild :
    (t.setChild s x p).node y = if y = x then (t.node x).withChild p s else t.node y := node_modify

@[simp] theorem root_setColor : (t.setColor x c).root = t.root := rfl
@[simp] theorem root_setParent : (t.setParent x p).root = t.root := rfl
@[simp] theorem root_setChild : (t.setChild s x p).root = t.root := rfl
@[simp] theorem cachedMin_setColor : (t.setColor x c).cachedMin = t.cachedMin := rfl
@[simp] theorem cachedMin_setParent : (t.setParent x p).cachedMin = t.cachedMin := rfl
@[simp] theorem cachedMin_setChild : (t.setChild s x p).cachedMin = t.cachedMin := rfl

@[simp] theorem root_setParent? : (t.setParent? p q).root = t.root := by cases p <;> rfl
@[simp] theorem cachedMin_setParent? : (t.setParent? p q).cachedMin = t.cachedMin := by
  cases p <;> rfl

/-- A new parent for the top node of a tree changes nothing outside of the tree. -/
theorem node_setParent?_of_notMem {T : ColorTree ι} (hy : y ∉ T.ids) :
    (t.setParent? T.top q).node y = t.node y := by
  cases T with
  | leaf => rfl
  | node l z c r =>
    have hz : y ≠ z := fun he => hy (by simp [ids,he])
    simp [top,setParent?,hz]

theorem Linked.setParent? {T : ColorTree ι} (h : Linked t.node p T) (hn : T.ids.Nodup) :
    Linked (t.setParent? T.top q).node q T := by
  cases T with
  | leaf => trivial
  | node l z c r =>
    obtain ⟨_,_,hl,hr,_⟩ := nodup_branch (s := .left).mp hn
    obtain ⟨hz,hll,hlr⟩ := h
    refine ⟨by simp [top,Rbtree.setParent?,hz,RbNode.withParent],hll.congr ?_,hlr.congr ?_⟩
    · intro y hy
      have hne : y ≠ z := fun he => hl (he ▸ hy)
      simp [top,Rbtree.setParent?,hne]
    · intro y hy
      have hne : y ≠ z := fun he => hr (he ▸ hy)
      simp [top,Rbtree.setParent?,hne]

theorem Zoom.setColor {a b : ColorTree ι} {fs : TreePath ι} {c' : Color}
    (h : t.Zoom (branch s a x c b) fs) : (t.setColor x c').Zoom (branch s a x c' b) fs := by
  obtain ⟨hxa,hxb,hxp⟩ := h.fresh
  obtain ⟨hx,hla,hlb⟩ := linked_branch.mp h.tree
  have hr := h.root
  have hp := h.path
  have hn := h.nodup
  simp only [top_branch] at hr hp
  refine ⟨by simpa using hr,linked_branch.mpr ⟨by simp [hx],hla.congr ?_,hlb.congr ?_⟩,?_,?_⟩
  · intro y hy
    have hne : y ≠ x := fun he => hxa (he ▸ hy)
    simp [hne]
  · intro y hy
    have hne : y ≠ x := fun he => hxb (he ▸ hy)
    simp [hne]
  · rw [top_branch]
    apply hp.congr
    intro y hy
    have hne : y ≠ x := fun he => hxp (he ▸ hy)
    simp [hne]
  · cases s <;> exact hn

/-- What `replaceChild` does to the path above `x`. -/
structure Replaced (t t' : Rbtree ι) (p : Option ι) (fs : TreePath ι) : Prop where
  root : t'.root = rootOf p fs
  path : LinkedPath t'.node p fs
  frame : ∀ y, y ∉ pathIds fs → t'.node y = t.node y
  cachedMin : t'.cachedMin = t.cachedMin

theorem replaceChild_spec {fs : TreePath ι} (hx : (t.node x).parent = above fs)
    (hr : t.root = rootOf (some x) fs) (hp : LinkedPath t.node (some x) fs)
    (hn : (x :: pathIds fs).Nodup) : Replaced t (t.replaceChild x p) p fs := by
  cases fs with
  | nil =>
    simp only [replaceChild, hx, above_nil]
    exact ⟨rfl,trivial,fun _ _ => rfl,rfl⟩
  | cons f fs =>
    obtain ⟨g,u,cg,sib⟩ := f
    obtain ⟨hu,hs,hl⟩ := hp
    dsimp only at hu hs hl
    have hxs : sib.top ≠ some x := by
      intro he
      exact (List.nodup_cons.mp hn).1 (mem_pathIds_cons.mpr (.inr (.inl (top_mem_ids he))))
    have hset : t.replaceChild x p = t.setChild g u p := by
      simp only [replaceChild, hx, above_cons, hu]
      cases g
      · simp [RbNode.sided]
      · simp [RbNode.sided,hxs]
    have hnu : (pathIds (⟨g,u,cg,sib⟩ :: fs)).Nodup := (List.nodup_cons.mp hn).2
    have hz : u ∉ sib.ids ∧ u ∉ pathIds fs := by
      have hd := (nodup_plug (t := .leaf)).mpr (by simpa [ids] using hnu)
      rw [plug_cons, nodup_plug] at hd
      obtain ⟨hb,_,hd⟩ := List.nodup_append.mp hd
      obtain ⟨_,_,_,hxb,_⟩ := nodup_branch.mp hb
      exact ⟨hxb,fun hm => hd u (mem_ids_branch.mpr (.inl rfl)) u hm rfl⟩
    rw [hset]
    refine ⟨hr,⟨by simp [hu],hs.congr ?_,hl.congr ?_⟩,?_,rfl⟩
    · intro y hy
      have hne : y ≠ u := fun he => hz.1 (he ▸ hy)
      simp [hne]
    · intro y hy
      have hne : y ≠ u := fun he => hz.2 (he ▸ hy)
      simp [hne]
    · intro y hy
      have hne : y ≠ u := fun he => hy (mem_pathIds_cons.mpr (.inl he))
      simp [hne]

end Setters

section Rotation
variable [DecidableEq ι] {t : Rbtree ι} {s : Side} {a b d e : ColorTree ι} {x y : ι} {c c' : Color}
  {fs : TreePath ι}

/-- A rotation moves `y` above `x`; the in-order sequence and the colours stay. -/
theorem rotate_spec (h : t.Zoom (branch s b x c (branch s d y c' e)) fs) :
    ∃ t', rotate s t x = some t' ∧ t'.Zoom (branch s (branch s b x c d) y c' e) fs ∧
      t'.cachedMin = t.cachedMin := by
  have hx := h.node_branch
  have hy := (zoom_far.mp h).node_branch
  obtain ⟨hxb,hxr,hxp⟩ := h.fresh
  obtain ⟨hbr,hbp,hrp⟩ := h.disjoint
  obtain ⟨hyd,hye,hyp⟩ := (zoom_far.mp h).fresh
  obtain ⟨hde,_,_⟩ := (zoom_far.mp h).disjoint
  obtain ⟨_,hlb,hlr⟩ := linked_branch.mp h.tree
  obtain ⟨_,hld,hle⟩ := linked_branch.mp hlr
  have hnd := h.nodup
  have hyx : y ≠ x := fun he => hxr (mem_ids_branch.mpr (.inl he.symm))
  have hyb : y ∉ b.ids := fun hm => hbr hm (mem_ids_branch.mpr (.inl rfl))
  have hyfs : y ∉ pathIds fs := hrp (mem_ids_branch.mpr (.inl rfl))
  have hxd : x ∉ d.ids := fun hm => hxr (mem_ids_branch.mpr (.inr (.inl hm)))
  have hxe : x ∉ e.ids := fun hm => hxr (mem_ids_branch.mpr (.inr (.inr hm)))
  have hr := h.root
  have hp := h.path
  rw [top_branch] at hr hp
  -- first the parent of `x` gets `y` as its child, then `x` and `y` trade places
  obtain ⟨hroot,hpath,hframe,hmin⟩ := replaceChild_spec (p := some y)
    (by rw [hx, RbNode.parent_sided]) hr hp
    (List.nodup_cons.mpr ⟨hxp,(List.nodup_append.mp h.nodup).2.1⟩)
  have hfx := hframe x hxp
  have hfy := hframe y hyfs
  generalize ht1 : t.replaceChild x (some y) = t1 at hroot hpath hframe hmin hfx hfy
  rw [hx] at hfx
  rw [hy] at hfy
  have hn5 : ∀ z, ((((t1.setParent y (above fs)).setParent x (some y)).setChild s.flip x
      d.top).setChild s y (some x)).node z = if z = y then .sided s c' (above fs) (some x) e.top
        else if z = x then .sided s c (some y) b.top d.top else t1.node z := by
    intro z
    by_cases hzy : z = y
    · subst hzy
      simp [hyx,hfy]
    · by_cases hzx : z = x
      · subst hzx
        simp [hzy,hfx]
      · simp [hzy,hzx]
  generalize ht5 : (((t1.setParent y (above fs)).setParent x (some y)).setChild s.flip x
      d.top).setChild s y (some x) = t5 at hn5
  have hrot : rotate s t x = some (t5.setParent? d.top (some x)) := by
    have h3 : (((t1.setParent y (above fs)).setParent x (some y)).node y).child s = d.top := by
      simp [hyx,hfy]
    have h5 : (t5.node x).child s.flip = d.top := by
      rw [hn5]
      simp [hyx.symm]
    simp only [rotate, hx, RbNode.child_flip_sided, top_branch, Option.bind_eq_bind,
      Option.bind_some, Option.pure_def, ht1, hfx, RbNode.parent_sided, h3, ht5, h5]
  have hout : ∀ z, z ≠ x → z ≠ y → z ∉ d.ids → z ∉ pathIds fs →
      (t5.setParent? d.top (some x)).node z = t.node z := by
    intro z hzx hzy hzd hzp
    rw [node_setParent?_of_notMem hzd, hn5, if_neg hzy, if_neg hzx, hframe z hzp]
  have hin : ∀ z ∈ d.ids, t5.node z = t.node z := by
    intro z hz
    have hzy : z ≠ y := fun he => hyd (he ▸ hz)
    have hzx : z ≠ x := fun he => hxd (he ▸ hz)
    have hzp : z ∉ pathIds fs := hrp (mem_ids_branch.mpr (.inr (.inl hz)))
    rw [hn5, if_neg hzy, if_neg hzx, hframe z hzp]
  refine ⟨_,hrot,⟨?_,?_,?_,?_⟩,?_⟩
  · rw [top_branch, root_setParent?, ← ht5]
    exact hroot
  · refine linked_branch.mpr ⟨?_,linked_branch.mpr ⟨?_,hlb.congr ?_,?_⟩,hle.congr ?_⟩
    · rw [node_setParent?_of_notMem hyd, hn5, if_pos rfl, top_branch]
    · rw [node_setParent?_of_notMem hxd, hn5, if_neg hyx.symm, if_pos rfl]
    · intro z hz
      have hzd : z ∉ d.ids := fun hm => hbr hz (mem_ids_branch.mpr (.inr (.inl hm)))
      exact hout z (fun he => hxb (he ▸ hz)) (fun he => hyb (he ▸ hz)) hzd (hbp hz)
    · refine (hld.congr hin).setParent? ?_
      have hb := (List.nodup_append.mp h.nodup).1
      exact (nodup_branch.mp (nodup_branch.mp hb).2.1).1
    · intro z hz
      have hzp : z ∉ pathIds fs := hrp (mem_ids_branch.mpr (.inr (.inr hz)))
      exact hout z (fun he => hxe (he ▸ hz)) (fun he => hye (he ▸ hz)) (fun hm => hde hm hz) hzp
  · rw [top_branch]
    apply hpath.congr
    intro z hz
    have hzx : z ≠ x := fun he => hxp (he ▸ hz)
    have hzy : z ≠ y := fun he => hyfs (he ▸ hz)
    have hzd : z ∉ d.ids := fun hm => hrp (mem_ids_branch.mpr (.inr (.inl hm))) hz
    rw [node_setParent?_of_notMem hzd, hn5, if_neg hzy, if_neg hzx]
  · cases s <;> simpa [branch,ids,List.append_assoc] using hnd
  · rw [cachedMin_setParent?, ← ht5]
    exact hmin

/-- The same seen from the child that goes up. -/
theorem rotate_flip_spec (h : t.Zoom (branch s (branch s d y c' e) x c b) fs) :
    ∃ t', rotate s.flip t x = some t' ∧ t'.Zoom (branch s d y c' (branch s e x c b)) fs ∧
      t'.cachedMin = t.cachedMin := by
  have hf : t.Zoom (branch s.flip b x c (branch s.flip e y c' d)) fs := by
    simpa only [branch_flip] using h
  simpa only [branch_flip] using rotate_spec hf

end Rotation

end Rbtree
end Kaplar
