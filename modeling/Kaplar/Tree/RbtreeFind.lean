import Kaplar.Tree.RbtreeOrder

/-! # Finding a node

`rbt_find` passes its arguments to the comparator in the other order than `rbt_insert` and
goes to the same sides, so that below the root it looks where the key cannot be.
-/
namespace Kaplar.Rbtree
open RedBlack RedBlack.ColorTree Execution
variable {ι κ : Type*} [LinearOrder κ] {compare : ι → ι → ℤ} {key : ι → κ}

def findBody (compare : ι → ι → ℤ) (t : Rbtree ι) (n : ι) :
    Option ι → Option (Option ι ⊕ Option ι)
  | none => some (.inr none)
  | some cur =>
    let cmp := compare cur n
    if cmp = 0 then some (.inr (some cur))
    else if cmp < 0 then some (.inl (t.node cur).left)
    else some (.inl (t.node cur).right)

def rbtFind (fuel : ℕ) (compare : ι → ι → ℤ) (t : Rbtree ι) (n : ι) : Option (Option ι) :=
  loop (findBody compare t n) fuel t.root

section Find
variable {t : Rbtree ι} {T : ColorTree ι} {n : ι} {p r : Option ι}

/-- The node the loop ends at, if any, and the side it takes at every node before. -/
def seek (compare : ι → ι → ℤ) (n : ι) : ColorTree ι → Option ι
  | .leaf => none
  | .node l x _ r =>
    if compare x n = 0 then some x else if compare x n < 0 then seek compare n l
    else seek compare n r

theorem findLoop_spec (h : Linked t.node p T) {fuel : ℕ} (hf : T.ids.length < fuel) :
    loop (findBody compare t n) fuel T.top = some (seek compare n T) := by
  obtain ⟨r,hr,rfl⟩ : ∃ r, loop (findBody compare t n) fuel T.top = some r ∧
      r = seek compare n T := by
    refine loop_total (fun k cur => ∃ U q, Linked t.node q U ∧ cur = U.top ∧
      seek compare n U = seek compare n T ∧ U.ids.length = k) ?_ ⟨T,p,h,rfl,rfl,rfl⟩ hf
    rintro k _ ⟨U,q,hU,rfl,hs,rfl⟩
    cases U with
    | leaf => exact .inl ⟨none,rfl,hs⟩
    | node l x c r =>
      obtain ⟨hx,hl,hr⟩ := hU
      simp only [seek] at hs
      simp only [findBody, top_node, hx, ids, List.length_append, List.length_cons]
      split
      case isTrue h0 =>
        rw [if_pos h0] at hs
        exact .inl ⟨some x,rfl,hs⟩
      case isFalse h0 =>
        rw [if_neg h0] at hs
        right
        split
        case isTrue hlt =>
          rw [if_pos hlt] at hs
          exact ⟨_,_,rfl,⟨l,_,hl,rfl,hs,rfl⟩,by omega⟩
        case isFalse hlt =>
          rw [if_neg hlt] at hs
          exact ⟨_,_,rfl,⟨r,_,hr,rfl,hs,rfl⟩,by omega⟩
  exact hr

/-- A node found has the key. -/
theorem seek_some (ho : Orders compare key) {m : ι} (h : seek compare n T = some m) :
    m ∈ T.ids ∧ key m = key n := by
  induction T with
  | leaf => cases h
  | node l x c r ihl ihr =>
    simp only [seek] at h
    simp only [ids, List.mem_append, List.mem_cons]
    split at h
    case isTrue h0 =>
      cases h
      exact ⟨.inr (.inl rfl),(ho.zero _ n).mp h0⟩
    case isFalse =>
      split at h
      case isTrue =>
        obtain ⟨hm,hk⟩ := ihl h
        exact ⟨.inl hm,hk⟩
      case isFalse =>
        obtain ⟨hm,hk⟩ := ihr h
        exact ⟨.inr (.inr hm),hk⟩

/-- Only the root can be found. -/
theorem seek_node (ho : Orders compare key) {l r : ColorTree ι} {x : ι} {c : Color}
    (h : Ascends key (ColorTree.node l x c r).ids) :
    seek compare n (.node l x c r) = if key x = key n then some x else none := by
  obtain ⟨_,_,hlx,hxr⟩ := ascends_node.mp h
  simp only [seek, ho.zero, ho.neg]
  split
  case isTrue => rfl
  case isFalse hne =>
    have hnone {U : ColorTree ι} (hU : ∀ m ∈ U.ids, key m ≠ key n) : seek compare n U = none := by
      rw [Option.eq_none_iff_forall_ne_some]
      intro m hm
      obtain ⟨hmem,hkey⟩ := seek_some ho hm
      exact hU m hmem hkey
    split
    case isTrue hlt =>
      exact hnone fun m hm => ne_of_lt (lt_trans (hlx m hm) hlt)
    case isFalse hlt =>
      have hgt : key n < key x := lt_of_le_of_ne (le_of_not_gt hlt) (Ne.symm hne)
      exact hnone fun m hm => ne_of_gt (lt_trans hgt (hxr m hm))

/-- The answer that agrees with the insertions made so far. -/
def Agrees (key : ι → κ) (es : List (Event ι)) (n : ι) : Option ι → Prop
  | some m => .insert m true ∈ es ∧ key m = key n
  | none => ∀ m, .insert m true ∈ es → key m ≠ key n

variable [DecidableEq ι] {es : List (Event ι)}

/-- The search always ends, and its answer agrees with the insertions exactly if no node with
the key was inserted or the root has the key. -/
theorem rbtFind_agrees_iff (ho : Orders compare key) {node : ι → RbNode ι}
    (hr : Run (Inserts compare) (rbtInit node) es t) (n : ι) :
    ∃ T, t.Shape T ∧ ∀ fuel, T.ids.length < fuel →
      ∃ r, rbtFind fuel compare t n = some r ∧
        (Agrees key es n r ↔ (∀ m, .insert m true ∈ es → key m ≠ key n) ∨
          ∃ m, t.root = some m ∧ key m = key n) := by
  obtain ⟨T,hrep,_,hmem⟩ := kept_run ho hr
  refine ⟨T,hrep.shape,fun fuel hf => ⟨seek compare n T,?_,?_⟩⟩
  · rw [rbtFind, hrep.shape.root]
    exact findLoop_spec hrep.shape.links hf
  · rw [hrep.shape.root]
    cases T with
    | leaf =>
      have hnone : ∀ m, .insert m true ∈ es → key m ≠ key n := by
        intro m hm
        exact absurd ((hmem m).mpr hm) List.not_mem_nil
      exact iff_of_true hnone (.inl hnone)
    | node l x c r =>
      have hx : .insert x true ∈ es := (hmem x).mp (top_mem_ids rfl)
      rw [seek_node ho hrep.ascends, top_node]
      by_cases hk : key x = key n
      · rw [if_pos hk]
        exact iff_of_true ⟨hx,hk⟩ (.inr ⟨x,rfl,hk⟩)
      · rw [if_neg hk]
        refine ⟨Or.inl,?_⟩
        rintro (h | ⟨m,hm,he⟩)
        · exact h
        · cases hm
          exact absurd he hk

end Find

/-- The root of a tree of three nodes is found. -/
theorem rbtFind_agrees_root : ∃ (t : Rbtree ℕ) (r : Option ℕ), rbtFind 4 compareKey t 5 = some r ∧
    Agrees id [.insert 4 true,.insert 5 true,.insert 6 true] 5 r := by
  have hI : insertTrees (fun _ => True) compareKey .leaf [4,5,6] =
      some (.node (.node .leaf 4 .red .leaf) 5 .black (.node .leaf 6 .red .leaf)) := by decide
  obtain ⟨t,hr,hs⟩ := insertTrees_run (initial_redBlack blank).1 rfl hI
  obtain ⟨T,hT,hfind⟩ := rbtFind_agrees_iff orders_compareKey (inserts_of_steps hr (by simp)) 5
  obtain rfl := hT.unique hs
  obtain ⟨r,hr,hiff⟩ := hfind 4 (by decide)
  exact ⟨t,r,hr,hiff.mpr (.inr ⟨5,hs.root,rfl⟩)⟩

/-- Of two nodes the one below the root is not found. -/
theorem rbtFind_not_agrees : ¬ ∀ (compare : ℕ → ℕ → ℤ) (key : ℕ → ℕ) (node : ℕ → RbNode ℕ)
    (t : Rbtree ℕ) (es : List (Event ℕ)) (n : ℕ), Orders compare key →
      Run (Inserts compare) (rbtInit node) es t →
      ∃ fuel r, rbtFind fuel compare t n = some r ∧ Agrees key es n r := by
  intro h
  have hI : insertTrees (fun _ => True) compareKey .leaf [1,2] =
      some (.node .leaf 1 .black (.node .leaf 2 .red .leaf)) := by decide
  obtain ⟨t,hr,hs⟩ := insertTrees_run (initial_redBlack blank).1 rfl hI
  obtain ⟨fuel,r,hf,ha⟩ := h compareKey id blank t _ 2 orders_compareKey
    (inserts_of_steps hr (by simp))
  have hnone : rbtFind (max fuel 3) compareKey t 2 = some none := by
    rw [rbtFind, hs.root]
    exact findLoop_spec hs.links (Nat.lt_of_lt_of_le (by decide) (Nat.le_max_right fuel 3))
  have hsame := (loop_mono hf (Nat.le_max_left fuel 3)).symm.trans hnone
  cases hsame
  exact ha 2 (by simp) rfl

end Kaplar.Rbtree
