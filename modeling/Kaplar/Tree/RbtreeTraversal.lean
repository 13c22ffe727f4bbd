import Kaplar.Tree.RbtreeShape

/-! # Walking through the tree

The in-order neighbour of a node is found along the links alone, down into the
subtree on that side or up the path.
-/
namespace Kaplar.RedBlack
open ColorTree
variable {ι : Type*} {a b : ColorTree ι} {fs : TreePath ι} {s : Side} {x : ι} {c : Color}

/-- The identities of a tree in the order a walk towards side `s` meets them. -/
def toward (s : Side) (T : ColorTree ι) : List ι := match s with
  | .left => T.ids.reverse
  | .right => T.ids

/-- The identities on side `s` of the hole, in the same order. -/
def beyond (s : Side) (fs : TreePath ι) : List ι := match s with
  | .left => (before fs).reverse
  | .right => after fs

theorem toward_leaf : toward s (.leaf : ColorTree ι) = [] := by cases s <;> rfl

theorem toward_branch :
    toward s.flip (branch s a x c b) = toward s.flip a ++ x :: toward s.flip b := by
  cases s <;> simp [toward,branch,ids]

theorem beyond_nil : beyond s ([] : TreePath ι) = [] := by cases s <;> rfl

theorem beyond_near :
    beyond s.flip (⟨s,x,c,b⟩ :: fs) = x :: toward s.flip b ++ beyond s.flip fs := by
  cases s <;> simp [beyond,toward,before,after,Frame.before,Frame.after]

theorem beyond_far : beyond s (⟨s,x,c,b⟩ :: fs) = beyond s fs := by
  cases s <;> simp [beyond,before,after,Frame.before,Frame.after]

end Kaplar.RedBlack

namespace Kaplar.Rbtree
open RedBlack RedBlack.ColorTree
variable {ι : Type*} [DecidableEq ι] {t : Rbtree ι} {T a b : ColorTree ι} {fs : TreePath ι} {s : Side}
  {x : ι} {c : Color} {fuel : ℕ}

omit [DecidableEq ι] in
theorem outermost_spec (h : t.Zoom T fs) (hx : T.top = some x) (hf : T.ids.length < fuel) :
    ∃ y, outermost s fuel t x = some y ∧ (toward s.flip T).head? = some y := by
  refine loop_total (fun k y => ∃ U gs, t.Zoom U gs ∧ U.top = some y ∧
    (toward s.flip U).head? = (toward s.flip T).head? ∧ U.ids.length = k) ?_ ⟨T,fs,h,hx,rfl,rfl⟩ hf
  rintro k y ⟨U,gs,hz,hy,hh,rfl⟩
  obtain ⟨a,c,b,rfl⟩ := exists_branch_of_top hy s
  have hn := hz.node_branch
  cases ha : a.top with
  | none =>
    left
    refine ⟨y,by simp [hn,ha],?_⟩
    rw [← hh, toward_branch, eq_leaf_of_top ha, toward_leaf]
    rfl
  | some z =>
    right
    obtain ⟨d,cz,e,rfl⟩ := exists_branch_of_top ha s
    refine ⟨_,z,by simp [hn],⟨_,_,zoom_near.mp hz,top_branch ..,?_,rfl⟩,?_⟩
    · simp only [← hh, toward_branch]
      cases toward s.flip d <;> rfl
    · cases s <;> simp only [branch, ids, List.length_append, List.length_cons] <;> omega

theorem climb_spec (h : t.Zoom T fs) (hx : T.top = some x) (hf : fs.length < fuel) :
    climb s fuel t x = some (beyond s.flip fs).head? := by
  obtain ⟨r,hr,he⟩ : ∃ r, climb s fuel t x = some r ∧ r = (beyond s.flip fs).head? := by
    refine loop_total (fun k y => ∃ U gs, t.Zoom U gs ∧ U.top = some y ∧
      (beyond s.flip gs).head? = (beyond s.flip fs).head? ∧ gs.length = k) ?_
      ⟨T,fs,h,hx,rfl,rfl⟩ hf
    rintro k y ⟨U,gs,hz,hy,hh,rfl⟩
    obtain ⟨a,c,b,rfl⟩ := exists_branch_of_top hy s
    have hn := hz.node_branch
    cases gs with
    | nil =>
      left
      refine ⟨none,by simp [hn],?_⟩
      rw [← hh, beyond_nil]
      rfl
    | cons f gs =>
      obtain ⟨side,p,cp,sib⟩ := f
      have hp := hz.node_frame
      dsimp only at hp
      by_cases hs : side = s
      · left
        subst hs
        refine ⟨some p,by simp [hn,hp],?_⟩
        rw [← hh, beyond_near]
        rfl
      · right
        obtain rfl : side = s.flip := Side.eq_flip hs
        have hsib : sib.top ≠ some y := by
          intro he
          exact (zoom_near.mpr hz).disjoint.1 (mem_ids_branch.mpr (.inl rfl)) (top_mem_ids he)
        have hchild : (t.node p).child s = sib.top := by
          rw [hp, RbNode.sided_flip, RbNode.child_sided]
        refine ⟨_,p,by simp [hn,hchild,hsib],⟨_,gs,zoom_near.mpr hz,top_branch ..,?_,rfl⟩,?_⟩
        · rw [← hh, beyond_far]
        · simp
  rw [hr, he]

theorem neighbor_mono {fuel' : ℕ} {p : Option ι} {r : Option ι} (h : neighbor s fuel t p = some r)
    (hf : fuel ≤ fuel') : neighbor s fuel' t p = some r := by
  cases p with
  | none => exact h
  | some x =>
    simp only [neighbor] at h ⊢
    split at h
    · obtain ⟨y,hy,rfl⟩ := Option.map_eq_some_iff.mp h
      exact Option.map_eq_some_iff.mpr ⟨y,loop_mono hy hf,rfl⟩
    · exact loop_mono h hf

/-- The neighbour of a node is the next one of the in-order sequence. -/
theorem neighbor_spec (h : t.Zoom (branch s a x c b) fs)
    (hf : (plug (branch s a x c b) fs).ids.length < fuel) :
    neighbor s.flip fuel t (some x) = some (toward s.flip b ++ beyond s.flip fs).head? := by
  have hn := h.node_branch
  have hlen : b.ids.length < fuel ∧ fs.length < fuel := by
    have hp := length_le_pathIds fs
    simp only [ids_plug, List.length_append, pathIds] at hf hp
    cases s <;> simp only [branch, ids, List.length_append, List.length_cons] at hf <;> omega
  rw [neighbor, hn, RbNode.child_flip_sided]
  cases hb : b.top with
  | none =>
    rw [eq_leaf_of_top hb, toward_leaf, List.nil_append, ← climb_spec h (top_branch ..) hlen.2,
      Side.flip_flip]
  | some z =>
    obtain ⟨y,ho,hy⟩ := outermost_spec (s := s) (zoom_far.mp h) hb hlen.1
    simp only [Side.flip_flip, ho, Option.map_some, List.head?_append, hy, Option.some_or]

end Kaplar.Rbtree
