import Kaplar.Foundation.Cursor
import Kaplar.Tree.RbtreeTraversal
import Kaplar.Tree.RbtreeOrder

/-! # Enumerating the tree

From its minimum a tree is enumerated by `rbnode_next`, and from its maximum by `rbnode_prev`.
Colours do not matter.
-/
namespace Kaplar.RedBlack
open ColorTree
variable {ι : Type*} {T : ColorTree ι} {fs : TreePath ι} {s : Side} {x : ι}

theorem toward_plug : toward s.flip (plug T fs) =
    (beyond s fs).reverse ++ toward s.flip T ++ beyond s.flip fs := by
  cases s <;> simp [toward,beyond,ids_plug,Side.flip]

theorem mem_toward : x ∈ toward s T ↔ x ∈ T.ids := by cases s <;> simp [toward]

theorem nodup_toward : (toward s T).Nodup ↔ T.ids.Nodup := by cases s <;> simp [toward]

end Kaplar.RedBlack

namespace Kaplar.Rbtree
open RedBlack RedBlack.ColorTree Cursor
variable {ι κ : Type*} [DecidableEq ι] [LinearOrder κ] {key : ι → κ} {t : Rbtree ι}
  {T : ColorTree ι} {fuel : ℕ}

def rbtMax (fuel : ℕ) (t : Rbtree ι) : Option (Option ι) := match t.root with
  | none => some none
  | some x => (outermost .right fuel t x).map some

omit [DecidableEq ι] in
theorem rbtMax_spec (h : t.Shape T) (hf : T.ids.length < fuel) :
    rbtMax fuel t = some T.ids.getLast? := by
  rw [rbtMax, h.root]
  cases hx : T.top with
  | none => rw [eq_leaf_of_top hx]; rfl
  | some x =>
    have hz : t.Zoom T [] := shape_plug.mp h
    obtain ⟨y,hy,hlast⟩ := outermost_spec (s := .right) hz hx hf
    rw [← List.head?_reverse]
    simp only [hy, Option.map_some]
    exact congrArg some hlast.symm

theorem neighbor_follows (h : t.Shape T) (s : Side) (hf : T.ids.length < fuel) :
    Follows (neighbor s.flip fuel t) (toward s.flip T) := by
  apply follows_of_nodup (nodup_toward.mpr h.nodup)
  intro x hx
  obtain ⟨l,c,r,fs,rfl⟩ := exists_focus (mem_toward.mp hx)
  obtain ⟨a,b,hbranch⟩ := node_eq_branch s l x c r
  change (plug (.node l x c r) fs).ids.length < fuel at hf
  change t.Shape (plug (.node l x c r) fs) at h
  change ∃ pre post, toward s.flip (plug (.node l x c r) fs) = pre ++ x :: post ∧ _
  rw [hbranch] at h hf ⊢
  refine ⟨(beyond s fs).reverse ++ toward s.flip a,toward s.flip b ++ beyond s.flip fs,?_,?_⟩
  · rw [toward_plug, toward_branch]
    simp only [List.append_assoc, List.cons_append]
  · apply neighbor_spec (shape_plug.mp h) hf

theorem rbnodeNext_follows (h : t.Shape T) (hf : T.ids.length < fuel) :
    Follows (rbnodeNext fuel t) T.ids := neighbor_follows h .left hf

theorem rbnodePrev_follows (h : t.Shape T) (hf : T.ids.length < fuel) :
    Follows (rbnodePrev fuel t) T.ids.reverse := neighbor_follows h .right hf

/-- The nodes of a search tree, each once and in ascending order, and the same backwards. -/
theorem rbtree_enumerates (h : Represents key t T) (hf : T.ids.length < fuel) :
    (∀ x, x ∈ T.ids ↔ t.Has x) ∧ T.ids.Nodup ∧ Ascends key T.ids ∧
      walk (rbnodeNext fuel t) fuel (rbtMin t) = some T.ids ∧
      rbtMax fuel t = some T.ids.getLast? ∧
      (rbtMax fuel t).bind (walk (rbnodePrev fuel t) fuel) = some T.ids.reverse ∧
      ∀ x y, t.Has x → rbnodeNext fuel t (some x) = some (some y) →
        rbnodePrev fuel t (some y) = some (some x) := by
  have hnext := rbnodeNext_follows h.shape hf
  have hprev := rbnodePrev_follows h.shape hf
  have hmax := rbtMax_spec h.shape hf
  refine ⟨fun _ => h.shape.has_iff.symm,h.shape.nodup,h.ascends,?_,hmax,?_,?_⟩
  · rw [rbtMin, h.cachedMin]
    exact hnext.walk_eq hf
  · rw [hmax, Option.bind_some, ← List.head?_reverse]
    apply hprev.walk_eq
    rwa [List.length_reverse]
  · intro x y hx hy
    exact hnext.back hprev (h.shape.has_iff.mp hx) hy

/-- All black, so that it is no red-black tree. -/
def descent : Rbtree ℕ where
  root := some 6
  cachedMin := some 4
  node
    | 4 => ⟨.black,some 6,none,some 5⟩
    | 5 => ⟨.black,some 4,none,none⟩
    | _ => ⟨.black,none,some 4,none⟩

theorem rbtree_enumerates_descent :
    walk (rbnodeNext 4 descent) 4 (rbtMin descent) = some [4,5,6] ∧
      (rbtMax 4 descent).bind (walk (rbnodePrev 4 descent) 4) = some [6,5,4] := by
  have hshape : descent.Shape
      (.node (.node .leaf 4 .black (.node .leaf 5 .black .leaf)) 6 .black .leaf) :=
    ⟨rfl,⟨rfl,⟨rfl,trivial,rfl,trivial,trivial⟩,trivial⟩,by decide⟩
  have hrep : Represents id descent _ := ⟨hshape,by simp [Ascends,ids],rfl⟩
  obtain ⟨_,_,_,hnext,_,hprev,_⟩ := rbtree_enumerates hrep (Nat.lt_succ_self 3)
  exact ⟨hnext,hprev⟩

end Kaplar.Rbtree
