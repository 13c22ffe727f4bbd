import Kaplar.Foundation.RedBlack
import Mathlib.Algebra.Order.Group.Nat

/-! # How deep red-black trees are

On every path at least every other node is black, and all paths have the same number of
black nodes. So a tree of `n` nodes is at most `2 log₂ (n + 1)` deep. The same holds of a
path above a hole where one black node is missing.
-/
namespace Kaplar.RedBlack
open ColorTree
variable {ι : Type*} {T : ColorTree ι} {fs : TreePath ι} {c : Color} {k m n : ℕ}

theorem Color.weight_le (c : Color) : c.weight ≤ 1 := by cases c <;> decide

namespace ColorTree

theorem depth_branch (s : Side) (a : ColorTree ι) (x : ι) (c : Color) (b : ColorTree ι) :
    (branch s a x c b).depth = max a.depth b.depth + 1 := by
  cases s with
  | left => rfl
  | right => rw [branch, depth, Nat.max_comm]

/-- Below a red node there is no red one. -/
theorem Calm.depth_le (hc : T.Calm) (he : T.Even n) : T.depth + T.color.weight ≤ 2 * n + 1 := by
  induction T generalizing n with
  | leaf =>
    rw [even_leaf] at he
    rw [he]
    exact Nat.le_refl 1
  | node l x c r ihl ihr =>
    obtain ⟨hred,hcl,hcr⟩ := hc
    obtain ⟨m,hel,her,rfl⟩ := he
    have hl := ihl hcl hel
    have hr := ihr hcr her
    simp only [depth, color]
    cases c with
    | black =>
      rw [Color.weight_black]
      omega
    | red =>
      obtain ⟨hlb,hrb⟩ := hred rfl
      rw [hlb, Color.weight_black] at hl
      rw [hrb, Color.weight_black] at hr
      rw [Color.weight_red]
      omega

theorem Even.pow_le (he : T.Even n) : 2 ^ n ≤ T.ids.length + 1 := by
  induction T generalizing n with
  | leaf =>
    rw [even_leaf] at he
    rw [he]
    exact Nat.le_refl 1
  | node l x c r ihl ihr =>
    obtain ⟨m,hel,her,rfl⟩ := he
    have hl := ihl hel
    have hr := ihr her
    have hpow : 2 ^ (m + c.weight) ≤ 2 ^ m * 2 := by
      rw [← Nat.pow_succ]
      exact Nat.pow_le_pow_right (by decide) (Nat.add_le_add_left c.weight_le m)
    simp only [ids, List.length_append, List.length_cons]
    omega

theorem RedBlackTree.depth_le (h : T.RedBlackTree) : T.depth ≤ 2 * Nat.log2 (T.ids.length + 1) := by
  obtain ⟨n,hn⟩ := h.even
  have hd := h.calm.depth_le hn
  have hlog : n ≤ Nat.log2 (T.ids.length + 1) := (Nat.le_log2 (Nat.succ_ne_zero _)).mpr hn.pow_le
  rw [h.root, Color.weight_black] at hd
  omega

end ColorTree

/-! ## Paths -/

theorem depth_plug : T.depth + fs.length ≤ (plug T fs).depth := by
  induction fs generalizing T with
  | nil => exact Nat.le_refl _
  | cons f fs ih =>
    have hrec := ih (T := f.fill T)
    rw [Frame.fill, depth_branch] at hrec
    rw [List.length_cons, plug_cons, Frame.fill]
    omega

theorem PathEven.pow_le (hp : PathEven fs n m) : 2 ^ m ≤ (pathIds fs).length + 2 ^ n := by
  induction fs generalizing n with
  | nil =>
    obtain rfl : n = m := hp
    exact Nat.le_add_left _ _
  | cons f fs ih =>
    obtain ⟨hs,hp⟩ := hp
    have hsib := hs.pow_le
    have hrest := ih hp
    have hpow : 2 ^ (n + f.c.weight) ≤ 2 ^ n * 2 := by
      rw [← Nat.pow_succ]
      exact Nat.pow_le_pow_right (by decide) (Nat.add_le_add_left f.c.weight_le n)
    have hlen : (pathIds (f :: fs)).length = f.sib.ids.length + 1 + (pathIds fs).length := by
      obtain ⟨s,x,c,sib⟩ := f
      cases s <;> simp only [pathIds, before, after, Frame.before, Frame.after,
        List.length_append, List.length_cons, List.length_nil] <;> omega
    omega

/-- Above a red node there is a black one. -/
theorem PathCalm.length_le (hf : Fits c fs) (hc : PathCalm fs) (hp : PathEven fs n m) :
    fs.length + 2 * n + 1 ≤ 2 * m + c.weight := by
  induction fs generalizing c n with
  | nil =>
    obtain rfl : n = m := hp
    obtain rfl : c = .black := hf
    exact Nat.le_of_eq (Nat.zero_add _ ▸ rfl)
  | cons f fs ih =>
    obtain ⟨-,-,hfit,hc⟩ := hc
    have hrest := ih hfit hc hp.2
    rw [List.length_cons]
    cases hcol : f.c with
    | black =>
      rw [hcol, Color.weight_black] at hrest
      omega
    | red =>
      obtain rfl : c = .black := hf hcol
      rw [hcol, Color.weight_red] at hrest
      rw [Color.weight_black]
      omega

/-- Where a black node is missing the path is no longer than it was. -/
theorem PathCalm.length_deficit (hc : PathCalm fs) (he : T.Even k) (hp : PathEven fs (k + 1) m) :
    fs.length ≤ 2 * Nat.log2 ((plug T fs).ids.length + 1) := by
  have hlen := PathCalm.length_le (fits_black fs) hc hp
  have hids : (plug T fs).ids.length = T.ids.length + (pathIds fs).length := by
    simp only [ids_plug, pathIds, List.length_append]
    omega
  have hpath := hp.pow_le
  have htree := he.pow_le
  have hlog : m - 1 ≤ Nat.log2 ((plug T fs).ids.length + 1) := by
    refine (Nat.le_log2 (Nat.succ_ne_zero _)).mpr ?_
    have hpow : 2 ^ m = 2 ^ (m - 1) * 2 := by
      rw [← Nat.pow_succ]
      congr 1
      rw [Color.weight_black] at hlen
      omega
    have hk : 2 ^ (k + 1) = 2 ^ k * 2 := Nat.pow_succ ..
    omega
  rw [Color.weight_black] at hlen
  omega

end Kaplar.RedBlack
