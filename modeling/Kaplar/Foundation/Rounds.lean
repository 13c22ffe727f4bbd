import Mathlib.Data.List.Basic
import Mathlib.Data.List.Range

/-! # Numbered rounds and the same rounds backwards

A cipher runs its rounds with the numbers `0, …, n - 1`, and the inverse runs its own with
`n, …, 1`. The two need not see the same state in between: `v i` turns the state of the
one before its round `i` into the state of the other after its round `i + 1`.
-/
namespace Kaplar.Rounds
variable {α β : Type} {f : α → ℕ → α} {g : β → ℕ → β}

/-- The numbers `n, …, 1`. -/
def down (n : ℕ) : List ℕ := (List.range n).reverse.map (· + 1)

@[simp] theorem down_zero : down 0 = [] := rfl

theorem down_succ (n : ℕ) : down (n + 1) = (n + 1) :: down n := by
  rw [down, List.range_succ, List.reverse_append]
  rfl

theorem foldl_down_foldl {v : ℕ → α → β}
    (hround : ∀ i a, g (v (i + 1) (f a i)) (i + 1) = v i a) (n : ℕ) (a : α) :
    (down n).foldl g (v n ((List.range n).foldl f a)) = v 0 a := by
  induction n with
  | zero => rfl
  | succ n ih =>
    rw [List.range_succ, List.foldl_append, List.foldl_cons, List.foldl_nil, down_succ,
      List.foldl_cons, hround]
    exact ih

theorem foldl_foldl_down {v : ℕ → β → α}
    (hround : ∀ i x, f (v i (g x (i + 1))) i = v (i + 1) x) (n : ℕ) (x : β) :
    (List.range n).foldl f (v 0 ((down n).foldl g x)) = v n x := by
  induction n generalizing x with
  | zero => rfl
  | succ n ih =>
    rw [List.range_succ, List.foldl_append, List.foldl_cons, List.foldl_nil, down_succ,
      List.foldl_cons, ih]
    apply hround

end Kaplar.Rounds
