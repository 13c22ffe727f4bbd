import Mathlib.Data.List.Basic
import Mathlib.Logic.Function.Basic

/-! # Consecutive values of a function on the naturals -/
namespace Kaplar
variable {α : Type*} {f g : ℕ → α} {start n i : ℕ} {a : α}

def window (f : ℕ → α) (start n : ℕ) : List α := (List.range n).map (fun i => f (start + i))

@[simp] theorem window_zero (f : ℕ → α) (start : ℕ) : window f start 0 = [] := rfl

theorem window_succ (f : ℕ → α) (start n : ℕ) :
    window f start (n + 1) = window f start n ++ [f (start + n)] := by
  simp [window, List.range_succ]

theorem window_succ_left (f : ℕ → α) (start n : ℕ) :
    window f start (n + 1) = f start :: window f (start + 1) n := by
  simp [window, List.range_succ_eq_map, Function.comp_def, Nat.add_comm, Nat.add_left_comm]

theorem window_congr (h : ∀ i < n, f (start + i) = g (start + i)) :
    window f start n = window g start n := by
  apply List.map_congr_left
  intro i hi
  exact h i (List.mem_range.mp hi)

/-- A change outside of the window. -/
theorem window_update (h : i < start ∨ start + n ≤ i) :
    window (Function.update f i a) start n = window f start n := by
  apply window_congr
  intro j hj
  exact Function.update_of_ne (by omega) _ _

/-- A change right behind the window comes into the longer one. -/
theorem window_push (f : ℕ → α) (start n : ℕ) (a : α) :
    window (Function.update f (start + n) a) start (n + 1) = window f start n ++ [a] := by
  rw [window_succ, window_update (Or.inr (Nat.le_refl _)), Function.update_self]

end Kaplar
