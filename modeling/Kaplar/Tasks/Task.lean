import Kaplar.Foundation.Window

/-! # Queued tasks and the memory they are stored in

Both task buffers store `struct task`, a function pointer with its argument, in
an array of slots. Running a task is an event, as its effect is not the queue's.
-/
namespace Kaplar

structure Task where
  fp : ℕ
  arg : ℕ
  deriving DecidableEq, Repr

/-- The contents of `n` consecutive slots. -/
def slotsFrom (slots : ℕ → Task) (start n : ℕ) : List Task :=
  (List.range n).map (fun i => slots (start + i))

@[simp] theorem slotsFrom_zero (slots : ℕ → Task) (start : ℕ) : slotsFrom slots start 0 = [] := rfl

theorem slotsFrom_succ_left (slots : ℕ → Task) (start n : ℕ) :
    slotsFrom slots start (n + 1) = slots start :: slotsFrom slots (start + 1) n :=
  window_succ_left slots start n

/-- A write outside the segment leaves it alone. -/
theorem slotsFrom_update {slots : ℕ → Task} {start n i : ℕ} {t : Task}
    (h : i < start ∨ start + n ≤ i) :
    slotsFrom (Function.update slots i t) start n = slotsFrom slots start n := window_update h

/-- A write right behind the segment extends it. -/
theorem slotsFrom_push (slots : ℕ → Task) (start n : ℕ) (t : Task) :
    slotsFrom (Function.update slots (start + n) t) start (n + 1) =
      slotsFrom slots start n ++ [t] := window_push slots start n t

end Kaplar
