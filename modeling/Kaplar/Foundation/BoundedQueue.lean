import Kaplar.Foundation.Execution

/-! # Bounded first-in first-out queues

A queue is the list of what is stored in it, oldest first. A put is allowed while
there is room, a take while there is something to take.
-/
namespace Kaplar.BoundedQueue
open Execution
variable {α : Type*}

inductive Event (α : Type*) where
  | put (a : α)
  | take (a : α)

def puts : List (Event α) → List α := List.filterMap fun
  | .put a => some a
  | .take _ => none

def takes : List (Event α) → List α := List.filterMap fun
  | .put _ => none
  | .take a => some a

/-- One operation on a queue of at most `capacity` elements, or none. -/
inductive Step (capacity : ℕ) : List α → List (Event α) → List α → Prop
  | put {q : List α} {a : α} : q.length < capacity → Step capacity q [.put a] (q ++ [a])
  | take {q : List α} {a : α} : Step capacity (a :: q) [.take a] q
  | stay {q : List α} : Step capacity q [] q

variable {capacity : ℕ} {q q' : List α} {es : List (Event α)}

/-- What was stored and what came in is what went out and what is stored. -/
theorem Step.conserves (h : Step capacity q es q') : q ++ puts es = takes es ++ q' := by
  cases h with
  | put _ => rfl
  | take => exact List.append_nil _
  | stay => exact List.append_nil _

theorem run_conserves (hr : Run (Step capacity) q es q') : q ++ puts es = takes es ++ q' := by
  refine hr.traced (I := fun es q' => q ++ puts es = takes es ++ q') (List.append_nil q) ?_
  intro es s fs t hi hs
  have hp : puts (es ++ fs) = puts es ++ puts fs := List.filterMap_append
  have ht : takes (es ++ fs) = takes es ++ takes fs := List.filterMap_append
  rw [hp, ht, ← List.append_assoc, hi, List.append_assoc, hs.conserves, List.append_assoc]

end Kaplar.BoundedQueue
