import Mathlib.Data.List.Induction
import Mathlib.Data.List.Basic

/-! # The last of several writers

Steps that each may set a cell leave in it what the last one has written. What a step writes
may depend on a part of the state which no step changes.
-/
namespace Kaplar.Overriding
variable {σ α ν : Type*} {I : σ → Prop} {read : σ → ν} {step : σ → α → σ}
  {writes : α → Option ν} {l : List α} {a : α} {s : σ} {v : ν}

/-- What the last writer of a list leaves. -/
def lastWritten (writes : α → Option ν) (l : List α) : Option ν := (l.filterMap writes).getLast?

@[simp] theorem lastWritten_nil : lastWritten writes [] = none := rfl

theorem lastWritten_concat : lastWritten writes (l ++ [a]) =
    (writes a).or (lastWritten writes l) := by
  cases h : writes a <;> simp [lastWritten,h]

theorem lastWritten_eq_none (h : ∀ b ∈ l, writes b = none) : lastWritten writes l = none := by
  rw [lastWritten, List.filterMap_eq_nil_iff.mpr h, List.getLast?_nil]

/-- Where all writers agree, their order does not matter. -/
theorem lastWritten_eq_some (ha : a ∈ l) (hv : writes a = some v)
    (hall : ∀ b ∈ l, ∀ w, writes b = some w → w = v) : lastWritten writes l = some v := by
  have hne : l.filterMap writes ≠ [] := List.ne_nil_of_mem (List.mem_filterMap.mpr ⟨a,ha,hv⟩)
  obtain ⟨b,hb,hlast⟩ := List.mem_filterMap.mp (List.getLast_mem hne)
  rw [lastWritten, List.getLast?_eq_some_getLast hne, hall b hb _ hlast]

/-- The steps keep an invariant, and a cell has after each what the step has written, or what
it had. -/
structure Cell (I : σ → Prop) (read : σ → ν) (step : σ → α → σ) (writes : α → Option ν) :
    Prop where
  keeps : ∀ s a, I s → I (step s a)
  reads : ∀ s a, I s → read (step s a) = (writes a).getD (read s)

theorem Cell.invariant (h : Cell I read step writes) (hs : I s) (l : List α) :
    I (l.foldl step s) := by
  induction l generalizing s with
  | nil => exact hs
  | cons a l ih => exact ih (h.keeps s a hs)

theorem Cell.foldl (h : Cell I read step writes) (hs : I s) (l : List α) :
    read (l.foldl step s) = (lastWritten writes l).getD (read s) := by
  induction l using List.reverseRecOn with
  | nil => rfl
  | append_singleton l a ih =>
    rw [List.foldl_concat, h.reads _ _ (h.invariant hs l), ih, lastWritten_concat]
    cases writes a <;> rfl

end Kaplar.Overriding
