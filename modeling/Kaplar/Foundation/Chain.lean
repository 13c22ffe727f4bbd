import Mathlib.Data.List.Basic
import Mathlib.Logic.Function.Basic

/-! # Chains of links

A singly linked list kept in a table: every position names the next one, and one
value is reserved for the end.
-/
namespace Kaplar
variable {α : Type*}

/-- The links from `p` visit the positions of the list and then reach `nil`. -/
def Chain (next : α → α) (nil : α) : α → List α → Prop
  | p, [] => p = nil
  | p, x :: xs => p = x ∧ x ≠ nil ∧ Chain next nil (next x) xs

section Rules
variable {next next' : α → α} {nil p x : α} {xs ys : List α}

theorem Chain.congr (h : Chain next nil p xs) (he : ∀ x ∈ xs, next' x = next x) :
    Chain next' nil p xs := by
  induction xs generalizing p with
  | nil => exact h
  | cons x xs ih =>
    obtain ⟨hp,hx,hc⟩ := h
    refine ⟨hp,hx,?_⟩
    rw [he x List.mem_cons_self]
    exact ih hc (fun y hy => he y (List.mem_cons_of_mem x hy))

theorem Chain.unique (h : Chain next nil p xs) (h' : Chain next nil p ys) : xs = ys := by
  induction xs generalizing p ys with
  | nil =>
    cases ys with
    | nil => rfl
    | cons y ys => exact absurd (h'.1.symm.trans h) h'.2.1
  | cons x xs ih =>
    obtain ⟨rfl,hx,hc⟩ := h
    cases ys with
    | nil => exact absurd h' hx
    | cons y ys =>
      obtain ⟨rfl,_,hc'⟩ := h'
      rw [ih hc hc']

theorem Chain.drop (h : Chain next nil p (xs ++ x :: ys)) : Chain next nil x (x :: ys) := by
  induction xs generalizing p with
  | nil =>
    obtain ⟨rfl,hx,hc⟩ := h
    exact ⟨rfl,hx,hc⟩
  | cons y xs ih => exact ih h.2.2

/-- A chain that ends visits no position twice. -/
theorem Chain.nodup (h : Chain next nil p xs) : xs.Nodup := by
  induction xs generalizing p with
  | nil => exact List.nodup_nil
  | cons x xs ih =>
    refine List.nodup_cons.mpr ⟨?_,ih h.2.2⟩
    intro hm
    obtain ⟨as,bs,rfl⟩ := List.append_of_mem hm
    have hlong : Chain next nil x (x :: (as ++ x :: bs)) := ⟨rfl,h.2⟩
    have hshort := h.2.2.drop
    have hlen := congrArg List.length (hlong.unique hshort)
    simp only [List.length_cons, List.length_append] at hlen
    omega

/-- The link of a position of the chain leads elsewhere. -/
theorem Chain.next_ne (h : Chain next nil p xs) (hx : x ∈ xs) : next x ≠ x := by
  obtain ⟨as,bs,rfl⟩ := List.append_of_mem hx
  have hc := h.drop
  have hnd := hc.nodup
  obtain ⟨_,hxn,hc⟩ := hc
  intro he
  cases bs with
  | nil => exact hxn (he.symm.trans hc)
  | cons y bs =>
    obtain ⟨hy,_,_⟩ := hc
    exact (List.nodup_cons.mp hnd).1 (List.mem_cons.mpr (.inl (he.symm.trans hy)))

end Rules

end Kaplar
