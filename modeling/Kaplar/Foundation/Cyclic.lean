import Mathlib.Data.List.Basic
import Mathlib.Tactic.Common

/-! # Lists read in a circle

A reader that starts again behind the last entry sees an endless repetition of the list. Of a
list with an end mark it sees all if it comes to the mark.
-/
namespace Kaplar.Cyclic
variable {α : Type*} [Inhabited α] {l s t : List α} {e : α} {n i : ℕ}

def entry (l : List α) (i : ℕ) : α := l.getD (i % l.length) default

/-- The reader cannot tell the lists apart. -/
def Agree (n : ℕ) (l k : List α) : Prop := ∀ i < n, entry l i = entry k i

theorem entry_of_lt (h : i < l.length) : entry l i = l[i] := by
  rw [entry, Nat.mod_eq_of_lt h, List.getD_eq_getElem?_getD, List.getElem?_eq_getElem h,
    Option.getD_some]

/-- What lies behind the last entry that is read does not count. -/
theorem agree_take (h : n ≤ l.length) : Agree n (l.take n) l := by
  intro i hi
  have hlen : i < (l.take n).length := by
    rw [List.length_take]
    omega
  rw [entry_of_lt hlen, entry_of_lt (Nat.lt_of_lt_of_le hi h), List.getElem_take]

theorem Agree.symm {k : List α} (h : Agree n l k) : Agree n k l := fun i hi => (h i hi).symm

theorem Agree.trans {k j : List α} (h : Agree n l k) (h' : Agree n k j) : Agree n l j :=
  fun i hi => (h i hi).trans (h' i hi)

theorem Agree.congr {l' k k' : List α} (h : Agree n l l') (h' : Agree n k k') :
    Agree n l k ↔ Agree n l' k' :=
  ⟨fun hl => h.symm.trans (hl.trans h'),fun hl => h.trans (hl.trans h'.symm)⟩

/-! ## Lists with an end mark -/

theorem entry_before (h : i < s.length) : entry (s ++ [e]) i = s[i] := by
  rw [entry_of_lt (by rw [List.length_append]; omega), List.getElem_append_left h]

theorem entry_end : entry (s ++ [e]) s.length = e := by
  rw [entry_of_lt (by rw [List.length_append]; exact Nat.lt_succ_self _),
    List.getElem_concat_length rfl]

theorem getElem_eq (h : Agree n (s ++ [e]) (t ++ [e])) (hi : i < n) (hs : i < s.length)
    (ht : i < t.length) : s[i] = t[i] := by
  rw [← entry_before (e := e) hs, h i hi, entry_before ht]

/-- A mark is not passed unseen. -/
theorem length_le (ht : e ∉ t) (hlt : s.length < n) (h : Agree n (s ++ [e]) (t ++ [e])) :
    t.length ≤ s.length := by
  by_contra hle
  have hs : s.length < t.length := Nat.lt_of_not_le hle
  have hmark := h s.length hlt
  rw [entry_end, entry_before hs] at hmark
  exact ht (hmark ▸ List.getElem_mem hs)

theorem agree_terminated_iff (hs : e ∉ s) (ht : e ∉ t) : Agree n (s ++ [e]) (t ++ [e]) ↔
    s = t ∨ n ≤ s.length ∧ n ≤ t.length ∧ s.take n = t.take n := by
  constructor
  · intro h
    by_cases hlt : s.length < n
    · left
      have hle := length_le ht hlt h
      have hle' := length_le hs (Nat.lt_of_le_of_lt hle hlt) h.symm
      apply List.ext_getElem (Nat.le_antisymm hle' hle)
      intro i hi hi'
      exact getElem_eq h (Nat.lt_trans hi hlt) hi hi'
    · right
      have hns : n ≤ s.length := Nat.le_of_not_lt hlt
      have hnt : n ≤ t.length := by
        by_contra hle
        exact hlt (Nat.lt_of_le_of_lt (length_le hs (Nat.lt_of_not_le hle) h.symm)
          (Nat.lt_of_not_le hle))
      refine ⟨hns,hnt,?_⟩
      apply List.ext_getElem
      · rw [List.length_take, List.length_take, Nat.min_eq_left hns, Nat.min_eq_left hnt]
      · intro i hi hi'
        rw [List.length_take, Nat.lt_min] at hi hi'
        rw [List.getElem_take, List.getElem_take]
        exact getElem_eq h hi.1 hi.2 hi'.2
  · rintro (rfl | ⟨hns,hnt,heq⟩) i hi
    · rfl
    · have his : i < s.length := Nat.lt_of_lt_of_le hi hns
      have hit : i < t.length := Nat.lt_of_lt_of_le hi hnt
      have hsame : s[i]? = t[i]? := by
        rw [← List.getElem?_take_of_lt hi, heq, List.getElem?_take_of_lt hi]
      rw [List.getElem?_eq_getElem his, List.getElem?_eq_getElem hit, Option.some.injEq] at hsame
      rw [entry_before his, entry_before hit, hsame]

end Kaplar.Cyclic
