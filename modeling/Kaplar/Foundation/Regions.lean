import Mathlib.Data.List.Basic
import Mathlib.Data.List.Pairwise
import Mathlib.Order.Nat
import Mathlib.Tactic.Common

/-! # Ranges of addresses

A range is its first address and its size. Ranges that were cut off one after the other
from the start of a larger one are listed with the last one first.
-/
namespace Kaplar

structure Region where
  addr : ℕ
  size : ℕ
  deriving DecidableEq, Repr

namespace Region

/-- The address behind the range. -/
def limit (r : Region) : ℕ := r.addr + r.size

def Contains (r : Region) (x : ℕ) : Prop := r.addr ≤ x ∧ x < r.limit

def Within (r : Region) (lo hi : ℕ) : Prop := lo ≤ r.addr ∧ r.limit ≤ hi

def Apart (r s : Region) : Prop := r.limit ≤ s.addr ∨ s.limit ≤ r.addr

instance (r s : Region) : Decidable (r.Apart s) := inferInstanceAs (Decidable (_ ∨ _))

theorem addr_le_limit (r : Region) : r.addr ≤ r.limit := Nat.le_add_right _ _

theorem Apart.symm {r s : Region} (h : r.Apart s) : s.Apart r := Or.symm h

theorem Within.mono {r : Region} {lo lo' hi hi' : ℕ} (h : r.Within lo hi) (hlo : lo' ≤ lo)
    (hhi : hi ≤ hi') : r.Within lo' hi' := ⟨le_trans hlo h.1,le_trans h.2 hhi⟩

/-- Parts of ranges that are apart are apart. -/
theorem Apart.within {r s r' s' : Region} (h : r.Apart s) (hr : r'.Within r.addr r.limit)
    (hs : s'.Within s.addr s.limit) : r'.Apart s' := by
  rcases h with h | h
  · exact .inl (le_trans (le_trans hr.2 h) hs.1)
  · exact .inr (le_trans (le_trans hs.2 h) hr.1)

end Region

/-- The ranges, last one first, leave no gap between the two addresses. -/
def Tiles (lo : ℕ) : List Region → ℕ → Prop
  | [], hi => hi = lo
  | r :: rs, hi => hi = r.limit ∧ Tiles lo rs r.addr

namespace Tiles
variable {lo hi : ℕ} {rs : List Region} {r : Region}

theorem nil : Tiles lo [] lo := rfl

theorem push (h : Tiles lo rs hi) (n : ℕ) : Tiles lo (⟨hi,n⟩ :: rs) (hi + n) := ⟨rfl,h⟩

theorem le (h : Tiles lo rs hi) : lo ≤ hi := by
  induction rs generalizing hi with
  | nil => exact Nat.le_of_eq h.symm
  | cons r rs ih =>
    obtain ⟨rfl,h⟩ := h
    exact le_trans (ih h) r.addr_le_limit

theorem within (h : Tiles lo rs hi) (hr : r ∈ rs) : r.Within lo hi := by
  induction rs generalizing hi with
  | nil => cases hr
  | cons s rs ih =>
    obtain ⟨rfl,h⟩ := h
    rcases List.mem_cons.mp hr with rfl | hr
    · exact ⟨le h,le_rfl⟩
    · exact (ih h hr).mono le_rfl s.addr_le_limit

theorem apart (h : Tiles lo rs hi) : rs.Pairwise Region.Apart := by
  induction rs generalizing hi with
  | nil => exact .nil
  | cons r rs ih =>
    obtain ⟨rfl,h⟩ := h
    exact .cons (fun s hs => .inr (within h hs).2) (ih h)

/-- Exactly the addresses in between belong to one of the ranges. -/
theorem contains_iff (h : Tiles lo rs hi) {x : ℕ} (hx : lo ≤ x) :
    x < hi ↔ ∃ r ∈ rs, r.Contains x := by
  induction rs generalizing hi with
  | nil =>
    obtain rfl := h
    simp only [List.not_mem_nil, false_and, exists_false, iff_false]
    omega
  | cons r rs ih =>
    obtain ⟨rfl,h⟩ := h
    have hle := r.addr_le_limit
    rw [List.exists_mem_cons_iff, ← ih h, Region.Contains]
    omega

/-- Cuts of whole units keep the next cut at a multiple of the unit. -/
theorem dvd {d : ℕ} (h : Tiles lo rs hi) (hlo : d ∣ lo) (hrs : ∀ r ∈ rs, d ∣ r.size) :
    d ∣ hi ∧ ∀ r ∈ rs, d ∣ r.addr := by
  induction rs generalizing hi with
  | nil =>
    obtain rfl := h
    exact ⟨hlo,by simp⟩
  | cons r rs ih =>
    obtain ⟨rfl,h⟩ := h
    obtain ⟨hr,hall⟩ := ih h (fun s hs => hrs s (List.mem_cons_of_mem _ hs))
    exact ⟨Nat.dvd_add hr (hrs r List.mem_cons_self),List.forall_mem_cons.mpr ⟨hr,hall⟩⟩

end Tiles

end Kaplar
