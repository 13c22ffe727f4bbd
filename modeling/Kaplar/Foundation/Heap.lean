import Mathlib.Logic.Function.Basic
import Mathlib.Order.Basic

/-! # Blocks of memory and who holds them

A pointer is the name of a block. New blocks get names that have never been used, so
that a pointer to a freed block finds nothing. Whoever keeps a pointer to a block and has
to free it holds the block; what is held by exactly one holder is neither lost nor freed
twice.
-/
namespace Kaplar
variable {β : Type}

structure Heap (β : Type) where
  block : ℕ → Option β
  next : ℕ
  unused : ∀ a, next ≤ a → block a = none

namespace Heap

def empty : Heap β := ⟨fun _ => none,0,fun _ _ => rfl⟩

def alloc (h : Heap β) (b : β) : Heap β where
  block := Function.update h.block h.next (some b)
  next := h.next + 1
  unused a ha := by
    rw [Function.update_of_ne (by omega)]
    exact h.unused a (by omega)

/-- The block at `a`, if there is one, is changed in place. -/
def modify (h : Heap β) (a : ℕ) (f : β → β) : Heap β where
  block := Function.update h.block a ((h.block a).map f)
  next := h.next
  unused x hx := by
    by_cases hxa : x = a
    · subst hxa
      rw [Function.update_self, h.unused x hx]
      rfl
    · rw [Function.update_of_ne hxa, h.unused x hx]

def free (h : Heap β) (a : ℕ) : Heap β where
  block := Function.update h.block a none
  next := h.next
  unused x hx := by
    by_cases hxa : x = a
    · subst hxa
      exact Function.update_self ..
    · rw [Function.update_of_ne hxa, h.unused x hx]

section Lemmas
variable {h : Heap β} {a x : ℕ} {b : β} {f : β → β}

theorem lt_next (hb : h.block a = some b) : a < h.next := by
  by_contra hle
  rw [h.unused a (Nat.le_of_not_lt hle)] at hb
  cases hb

@[simp] theorem block_next : h.block h.next = none := h.unused _ (Nat.le_refl _)

theorem ne_next (hb : h.block a = some b) : a ≠ h.next := Nat.ne_of_lt (lt_next hb)

@[simp] theorem next_alloc : (h.alloc b).next = h.next + 1 := rfl
@[simp] theorem next_modify : (h.modify a f).next = h.next := rfl
@[simp] theorem next_free : (h.free a).next = h.next := rfl

theorem block_alloc_self : (h.alloc b).block h.next = some b := Function.update_self ..

theorem block_alloc_of_ne (hx : x ≠ h.next) : (h.alloc b).block x = h.block x :=
  Function.update_of_ne hx ..

theorem block_alloc : (h.alloc b).block x = if x = h.next then some b else h.block x := by
  by_cases hx : x = h.next
  · rw [if_pos hx, hx, block_alloc_self]
  · rw [if_neg hx, block_alloc_of_ne hx]

theorem block_modify_self (hb : h.block a = some b) : (h.modify a f).block a = some (f b) := by
  simp [modify,hb]

theorem block_modify_of_ne (hx : x ≠ a) : (h.modify a f).block x = h.block x :=
  Function.update_of_ne hx ..

theorem block_free_self : (h.free a).block a = none := Function.update_self ..

theorem block_free_of_ne (hx : x ≠ a) : (h.free a).block x = h.block x :=
  Function.update_of_ne hx ..

theorem block_free : (h.free a).block x = if x = a then none else h.block x := by
  by_cases hx : x = a
  · rw [if_pos hx, hx, block_free_self]
  · rw [if_neg hx, block_free_of_ne hx]

end Lemmas

end Heap

/-! ## Holders -/

variable {ι α : Type*}

/-- What is live is held by exactly one holder, and nothing else is held. -/
structure Exclusive (Live : α → Prop) (Holds : ι → α → Prop) : Prop where
  live : ∀ {k : ι} {a : α}, Holds k a → Live a
  unique : ∀ {k k' : ι} {a : α}, Holds k a → Holds k' a → k = k'
  held : ∀ {a : α}, Live a → ∃ k, Holds k a

namespace Exclusive
variable {Live Live' : α → Prop} {Holds Holds' : ι → α → Prop} {a b : α} {k k' : ι}

theorem existsUnique (he : Exclusive Live Holds) (ha : Live a) : ∃! k, Holds k a := by
  obtain ⟨k,hk⟩ := he.held ha
  exact ⟨k,hk,fun _ hk' => he.unique hk' hk⟩

theorem ne (he : Exclusive Live Holds) (hk : Holds k a) (hk' : Holds k' b) (hne : k ≠ k') :
    a ≠ b := by
  rintro rfl
  exact hne (he.unique hk hk')

theorem congr (he : Exclusive Live Holds) (hl : ∀ b, Live' b ↔ Live b)
    (hh : ∀ k b, Holds' k b ↔ Holds k b) : Exclusive Live' Holds' where
  live hk := (hl _).mpr (he.live ((hh _ _).mp hk))
  unique hk hk' := he.unique ((hh _ _).mp hk) ((hh _ _).mp hk')
  held ha := by
    obtain ⟨k,hk⟩ := he.held ((hl _).mp ha)
    exact ⟨k,(hh _ _).mpr hk⟩

/-- One block gets another holder, or its first one. -/
theorem give {m : ι} (he : Exclusive Live Holds) (hl : ∀ b, Live' b ↔ b = a ∨ Live b)
    (hh : ∀ k b, Holds' k b ↔ b = a ∧ k = m ∨ b ≠ a ∧ Holds k b) : Exclusive Live' Holds' where
  live hk := by
    rcases (hh _ _).mp hk with ⟨rfl,_⟩ | ⟨_,hk⟩
    · exact (hl _).mpr (.inl rfl)
    · exact (hl _).mpr (.inr (he.live hk))
  unique {k₁ k₂ b} h₁ h₂ := by
    rcases (hh _ _).mp h₁ with ⟨rfl,rfl⟩ | ⟨hne,h₁⟩
    · rcases (hh _ _).mp h₂ with ⟨_,rfl⟩ | ⟨hne,_⟩
      · rfl
      · exact absurd rfl hne
    · rcases (hh _ _).mp h₂ with ⟨rfl,_⟩ | ⟨_,h₂⟩
      · exact absurd rfl hne
      · exact he.unique h₁ h₂
  held {b} hb := by
    by_cases hba : b = a
    · exact ⟨m,(hh _ _).mpr (.inl ⟨hba,rfl⟩)⟩
    · obtain ⟨k,hk⟩ := he.held (((hl _).mp hb).resolve_left hba)
      exact ⟨k,(hh _ _).mpr (.inr ⟨hba,hk⟩)⟩

/-- One block is freed by its holder. -/
theorem drop (he : Exclusive Live Holds) (hl : ∀ b, Live' b ↔ b ≠ a ∧ Live b)
    (hh : ∀ k b, Holds' k b ↔ b ≠ a ∧ Holds k b) : Exclusive Live' Holds' where
  live hk := by
    obtain ⟨hne,hk⟩ := (hh _ _).mp hk
    exact (hl _).mpr ⟨hne,he.live hk⟩
  unique h₁ h₂ := he.unique ((hh _ _).mp h₁).2 ((hh _ _).mp h₂).2
  held hb := by
    obtain ⟨hne,hb⟩ := (hl _).mp hb
    obtain ⟨k,hk⟩ := he.held hb
    exact ⟨k,(hh _ _).mpr ⟨hne,hk⟩⟩

end Exclusive

end Kaplar
