import Kaplar.Foundation.Memory

/-! # Pairs of big-endian words in memory

Eight bytes at a time, as block ciphers read and write them.
-/
namespace Kaplar
variable {ρ : Type}

def pairBytes (d : UInt32 × UInt32) : List UInt8 := bytes32be d.1 ++ bytes32be d.2

def pairsBytes (l : List (UInt32 × UInt32)) : List UInt8 := l.flatMap pairBytes

@[simp] theorem length_pairBytes (d : UInt32 × UInt32) : (pairBytes d).length = 8 := rfl

@[simp] theorem length_pairsBytes (l : List (UInt32 × UInt32)) :
    (pairsBytes l).length = 8 * l.length := by
  induction l with
  | nil => rfl
  | cons d l ih =>
    simp only [pairsBytes, List.flatMap_cons, List.length_append, length_pairBytes,
      List.length_cons] at ih ⊢
    omega

@[simp] theorem pairsBytes_nil : pairsBytes [] = [] := rfl

theorem pairsBytes_cons (d : UInt32 × UInt32) (l : List (UInt32 × UInt32)) :
    pairsBytes (d :: l) = pairBytes d ++ pairsBytes l := rfl

theorem pairsBytes_append (l l' : List (UInt32 × UInt32)) :
    pairsBytes (l ++ l') = pairsBytes l ++ pairsBytes l' := List.flatMap_append

theorem bytes32be_injective : Function.Injective bytes32be := by
  intro v w h
  simp only [bytes32be, List.cons.injEq, and_true] at h
  obtain ⟨h3,h2,h1,h0⟩ := h
  rw [← u32be_bytes32be v, h3, h2, h1, h0, u32be_bytes32be]

theorem pairBytes_injective : Function.Injective pairBytes := by
  rintro ⟨v,w⟩ ⟨v',w'⟩ h
  obtain ⟨hv,hw⟩ := List.append_inj h rfl
  exact Prod.ext (bytes32be_injective hv) (bytes32be_injective hw)

theorem pairsBytes_injective : Function.Injective pairsBytes := by
  intro l
  induction l with
  | nil =>
    intro l' h
    have hlen := congrArg List.length h
    simp only [length_pairsBytes, List.length_nil] at hlen
    exact (List.length_eq_zero_iff.mp (by omega)).symm
  | cons d l ih =>
    intro l' h
    cases l' with
    | nil =>
      have hlen := congrArg List.length h
      simp at hlen
    | cons d' l' =>
      obtain ⟨hd,hl⟩ := List.append_inj h rfl
      rw [pairBytes_injective hd, ih hl]

/-- Byte by byte or word by word makes no difference to an exclusive or. -/
theorem pairBytes_xor (d e : UInt32 × UInt32) :
    pairBytes (d.1 ^^^ e.1,d.2 ^^^ e.2) =
      List.zipWith (· ^^^ ·) (pairBytes d) (pairBytes e) := by
  rw [pairBytes, bytes32be_xor, bytes32be_xor]
  rfl

namespace Memory

def pair (m : Memory ρ) (r : ρ) (o : ℕ) : UInt32 × UInt32 := (m.u32be r o,m.u32be r (o + 4))

def pairs (m : Memory ρ) (r : ρ) : ℕ → ℕ → List (UInt32 × UInt32)
  | _, 0 => []
  | o, n + 1 => m.pair r o :: m.pairs r (o + 8) n

section Lemmas
variable {m m' : Memory ρ} {r r' : ρ} {o o' n : ℕ}

@[simp] theorem length_pairs : (m.pairs r o n).length = n := by
  induction n generalizing o with
  | zero => rfl
  | succ n ih => rw [pairs, List.length_cons, ih]

theorem slice_four : m.slice r o 4 = bytes32be (m.u32be r o) := by
  rw [u32be, bytes32be_u32be]
  rfl

theorem slice_eight : m.slice r o 8 = pairBytes (m.pair r o) := by
  rw [pairBytes, pair, ← slice_four, ← slice_four, ← slice_add]

theorem slice_pairs : m.slice r o (8 * n) = pairsBytes (m.pairs r o n) := by
  induction n generalizing o with
  | zero => rfl
  | succ n ih =>
    rw [pairs, pairsBytes_cons, ← ih, ← slice_eight, ← slice_add]
    exact congrArg _ (by omega)

theorem pairs_concat : m.pairs r o (n + 1) = m.pairs r o n ++ [m.pair r (o + 8 * n)] := by
  induction n generalizing o with
  | zero => rfl
  | succ n ih =>
    have hoff : o + 8 + 8 * n = o + 8 * (n + 1) := by omega
    rw [pairs, ih, pairs, List.cons_append, hoff]

variable [DecidableEq ρ] {l : List (UInt32 × UInt32)} {d : UInt32 × UInt32} {k : List UInt8}

theorem pair_write_self : (m.write r o (pairBytes d)).pair r o = d := by
  apply pairBytes_injective
  rw [← slice_eight]
  exact slice_write_self

theorem pair_write_of_disjoint (h : o' + 8 ≤ o ∨ o + k.length ≤ o') :
    (m.write r o k).pair r o' = m.pair r o' := by
  apply pairBytes_injective
  rw [← slice_eight, ← slice_eight, slice_write_of_disjoint h]

theorem pair_write_of_ne (h : r' ≠ r) : (m.write r o k).pair r' o' = m.pair r' o' := by
  apply pairBytes_injective
  rw [← slice_eight, ← slice_eight, slice_write_of_ne h]

theorem pairs_write_self : (m.write r o (pairsBytes l)).pairs r o l.length = l := by
  apply pairsBytes_injective
  rw [← slice_pairs, ← length_pairsBytes]
  exact slice_write_self

theorem pairs_write_of_disjoint (h : o' + 8 * n ≤ o ∨ o + k.length ≤ o') :
    (m.write r o k).pairs r o' n = m.pairs r o' n := by
  apply pairsBytes_injective
  rw [← slice_pairs, ← slice_pairs, slice_write_of_disjoint h]

/-- A write of as many words as are there changes nothing exactly if they are the same. -/
theorem write_pairs_eq_iff : m.write r o (pairsBytes l) = m ↔ l = m.pairs r o l.length := by
  constructor
  · intro h
    rw [← pairs_write_self (m := m) (r := r) (o := o) (l := l), h, length_pairs]
  · intro h
    rw [h, ← slice_pairs]
    exact write_slice

end Lemmas

end Memory

end Kaplar
