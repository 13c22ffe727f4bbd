import Mathlib.Algebra.Order.Ring.Nat
import Mathlib.Data.Nat.Digits.Defs
import Mathlib.Tactic.Common

/-! # Numbers as byte strings

The bytes of a number are its digits, the least one first. A format for words of a fixed size is
portable if it means the same to all machines and loses nothing.
-/
namespace Kaplar.Radix

def value (l : List UInt8) : ℕ := Nat.ofDigits 256 (l.map UInt8.toNat)

def bytesOf : ℕ → ℕ → List UInt8
  | 0, _ => []
  | n + 1, v => UInt8.ofNat v :: bytesOf n (v / 256)

/-- Bytes with the greatest digit first, or the least. -/
def arrange (big : Bool) (l : List UInt8) : List UInt8 := if big then l.reverse else l

variable {big : Bool} {b : UInt8} {l : List UInt8} {n v : ℕ}

@[simp] theorem value_nil : value [] = 0 := rfl

@[simp] theorem value_cons : value (b :: l) = b.toNat + 256 * value l := Nat.ofDigits_cons ..

theorem value_lt : value l < 256 ^ l.length := by
  have hdigits : ∀ d ∈ l.map UInt8.toNat, d < 256 := by
    simp only [List.mem_map, forall_exists_index, and_imp, forall_apply_eq_imp_iff₂]
    exact fun b _ => b.toNat_lt
  have h := Nat.ofDigits_lt_base_pow_length (by decide) hdigits
  rwa [List.length_map] at h

@[simp] theorem length_bytesOf : (bytesOf n v).length = n := by
  induction n generalizing v with
  | zero => rfl
  | succ n ih => rw [bytesOf, List.length_cons, ih]

theorem value_bytesOf (h : v < 256 ^ n) : value (bytesOf n v) = v := by
  induction n generalizing v with
  | zero =>
    have hzero : v = 0 := Nat.lt_one_iff.mp h
    rw [hzero]
    rfl
  | succ n ih =>
    have hrest : v / 256 < 256 ^ n := by
      rw [Nat.div_lt_iff_lt_mul (by decide), ← Nat.pow_succ]
      exact h
    rw [bytesOf, value_cons, ih hrest, UInt8.toNat_ofNat']
    omega

theorem bytesOf_value : bytesOf l.length (value l) = l := by
  induction l with
  | nil => rfl
  | cons b l ih =>
    have hb := b.toNat_lt
    have hfirst : UInt8.ofNat (b.toNat + 256 * value l) = b := by
      apply UInt8.toNat_inj.mp
      rw [UInt8.toNat_ofNat']
      omega
    have hrest : (b.toNat + 256 * value l) / 256 = value l := by omega
    rw [List.length_cons, bytesOf, value_cons, hfirst, hrest, ih]

theorem bytesOf_value_of (h : l.length = n) : bytesOf n (value l) = l := by
  rw [← h, bytesOf_value]

@[simp] theorem length_arrange : (arrange big l).length = l.length := by
  cases big <;> simp [arrange]

@[simp] theorem arrange_arrange : arrange big (arrange big l) = l := by
  cases big <;> simp [arrange]

/-! ## Formats -/

/-- All machines write a word as the same bytes and read back what any of them has written. -/
structure Portable {α ω : Type} (size : ℕ) (big : Bool) (num : ω → ℕ)
    (enc : α → ω → List UInt8) (dec : α → List UInt8 → ω) : Prop where
  bytes : ∀ arch v, enc arch v = arrange big (bytesOf size (num v))
  read : ∀ arch arch' v, dec arch' (enc arch v) = v
  written : ∀ arch arch' l, l.length = size → enc arch (dec arch' l) = l

section Portable
variable {α ω : Type} {size : ℕ} {num : ω → ℕ} {enc : α → ω → List UInt8}
  {dec : α → List UInt8 → ω}

theorem Portable.enc_eq (h : Portable size big num enc dec) (arch arch' : α) (v : ω) :
    enc arch v = enc arch' v := by
  rw [h.bytes, h.bytes]

theorem Portable.dec_eq (h : Portable size big num enc dec) (arch arch' : α)
    (hl : l.length = size) : dec arch l = dec arch' l := by
  conv_lhs => rw [← h.written arch arch' l hl]
  exact h.read ..

/-- It is enough that what is written and what is read have the right values. -/
theorem portable (hinj : Function.Injective num) (hnum : ∀ v, num v < 256 ^ size)
    (henc : ∀ arch v, enc arch v = arrange big (bytesOf size (num v)))
    (hdec : ∀ arch l, l.length = size → num (dec arch l) = value (arrange big l)) :
    Portable size big num enc dec where
  bytes := henc
  read arch arch' v := by
    apply hinj
    rw [henc, hdec _ _ (by simp), arrange_arrange, value_bytesOf (hnum v)]
  written arch arch' l hl := by
    rw [henc, hdec _ _ hl, bytesOf_value_of (by rw [length_arrange, hl]), arrange_arrange]

end Portable

end Kaplar.Radix
