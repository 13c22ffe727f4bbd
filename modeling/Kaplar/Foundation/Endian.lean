import Mathlib.Algebra.Group.Nat.Defs
import Mathlib.Data.List.Basic
import Mathlib.Tactic.Common

/-! # Little-endian machine words -/
namespace Kaplar

def u16le (b0 b1 : UInt8) : UInt16 := b0.toUInt16 ||| b1.toUInt16 <<< 8

def u32le (b0 b1 b2 b3 : UInt8) : UInt32 :=
  b0.toUInt32 ||| b1.toUInt32 <<< 8 ||| b2.toUInt32 <<< 16 ||| b3.toUInt32 <<< 24

/-- The words of a byte string at an offset. -/
def wordAt (l : List UInt8) (i : ℕ) : UInt16 := u16le (l.getD i 0) (l.getD (i + 1) 0)

def dwordAt (l : List UInt8) (i : ℕ) : UInt32 :=
  u32le (l.getD i 0) (l.getD (i + 1) 0) (l.getD (i + 2) 0) (l.getD (i + 3) 0)

def bytes16 (v : UInt16) : List UInt8 := [v.toUInt8,(v >>> 8).toUInt8]

def bytes32 (v : UInt32) : List UInt8 :=
  [v.toUInt8,(v >>> 8).toUInt8,(v >>> 16).toUInt8,(v >>> 24).toUInt8]

@[simp] theorem length_bytes16 (v : UInt16) : (bytes16 v).length = 2 := rfl
@[simp] theorem length_bytes32 (v : UInt32) : (bytes32 v).length = 4 := rfl

theorem or_shift {a b n : ℕ} (h : a < 2 ^ n) : a ||| b <<< n = a + b * 2 ^ n := by
  rw [Nat.or_comm, ← Nat.shiftLeft_add_eq_or_of_lt h, Nat.shiftLeft_eq, Nat.add_comm]

theorem shift_mod {b n w : ℕ} (h : b * 2 ^ n < 2 ^ w) : (b <<< n) % 2 ^ w = b <<< n := by
  rw [Nat.shiftLeft_eq]
  exact Nat.mod_eq_of_lt h

theorem toNat_u16le (b0 b1 : UInt8) : (u16le b0 b1).toNat = b0.toNat + b1.toNat * 2 ^ 8 := by
  have h0 := b0.toNat_lt
  have h1 := b1.toNat_lt
  have hshift : (u16le b0 b1).toNat = b0.toNat ||| (b1.toNat <<< 8) % 2 ^ 16 := by
    simp only [u16le, UInt16.toNat_or, UInt16.toNat_shiftLeft, UInt8.toNat_toUInt16]
    rfl
  rw [hshift, shift_mod (by omega), or_shift h0]

theorem toNat_u32le (b0 b1 b2 b3 : UInt8) : (u32le b0 b1 b2 b3).toNat =
    b0.toNat + b1.toNat * 2 ^ 8 + b2.toNat * 2 ^ 16 + b3.toNat * 2 ^ 24 := by
  have h0 := b0.toNat_lt
  have h1 := b1.toNat_lt
  have h2 := b2.toNat_lt
  have h3 := b3.toNat_lt
  have hshift : (u32le b0 b1 b2 b3).toNat = b0.toNat ||| (b1.toNat <<< 8) % 2 ^ 32 |||
      (b2.toNat <<< 16) % 2 ^ 32 ||| (b3.toNat <<< 24) % 2 ^ 32 := by
    simp only [u32le, UInt32.toNat_or, UInt32.toNat_shiftLeft, UInt8.toNat_toUInt32]
    rfl
  have e1 := or_shift (b := b1.toNat) h0
  have e2 := or_shift (a := b0.toNat + b1.toNat * 2 ^ 8) (b := b2.toNat) (n := 16) (by omega)
  have e3 := or_shift (a := b0.toNat + b1.toNat * 2 ^ 8 + b2.toNat * 2 ^ 16) (b := b3.toNat)
    (n := 24) (by omega)
  rw [hshift, shift_mod (by omega), shift_mod (by omega), shift_mod (by omega), e1, e2, e3]

theorem u16le_bytes16 (v : UInt16) : u16le v.toUInt8 (v >>> 8).toUInt8 = v := by
  have h := v.toNat_lt
  have hshift : (v >>> 8).toUInt8.toNat = v.toNat / 2 ^ 8 % 2 ^ 8 := by
    rw [UInt16.toNat_toUInt8, UInt16.toNat_shiftRight, ← Nat.shiftRight_eq_div_pow]
    rfl
  apply UInt16.toNat_inj.mp
  rw [toNat_u16le, hshift, UInt16.toNat_toUInt8]
  omega

theorem toNat_byte32 (v : UInt32) {n : UInt32} (h : n.toNat < 32) :
    (v >>> n).toUInt8.toNat = v.toNat / 2 ^ n.toNat % 2 ^ 8 := by
  rw [UInt32.toNat_toUInt8, UInt32.toNat_shiftRight, Nat.mod_eq_of_lt h,
    Nat.shiftRight_eq_div_pow]

theorem u32le_bytes32 (v : UInt32) :
    u32le v.toUInt8 (v >>> 8).toUInt8 (v >>> 16).toUInt8 (v >>> 24).toUInt8 = v := by
  have h := v.toNat_lt
  apply UInt32.toNat_inj.mp
  rw [toNat_u32le, toNat_byte32 v (by decide), toNat_byte32 v (by decide),
    toNat_byte32 v (by decide), UInt32.toNat_toUInt8]
  change v.toNat % 2 ^ 8 + v.toNat / 2 ^ 8 % 2 ^ 8 * 2 ^ 8 + v.toNat / 2 ^ 16 % 2 ^ 8 * 2 ^ 16 +
    v.toNat / 2 ^ 24 % 2 ^ 8 * 2 ^ 24 = _
  omega

theorem bytes32_u32le (b0 b1 b2 b3 : UInt8) : bytes32 (u32le b0 b1 b2 b3) = [b0,b1,b2,b3] := by
  have h0 := b0.toNat_lt
  have h1 := b1.toNat_lt
  have h2 := b2.toNat_lt
  have h3 := b3.toNat_lt
  have e0 : (u32le b0 b1 b2 b3).toUInt8 = b0 := by
    apply UInt8.toNat_inj.mp
    rw [UInt32.toNat_toUInt8, toNat_u32le]
    omega
  have e1 : (u32le b0 b1 b2 b3 >>> 8).toUInt8 = b1 := by
    apply UInt8.toNat_inj.mp
    rw [toNat_byte32 _ (by decide), toNat_u32le]
    change (_ / 2 ^ 8) % _ = _
    omega
  have e2 : (u32le b0 b1 b2 b3 >>> 16).toUInt8 = b2 := by
    apply UInt8.toNat_inj.mp
    rw [toNat_byte32 _ (by decide), toNat_u32le]
    change (_ / 2 ^ 16) % _ = _
    omega
  have e3 : (u32le b0 b1 b2 b3 >>> 24).toUInt8 = b3 := by
    apply UInt8.toNat_inj.mp
    rw [toNat_byte32 _ (by decide), toNat_u32le]
    change (_ / 2 ^ 24) % _ = _
    omega
  rw [bytes32, e0, e1, e2, e3]

/-! ## Big-endian words -/

def u32be (b0 b1 b2 b3 : UInt8) : UInt32 := u32le b3 b2 b1 b0

def bytes32be (v : UInt32) : List UInt8 :=
  [(v >>> 24).toUInt8,(v >>> 16).toUInt8,(v >>> 8).toUInt8,v.toUInt8]

@[simp] theorem length_bytes32be (v : UInt32) : (bytes32be v).length = 4 := rfl

theorem u32be_bytes32be (v : UInt32) :
    u32be (v >>> 24).toUInt8 (v >>> 16).toUInt8 (v >>> 8).toUInt8 v.toUInt8 = v := u32le_bytes32 v

theorem bytes32be_u32be (b0 b1 b2 b3 : UInt8) : bytes32be (u32be b0 b1 b2 b3) = [b0,b1,b2,b3] := by
  have h := bytes32_u32le b3 b2 b1 b0
  simp only [bytes32, List.cons.injEq, and_true] at h
  obtain ⟨h3,h2,h1,h0⟩ := h
  rw [bytes32be, u32be, h0, h1, h2, h3]

theorem xor_shiftRight (v w : UInt32) {n : UInt32} : (v ^^^ w) >>> n = v >>> n ^^^ w >>> n := by
  apply UInt32.toNat_inj.mp
  simp only [UInt32.toNat_shiftRight, UInt32.toNat_xor, Nat.shiftRight_xor_distrib]

theorem bytes32be_xor (v w : UInt32) :
    bytes32be (v ^^^ w) = List.zipWith (· ^^^ ·) (bytes32be v) (bytes32be w) := by
  simp [bytes32be,xor_shiftRight]

end Kaplar
