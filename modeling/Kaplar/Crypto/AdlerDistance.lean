import Kaplar.Crypto.AdlerExact
import Kaplar.Foundation.WeightedSum
import Mathlib.Tactic.NormNum.Prime

/-! # What Adler-32 notices

Both halves of the checksum move when one byte of a buffer changes, and at least one of them
when two bytes do, as long as the buffer is shorter than the modulus.
-/
namespace Kaplar.Crypto
open Weighted
variable {l l' : List UInt8}

/-- The number of places in which two buffers of one length differ. -/
def apart (l l' : List UInt8) : ℕ := (l.zip l').countP (fun x => x.1 ≠ x.2)

theorem apart_cons (c c' : UInt8) (l l' : List UInt8) :
    apart (c :: l) (c' :: l') = apart l l' + if c ≠ c' then 1 else 0 := by
  rw [apart, apart, List.zip_cons_cons, List.countP_cons]
  simp only [decide_eq_true_iff]

theorem apart_self (l : List UInt8) : apart l l = 0 := by
  induction l with
  | nil => rfl
  | cons c l ih => rw [apart_cons, ih, if_neg (not_not.mpr rfl)]

theorem eq_of_apart (hl : l.length = l'.length) (h : apart l l' = 0) : l = l' := by
  induction l generalizing l' with
  | nil => exact (List.length_eq_zero_iff.mp hl.symm).symm
  | cons c l ih =>
    cases l' with
    | nil => cases hl
    | cons c' l' =>
      rw [apart_cons] at h
      split at h
      case isTrue => omega
      case isFalse hc =>
        rw [not_not.mp hc, ih (Nat.succ.inj hl) h]

/-! ## The changes behind the sums -/

def change (c c' : UInt8) : ℤ := c'.toNat - c.toNat

def changes (l l' : List UInt8) : List ℤ := List.zipWith change l l'

theorem change_eq_zero {c c' : UInt8} : change c c' = 0 ↔ c = c' := by
  rw [change, sub_eq_zero, Int.natCast_inj, UInt8.toNat_inj]
  exact eq_comm

theorem change_small (c c' : UInt8) : 2 * |change c c'| < (65521 : ℕ) := by
  have hc := c.toNat_lt
  have hc' := c'.toNat_lt
  have habs : |change c c'| ≤ 255 := by
    rw [change, abs_le]
    omega
  have hlt : 2 * |change c c'| ≤ 2 * 255 := by linarith
  omega

theorem changes_small : ∀ d ∈ changes l l', 2 * |d| < (65521 : ℕ) := by
  induction l generalizing l' with
  | nil =>
    intro d hd
    cases hd
  | cons c l ih =>
    cases l' with
    | nil =>
      intro d hd
      cases hd
    | cons c' l' =>
      intro d hd
      rcases List.mem_cons.mp hd with rfl | hd
      · exact change_small c c'
      · exact ih d hd

theorem changed_changes : changed (changes l l') = apart l l' := by
  induction l generalizing l' with
  | nil => rfl
  | cons c l ih =>
    cases l' with
    | nil => rfl
    | cons c' l' =>
      rw [changes, List.zipWith_cons_cons, changed_cons, apart_cons, ← ih, changes]
      simp only [ne_eq, change_eq_zero]

theorem length_changes (hl : l.length = l'.length) : (changes l l').length = l.length := by
  rw [changes, List.length_zipWith, ← hl, Nat.min_self]

/-- The sums move by the sum of the changes and by their weighted sum. -/
theorem foldl_adlerByte_sub (hl : l.length = l'.length) {x x' : ℕ × ℕ} {a b : ℤ}
    (ha : (65521 : ℤ) ∣ x'.1 - x.1 - a) (hb : (65521 : ℤ) ∣ x'.2 - x.2 - b) :
    (65521 : ℤ) ∣ (l'.foldl adlerByte x').1 - (l.foldl adlerByte x).1 -
        (a + (changes l l').sum) ∧
      (65521 : ℤ) ∣ (l'.foldl adlerByte x').2 - (l.foldl adlerByte x).2 -
        (b + l.length * a + weighted (changes l l')) := by
  induction l generalizing l' x x' a b with
  | nil =>
    obtain rfl := List.length_eq_zero_iff.mp hl.symm
    simpa [changes,weighted] using And.intro ha hb
  | cons c l ih =>
    cases l' with
    | nil => cases hl
    | cons c' l' =>
      have hfirst : (65521 : ℤ) ∣ ((adlerByte x' c').1 : ℤ) - (adlerByte x c).1 -
          (a + change c c') := by
        rw [adlerByte, adlerByte, change]
        push_cast
        omega
      have hsecond : (65521 : ℤ) ∣ ((adlerByte x' c').2 : ℤ) - (adlerByte x c).2 -
          (b + (a + change c c')) := by
        rw [adlerByte, adlerByte, change]
        push_cast
        omega
      obtain ⟨h₁,h₂⟩ := ih (Nat.succ.inj hl) hfirst hsecond
      have hlen := length_changes (Nat.succ.inj hl)
      rw [changes] at h₁ h₂ hlen
      rw [changes, List.zipWith_cons_cons, List.sum_cons, weighted, hlen, List.length_cons,
        List.foldl_cons, List.foldl_cons, ← add_assoc]
      refine ⟨h₁,?_⟩
      convert h₂ using 2
      push_cast
      ring

theorem adlerSums_sub (hl : l.length = l'.length) :
    (65521 : ℤ) ∣ (adlerSums l').1 - (adlerSums l).1 - (changes l l').sum ∧
      (65521 : ℤ) ∣ (adlerSums l').2 - (adlerSums l).2 - weighted (changes l l') := by
  let x : ℕ × ℕ := (1,0)
  have hone : (65521 : ℤ) ∣ x.1 - x.1 - 0 := by norm_num
  have hzero : (65521 : ℤ) ∣ x.2 - x.2 - 0 := by norm_num
  have h := foldl_adlerByte_sub hl hone hzero
  simpa [adlerSums,x] using h

theorem prime_adlerBase : Nat.Prime 65521 := by norm_num

theorem adlerSums_of_one (hl : l.length = l'.length) (hlen : l.length < 65521)
    (h : apart l l' = 1) :
    (adlerSums l).1 ≠ (adlerSums l').1 ∧ (adlerSums l).2 ≠ (adlerSums l').2 := by
  obtain ⟨h₁,h₂⟩ := adlerSums_sub hl
  obtain ⟨hn₁,hn₂⟩ := one_noticed prime_adlerBase (by rwa [length_changes hl]) changes_small
    (changed_changes.trans h)
  constructor
  · intro he
    rw [he, sub_self, zero_sub, dvd_neg] at h₁
    exact hn₁ h₁
  · intro he
    rw [he, sub_self, zero_sub, dvd_neg] at h₂
    exact hn₂ h₂

theorem adlerSums_of_two (hl : l.length = l'.length) (hlen : l.length < 65521)
    (h : apart l l' = 2) : adlerSums l ≠ adlerSums l' := by
  intro he
  obtain ⟨h₁,h₂⟩ := adlerSums_sub hl
  rw [he, sub_self, zero_sub, dvd_neg] at h₁ h₂
  exact two_noticed prime_adlerBase (by rwa [length_changes hl]) changes_small
    (changed_changes.trans h) ⟨h₁,h₂⟩

/-! ## The checksum -/

theorem adlerSums_reduced (buf : List UInt8) :
    (adlerSums buf).1 < 65521 ∧ (adlerSums buf).2 < 65521 := by
  have hstart : Reduced (1,0) := ⟨by decide,by decide⟩
  obtain ⟨-,hred,hsums⟩ := adlerChunks_run hstart (Nat.le_refl buf.length)
  have hsums' : remainders (adlerChunks buf.length buf (1,0)) = adlerSums buf := hsums
  rw [hred.remainders_eq] at hsums'
  rw [← hsums']
  exact hred

/-- The two sums are the halves of the checksum. -/
theorem toNat_adler32 (buf : List UInt8) :
    (adler32 buf).toNat = (adlerSums buf).2 * 65536 + (adlerSums buf).1 := by
  have hstart : Reduced (1,0) := ⟨by decide,by decide⟩
  obtain ⟨-,hred,hsums⟩ := adlerChunks_run hstart (Nat.le_refl buf.length)
  have hsums' : remainders (adlerChunks buf.length buf (1,0)) = adlerSums buf := hsums
  rw [hred.remainders_eq] at hsums'
  have hfits : (adlerChunks buf.length buf (1,0)).1.toNat < 2 ^ 16 :=
    Nat.lt_trans hred.1 (by decide)
  rw [adler32, join_halves hred, ← hsums', Nat.shiftLeft_eq, Nat.mul_comm _ (2 ^ 16),
    ← Nat.two_pow_add_eq_or_of_lt hfits, Nat.mul_comm (2 ^ 16)]

end Kaplar.Crypto
