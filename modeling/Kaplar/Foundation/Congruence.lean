import Mathlib.FieldTheory.Finite.Basic

/-! # Powers and remainders modulo two primes -/
namespace Kaplar.Congruence

/-- Positive exponents count modulo `p - 1`, for multiples of `p` too. -/
theorem pow_modEq_pow {p : ℕ} (hp : p.Prime) {i j : ℕ} (hi : 0 < i) (hj : 0 < j)
    (h : i ≡ j [MOD p - 1]) (a : ℕ) : a ^ i ≡ a ^ j [MOD p] := by
  wlog hij : i ≤ j generalizing i j
  · exact (this hj hi h.symm (Nat.le_of_not_le hij)).symm
  by_cases ha : p ∣ a
  · have hzero {n : ℕ} (hn : 0 < n) : a ^ n ≡ 0 [MOD p] :=
      Nat.modEq_zero_iff_dvd.mpr (dvd_pow ha (Nat.ne_of_gt hn))
    exact (hzero hi).trans (hzero hj).symm
  · obtain ⟨k,hk⟩ := (Nat.modEq_iff_dvd' hij).mp h
    have hj' : j = i + (p - 1) * k := by omega
    have hfermat : a ^ (p - 1) ≡ 1 [MOD p] := by
      rw [← Nat.totient_prime hp]
      exact Nat.ModEq.pow_totient ((hp.coprime_iff_not_dvd.mpr ha).symm)
    calc a ^ i = a ^ i * 1 ^ k := by rw [one_pow, mul_one]
      _ ≡ a ^ i * (a ^ (p - 1)) ^ k [MOD p] := (hfermat.symm.pow k).mul_left _
      _ = a ^ j := by rw [hj', pow_add, pow_mul]

/-- The inverse that the extended Euclidean algorithm finds. -/
theorem mul_gcdA {a m : ℕ} (h : Nat.Coprime a m) (hm : 1 < m) :
    a * (Nat.gcdA a m % m).toNat ≡ 1 [MOD m] := by
  have hpos : (m : ℤ) ≠ 0 := by omega
  have hbezout : (a : ℤ) * Nat.gcdA a m + m * Nat.gcdB a m = 1 := by
    rw [← Nat.gcd_eq_gcd_ab, h]
    rfl
  rw [← Int.natCast_modEq_iff]
  push_cast
  rw [Int.toNat_of_nonneg (Int.emod_nonneg _ hpos)]
  calc (a : ℤ) * (Nat.gcdA a m % m) ≡ a * Nat.gcdA a m [ZMOD m] := (Int.mod_modEq _ _).mul_left _
    _ ≡ a * Nat.gcdA a m + m * Nat.gcdB a m [ZMOD m] := by
      simp
    _ = 1 := hbezout

theorem gcdA_lt {a m : ℕ} (hm : 0 < m) : (Nat.gcdA a m % m).toNat < m := by
  have hlt := Int.emod_lt_of_pos (Nat.gcdA a m) (Int.natCast_pos.mpr hm)
  omega

/-- A number below `p * q` from its remainder modulo `q` and from any number with its
remainder modulo `p`. -/
theorem recombine {p q qi x : ℕ} {x1 : ℤ} (hpq : Nat.Coprime p q) (hx : x < p * q)
    (hqi : q * qi ≡ 1 [MOD p]) (h1 : x1 ≡ x [ZMOD p]) :
    ((x % q : ℕ) : ℤ) + (x1 - (x % q : ℕ)) * qi % p * q = x := by
  have hp : 0 < p := Nat.pos_of_ne_zero (fun h0 => by simp [h0] at hx)
  have hq : 0 < q := Nat.pos_of_ne_zero (fun h0 => by simp [h0] at hx)
  let z := (x1 - (x % q : ℕ)) * qi % p
  have hz0 : 0 ≤ z := Int.emod_nonneg _ (by omega)
  have hz1 : z < p := Int.emod_lt_of_pos _ (by omega)
  have hmodp : ((x % q : ℕ) : ℤ) + z * q ≡ x [ZMOD p] := by
    have hunit : (q : ℤ) * qi ≡ 1 [ZMOD p] := by exact_mod_cast Int.natCast_modEq_iff.mpr hqi
    calc ((x % q : ℕ) : ℤ) + z * q
        ≡ (x % q : ℕ) + (x1 - (x % q : ℕ)) * qi * q [ZMOD p] :=
          ((Int.mod_modEq _ _).mul_right _).add_left _
      _ = (x % q : ℕ) + (x1 - (x % q : ℕ)) * (q * qi) := by ring
      _ ≡ (x % q : ℕ) + (x1 - (x % q : ℕ)) * 1 [ZMOD p] := (hunit.mul_left _).add_left _
      _ = x1 := by ring
      _ ≡ x [ZMOD p] := h1
  have hmodq : ((x % q : ℕ) : ℤ) + z * q ≡ x [ZMOD q] := by
    calc ((x % q : ℕ) : ℤ) + z * q ≡ (x % q : ℕ) + 0 [ZMOD q] :=
          (Int.modEq_zero_iff_dvd.mpr (dvd_mul_left _ _)).add_left _
      _ = (x : ℤ) % q := by push_cast; ring
      _ ≡ x [ZMOD q] := Int.mod_modEq _ _
  have hboth : ((x % q : ℕ) : ℤ) + z * q ≡ x [ZMOD p * q] :=
    (Int.modEq_and_modEq_iff_modEq_mul (by simpa using hpq)).mp ⟨hmodp,hmodq⟩
  have hlow : 0 ≤ ((x % q : ℕ) : ℤ) + z * q := by positivity
  have hhigh : ((x % q : ℕ) : ℤ) + z * q < p * q := by
    have hr : ((x % q : ℕ) : ℤ) < q := by exact_mod_cast Nat.mod_lt x hq
    nlinarith
  have hx' : (x : ℤ) < p * q := by exact_mod_cast hx
  rw [Int.ModEq, Int.emod_eq_of_lt hlow hhigh, Int.emod_eq_of_lt (by omega) hx'] at hboth
  exact hboth

end Kaplar.Congruence
