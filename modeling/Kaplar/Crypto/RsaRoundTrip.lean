import Kaplar.Crypto.Rsa
import Kaplar.Foundation.Congruence

/-! # RSA decoding by the Chinese remainder theorem

The secret exponent is used modulo `p - 1` and `q - 1`, which is enough modulo each of
the primes, also for multiples of one of them.
-/
namespace Kaplar.Crypto
open Congruence

theorem mpzImport_mpzExport (x : ℕ) : mpzImport (mpzExport x) = x := by
  have hbytes : ((Nat.digits 256 x).map UInt8.ofNat).map UInt8.toNat = Nat.digits 256 x := by
    rw [List.map_map]
    refine (List.map_congr_left ?_).trans (List.map_id _)
    intro d hd
    exact UInt8.toNat_ofNat_of_lt' (Nat.digits_lt_base (by decide) hd)
  rw [mpzImport, mpzExport, List.reverse_reverse, hbytes, Nat.ofDigits_digits]

/-- A key `rsa_setkey` accepts, with the secret exponent it was made from. -/
theorem rsaSetkey_some {p q e : ℕ} {r : RsaCtx} (hp : 2 < p) (hpq : Nat.Coprime p q)
    (he : 0 < e) (h : rsaSetkey p q e = some r) :
    ∃ d, d < Nat.lcm (p - 1) (q - 1) ∧ e * d ≡ 1 [MOD Nat.lcm (p - 1) (q - 1)] ∧
      r.p = p ∧ r.q = q ∧ r.n = p * q ∧ r.e = e ∧ r.dp = d % (p - 1) ∧ r.dq = d % (q - 1) ∧
      q * r.qi ≡ 1 [MOD p] := by
  simp only [rsaSetkey, Option.ite_none_left_eq_some, Option.some.injEq] at h
  obtain ⟨hlt,hgcd,rfl⟩ := h
  have hcop : Nat.Coprime e (Nat.lcm (p - 1) (q - 1)) :=
    (Nat.coprime_comm.mp (not_not.mp hgcd))
  have hlambda : 1 < Nat.lcm (p - 1) (q - 1) := by omega
  exact ⟨_,gcdA_lt (by omega),mul_gcdA hcop hlambda,rfl,rfl,rfl,rfl,rfl,rfl,
    mul_gcdA hpq.symm (by omega)⟩

section Decode
variable {p q e d k x : ℕ} {r : RsaCtx}

theorem two_lt_of_odd (hp : p.Prime) (h : Odd p) : 2 < p := by
  refine lt_of_le_of_ne hp.two_le ?_
  rintro rfl
  exact absurd h (by decide)

/-- The remainders of an inverse do not vanish. -/
theorem exponent_pos (hp : 2 < p) (hk : p - 1 ∣ k) (h : e * d ≡ 1 [MOD k]) :
    0 < d % (p - 1) := by
  rw [Nat.pos_iff_ne_zero]
  intro hzero
  have hdvd : p - 1 ∣ e * d := Dvd.dvd.mul_left (Nat.dvd_of_mod_eq_zero hzero) e
  have hone : 0 ≡ 1 [MOD p - 1] :=
    (Nat.modEq_zero_iff_dvd.mpr hdvd).symm.trans (h.of_dvd hk)
  have hle := Nat.le_of_dvd Nat.one_pos (Nat.modEq_zero_iff_dvd.mp hone.symm)
  omega

/-- The reduced exponent does as well as the exponent. -/
theorem pow_exponent (hp : p.Prime) (hp2 : 2 < p) (hk : p - 1 ∣ k) (h : e * d ≡ 1 [MOD k]) :
    x ^ (d % (p - 1)) ≡ x ^ d [MOD p] := by
  have hpos := exponent_pos hp2 hk h
  have hd : 0 < d := Nat.lt_of_lt_of_le hpos (Nat.mod_le d (p - 1))
  exact pow_modEq_pow hp hpos hd (Nat.mod_modEq d (p - 1)) x

theorem rsaDecodeInt_eq (hp : p.Prime) (hq : q.Prime) (hp2 : 2 < p) (hq2 : 2 < q) (hpq : p ≠ q)
    (hd : e * d ≡ 1 [MOD Nat.lcm (p - 1) (q - 1)]) (rp : r.p = p) (rq : r.q = q)
    (rdp : r.dp = d % (p - 1)) (rdq : r.dq = d % (q - 1)) (rqi : q * r.qi ≡ 1 [MOD p]) :
    rsaDecodeInt r x = x ^ d % (p * q) := by
  have hcop := (Nat.coprime_primes hp hq).mpr hpq
  have hlt : x ^ d % (p * q) < p * q := Nat.mod_lt _ (Nat.mul_pos hp.pos hq.pos)
  have h1 : x ^ r.dp % p ≡ x ^ d % (p * q) [MOD p] := by
    rw [rdp]
    calc x ^ (d % (p - 1)) % p ≡ x ^ (d % (p - 1)) [MOD p] := Nat.mod_modEq _ _
      _ ≡ x ^ d [MOD p] := pow_exponent hp hp2 (Nat.dvd_lcm_left _ _) hd
      _ ≡ x ^ d % (p * q) [MOD p] := ((Nat.mod_modEq _ _).of_dvd (Nat.dvd_mul_right p q)).symm
  have h2 : x ^ r.dq % q = x ^ d % (p * q) % q := by
    rw [rdq, Nat.mod_mod_of_dvd _ (Nat.dvd_mul_left q p)]
    exact pow_exponent hq hq2 (Nat.dvd_lcm_right _ _) hd
  -- adding `p` to a negative difference does not change its remainder
  have hdiff (x2 : ℕ) : (if x ^ r.dp % p < x2 then ((x ^ r.dp % p : ℕ) : ℤ) - x2 + p
      else (x ^ r.dp % p : ℕ) - x2) =
      (if x ^ r.dp % p < x2 then ((x ^ r.dp % p : ℕ) : ℤ) + p else (x ^ r.dp % p : ℕ)) - x2 := by
    split <;> ring
  have h1' (x2 : ℕ) : (if x ^ r.dp % p < x2 then ((x ^ r.dp % p : ℕ) : ℤ) + p
      else (x ^ r.dp % p : ℕ)) ≡ (x ^ d % (p * q) : ℕ) [ZMOD p] := by
    have hz := Int.natCast_modEq_iff.mpr h1
    split
    case isTrue => simpa using hz
    case isFalse => exact hz
  simp only [rsaDecodeInt, mpzPowm_eq, rp, rq]
  rw [hdiff, h2, recombine hcop hlt rqi (h1' _), Int.natAbs_natCast]

/-- Decryption undoes encryption, for multiples of one of the primes too. -/
theorem pow_pow_mod (hp : p.Prime) (hq : q.Prime) (hpq : p ≠ q) (he : 0 < e * d)
    (hd : e * d ≡ 1 [MOD Nat.lcm (p - 1) (q - 1)]) {m : ℕ} (hm : m < p * q) :
    (m ^ e % (p * q)) ^ d % (p * q) = m := by
  have hcop := (Nat.coprime_primes hp hq).mpr hpq
  have hprime {s : ℕ} (hs : s.Prime) (hk : s - 1 ∣ Nat.lcm (p - 1) (q - 1)) :
      m ^ (e * d) ≡ m [MOD s] := by
    simpa using pow_modEq_pow hs he Nat.one_pos (hd.of_dvd hk) m
  have hboth : m ^ (e * d) ≡ m [MOD p * q] :=
    (Nat.modEq_and_modEq_iff_modEq_mul hcop).mp
      ⟨hprime hp (Nat.dvd_lcm_left _ _),hprime hq (Nat.dvd_lcm_right _ _)⟩
  rw [← Nat.pow_mod, ← pow_mul, hboth, Nat.mod_eq_of_lt hm]

end Decode

/-- With a key that is accepted, decoding is the power to the inverse exponent, and undoes
encoding up to leading zeros. -/
theorem rsaDecode_rsaEncode {p q e : ℕ} {r : RsaCtx} (hp : p.Prime) (hq : q.Prime)
    (hpo : Odd p) (hqo : Odd q) (hpq : p ≠ q) (he : 0 < e) (hr : rsaSetkey p q e = some r) :
    ∃ d < Nat.lcm (p - 1) (q - 1), e * d ≡ 1 [MOD Nat.lcm (p - 1) (q - 1)] ∧
      ∀ m, 0 < m → m < p * q →
        (∀ code, mpzImport code = m ^ e % (p * q) →
          rsaDecode r code = mpzExport ((m ^ e % (p * q)) ^ d % (p * q))) ∧
        ∀ data, mpzImport data = m →
          rsaDecode r (rsaEncode r data) = data.dropWhile (fun b => b = 0) ∧
          mpzImport (rsaDecode r (rsaEncode r data)) = m := by
  have hp2 := two_lt_of_odd hp hpo
  have hq2 := two_lt_of_odd hq hqo
  obtain ⟨d,hlt,hd,rp,rq,rn,re,rdp,rdq,rqi⟩ :=
    rsaSetkey_some hp2 ((Nat.coprime_primes hp hq).mpr hpq) he hr
  have hint (x : ℕ) : rsaDecodeInt r x = x ^ d % (p * q) :=
    rsaDecodeInt_eq hp hq hp2 hq2 hpq hd rp rq rdp rdq rqi
  refine ⟨d,hlt,hd,fun m hm hmn => ⟨?_,?_⟩⟩
  · intro code hcode
    rw [rsaDecode, hint, hcode]
  · rintro data rfl
    have hdpos : 0 < d := by
      have hpos := exponent_pos hp2 (Nat.dvd_lcm_left _ _) hd
      exact Nat.lt_of_lt_of_le hpos (Nat.mod_le _ _)
    have hround : rsaDecode r (rsaEncode r data) = mpzExport (mpzImport data) := by
      rw [rsaDecode, rsaEncode, mpzImport_mpzExport, hint, mpzPowm_eq, rn, re,
        pow_pow_mod hp hq hpq (Nat.mul_pos he hdpos) hd hmn]
    rw [hround, mpzImport_mpzExport, mpzExport_mpzImport]
    exact ⟨rfl,rfl⟩

/-- With primes 3 and 5, the message 6 is a multiple of one of them. -/
theorem rsaDecode_rsaEncode_six :
    ∃ r, rsaSetkey 3 5 3 = some r ∧ rsaDecode r (rsaEncode r [0,6]) = [6] := by
  have hr : rsaSetkey 3 5 3 = some ⟨3,5,15,3,1,3,2,1⟩ := by decide +kernel
  obtain ⟨d,_,_,h⟩ := rsaDecode_rsaEncode Nat.prime_three Nat.prime_five (by decide) (by decide)
    (by decide) (by decide) hr
  exact ⟨_,hr,((h 6 (by decide) (by decide)).2 [0,6] (by simp [mpzImport,Nat.ofDigits])).1⟩

end Kaplar.Crypto
