import Mathlib.Data.Int.GCD
import Mathlib.Data.Nat.Digits.Lemmas

/-! # RSA

The integers of the multiple-precision library are exact. Import and export are
big-endian with one byte a digit; the export has no leading zero, so it loses the
ones of the imported string.
-/
namespace Kaplar.Crypto

/-- `mpz_import`, most significant byte first. -/
def mpzImport (data : List UInt8) : ℕ := Nat.ofDigits 256 (data.reverse.map UInt8.toNat)

/-- `mpz_export`, most significant byte first and no byte for zero. -/
def mpzExport (x : ℕ) : List UInt8 := ((Nat.digits 256 x).map UInt8.ofNat).reverse

def powmBits (b m : ℕ) : ℕ → ℕ → ℕ
  | 0, _ => 1 % m
  | bits + 1, e =>
    let h := powmBits b m bits (e / 2)
    if e % 2 = 1 then h * h % m * b % m else h * h % m

/-- `mpz_powm`, by squaring. -/
def mpzPowm (b e m : ℕ) : ℕ := powmBits b m (e.log2 + 1) e

/-- `mpz_invert`, for coprime arguments. -/
def mpzInvert (a m : ℕ) : ℕ := (Nat.gcdA a m % m).toNat

/-- `mpz_sizeinbytes`, from the size in base two. -/
def mpzSizeinbytes (x : ℕ) : ℕ := (x.log2 + 1 + 7) >>> 3

/-- The key of an `rsa_ctx`; its scratch integers are local to the functions. -/
structure RsaCtx where
  p : ℕ
  q : ℕ
  n : ℕ
  e : ℕ
  dp : ℕ
  dq : ℕ
  qi : ℕ
  encodingLimit : ℕ
deriving DecidableEq

def rsaSetkey (p q e : ℕ) : Option RsaCtx :=
  let lambda := Nat.lcm (p - 1) (q - 1)
  if lambda ≤ e then none
  else if Nat.gcd lambda e ≠ 1 then none
  else
    let d := mpzInvert e lambda
    some {
      p := p
      q := q
      n := p * q
      e := e
      dp := d % (p - 1)
      dq := d % (q - 1)
      qi := mpzInvert q p
      encodingLimit := mpzSizeinbytes (p * q) }

/-- The bytes written; `outlen` is their number. -/
def rsaEncode (r : RsaCtx) (data : List UInt8) : List UInt8 :=
  mpzExport (mpzPowm (mpzImport data) r.e r.n)

/-- The integer `rsa_decode` exports. -/
def rsaDecodeInt (r : RsaCtx) (x0 : ℕ) : ℕ :=
  let x1 := mpzPowm x0 r.dp r.p
  let x2 := mpzPowm x0 r.dq r.q
  let x3 : ℤ := x1 - x2
  let x3 := if x1 < x2 then x3 + r.p else x3
  let x3 := x3 * r.qi % r.p
  (x2 + x3 * r.q).natAbs

def rsaDecode (r : RsaCtx) (data : List UInt8) : List UInt8 :=
  mpzExport (rsaDecodeInt r (mpzImport data))

def tibiaRsaDecode (r : RsaCtx) (data : List UInt8) : Option (List UInt8) :=
  if r.encodingLimit < data.length then none else some (rsaDecode r data)

/-! ## Import and export -/

theorem mpzImport_zero_cons (data : List UInt8) : mpzImport (0 :: data) = mpzImport data := by
  simp [mpzImport,Nat.ofDigits_append]

/-- Nothing is lost of a string that starts with a non-zero byte. -/
theorem mpzExport_mpzImport_cons {b : UInt8} {data : List UInt8} (h : b ≠ 0) :
    mpzExport (mpzImport (b :: data)) = b :: data := by
  have hdigits : Nat.digits 256 (mpzImport (b :: data)) =
      (b :: data).reverse.map UInt8.toNat := by
    apply Nat.digits_ofDigits 256 (by decide)
    · intro d hd
      obtain ⟨v,-,rfl⟩ := List.mem_map.mp hd
      exact v.toNat_lt
    · intro hne
      have hlast : ((b :: data).reverse.map UInt8.toNat).getLast hne = b.toNat := by simp
      rw [hlast]
      exact fun hzero => h (UInt8.toNat_inj.mp hzero)
  have hbytes : UInt8.ofNat ∘ UInt8.toNat = id := funext (fun v => UInt8.ofNat_toNat)
  rw [mpzExport, hdigits, List.map_map, hbytes, List.map_id, List.reverse_reverse]

/-- The leading zeros of a string are lost. -/
theorem mpzExport_mpzImport (data : List UInt8) :
    mpzExport (mpzImport data) = data.dropWhile (fun b => b = 0) := by
  induction data with
  | nil => simp [mpzExport,mpzImport]
  | cons b data ih =>
    by_cases h : b = 0
    · subst h
      rw [mpzImport_zero_cons, ih]
      simp
    · rw [mpzExport_mpzImport_cons h]
      simp [h]

/-! ## Modular powers -/

theorem powmBits_eq (b m : ℕ) (bits e : ℕ) (h : e < 2 ^ bits) :
    powmBits b m bits e = b ^ e % m := by
  induction bits generalizing e with
  | zero =>
    obtain rfl : e = 0 := by simpa using h
    simp [powmBits]
  | succ bits ih =>
    rw [Nat.pow_succ] at h
    have hhalf : powmBits b m bits (e / 2) = b ^ (e / 2) % m := ih _ (by omega)
    have hsquare : b ^ (e / 2) % m * (b ^ (e / 2) % m) % m = b ^ (2 * (e / 2)) % m := by
      rw [← Nat.mul_mod, ← Nat.pow_add, Nat.two_mul]
    rw [powmBits]
    simp only [hhalf, hsquare]
    by_cases hodd : e % 2 = 1
    · have he : e = 2 * (e / 2) + 1 := by omega
      rw [if_pos hodd, Nat.mod_mul_mod, ← Nat.pow_succ]
      exact congrArg (fun k => b ^ k % m) he.symm
    · have he : 2 * (e / 2) = e := by omega
      rw [if_neg hodd, he]

theorem mpzPowm_eq (b e m : ℕ) : mpzPowm b e m = b ^ e % m :=
  powmBits_eq b m _ e Nat.lt_log2_self

/-! ## The key of the server -/

def tibiaP : ℕ :=
  14299623962416399520070177382898895550795403345466153217470516082934737582776038882967213386204600674145392845853859217990626450972452084065728686565928113

def tibiaQ : ℕ :=
  7630979195970404721891201847792002125535401292779123937207447574596692788513647179235335529307251350570728407373705564708871762033017096809910315212884101

def tibiaE : ℕ := 65537

/-- The context `tibia_rsa_init` leaves, with a limit of 128 bytes. -/
def tibiaCtx : RsaCtx where
  p := tibiaP
  q := tibiaQ
  n := tibiaP * tibiaQ
  e := tibiaE
  dp :=
    11141736698610418925078406669215087697114858422461871124661098818361832856659225315773346115219673296375487744032858798960485665997181641221483584094519937
  dq :=
    4886309137722172729208909250386672706991365415741885286554321031904881408516947737562153523770981322408725111241551398797744838697461929408240938369297973
  qi :=
    5610960212328996596431206032772162188356793727360507633581722789998709372832546447914318965787194031968482458122348411654607397146261039733584248408719418
  encodingLimit := 128

example : rsaSetkey tibiaP tibiaQ tibiaE = some tibiaCtx := by decide +kernel

end Kaplar.Crypto
