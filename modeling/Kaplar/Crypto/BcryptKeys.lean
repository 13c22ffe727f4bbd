import Kaplar.Crypto.BcryptCompare
import Kaplar.Crypto.KeySchedule

/-! # Passwords that a hash does not tell apart

The key schedule takes 72 bytes of a password with its terminator, over and over if it is
shorter. The hash shows one word of each block of the text it encrypts.
-/
namespace Kaplar.Crypto
open Cyclic
variable (tables : BlowfishCtx) {p q : CString}

def ptext : List UInt8 := (CString.ofString "OrpheanBeholderScryDoubt").chars

/-- The tables from which `generate_hash` encrypts its text. -/
def bcryptSetup (key csalt : List UInt8) (rounds : UInt32) : BlowfishCtx :=
  (fun b => blowfishExpandkey (blowfishExpandkey b key) csalt)^[rounds.toNat]
    (blowfishExpandkey1 tables key csalt)

/-- The local array with the text. -/
def plainText : Memory Unit := (localArray bcryptHashLen).write () 0 ptext

theorem encodes_plainText (b : BlowfishCtx) :
    (blowfishEcbEncodeN () b 64 0 bcryptHashLen plainText).isSome = true := by
  rw [blowfishEcbEncodeN_run (by decide) (Nat.le_refl _)]
  rfl

/-- What `generate_hash` does between its checks and the assembly of the string. -/
def bcryptBlowfish : Blowfish := fun key csalt rounds =>
  let b := bcryptSetup tables key csalt rounds
  let (_,ctext) := (blowfishEcbEncodeN () b 64 0 bcryptHashLen plainText).get (encodes_plainText b)
  Vector.ofFn (fun i => ctext.bytes () i)

/-! ## The key -/

/-- Passwords that differ neither in their first 72 characters nor in their end, if it comes
before. -/
def SameKey (p q : CString) : Prop :=
  p = q ∨ 72 ≤ p.strlen ∧ 72 ≤ q.strlen ∧ p.chars.take 72 = q.chars.take 72

theorem agree_keyBytes (p : CString) (minor : UInt8) : Agree 72 (keyBytes p minor) p.bytes := by
  unfold keyBytes
  split
  case isTrue h =>
    apply agree_take
    rw [CString.bytes, List.length_append]
    exact h.2.le
  case isFalse => exact fun _ _ => rfl

theorem keyBytes_ne_nil (p : CString) (minor : UInt8) : keyBytes p minor ≠ [] := by
  have hlen : 0 < p.bytes.length := by simp [CString.bytes]
  unfold keyBytes
  split
  case isTrue => simpa using List.length_pos_iff.mp hlen
  case isFalse => exact List.length_pos_iff.mp hlen

theorem agree_keyBytes_iff (minor minor' : UInt8) :
    Agree 72 (keyBytes p minor) (keyBytes q minor') ↔ SameKey p q := by
  rw [(agree_keyBytes p minor).congr (agree_keyBytes q minor'), CString.bytes, CString.bytes,
    agree_terminated_iff p.nonzero q.nonzero, SameKey, CString.ext_iff]
  rfl

theorem mixKey_keyBytes_iff (b : BlowfishCtx) (minor minor' : UInt8) :
    mixKey b (keyBytes p minor) = mixKey b (keyBytes q minor') ↔ SameKey p q :=
  (mixKey_eq_iff b (keyBytes_ne_nil p minor) (keyBytes_ne_nil q minor')).trans
    (agree_keyBytes_iff minor minor')

theorem bcryptSetup_congr (h : SameKey p q) (minor minor' : UInt8) (csalt : List UInt8)
    (rounds : UInt32) : bcryptSetup tables (keyBytes p minor) csalt rounds =
      bcryptSetup tables (keyBytes q minor') csalt rounds := by
  have hmix (b : BlowfishCtx) : mixKey b (keyBytes p minor) = mixKey b (keyBytes q minor') :=
    (mixKey_keyBytes_iff b minor minor').mpr h
  simp only [bcryptSetup, blowfishExpandkey, blowfishExpandkey1, hmix]

/-! ## The encrypted text -/

/-- The word that a hash shows of a block of its text. -/
def shown (p : CString) (s : SaltFields) (d : UInt32 × UInt32) : UInt32 :=
  ((bcryptSetup tables (keyBytes p s.minor) s.csalt (1 <<< s.logr.toUInt32)).encodeOne^[64] d).2

theorem toList_ctext (p : CString) (s : SaltFields) :
    (ctext (bcryptBlowfish tables) p s).toList =
      pairsBytes ((plainText.pairs () 0 3).map (fun d => (shown tables p s d,d.2))) := by
  let g := (bcryptSetup tables (keyBytes p s.minor) s.csalt (1 <<< s.logr.toUInt32)).encodeOne^[64]
  let l := pairsBytes ((plainText.pairs () 0 3).map (stored g))
  have hrun : blowfishEcbEncodeN () _ 64 0 bcryptHashLen plainText =
    some ((),plainText.write () 0 l) := blowfishEcbEncodeN_run (by decide) (Nat.le_refl _)
  have hlen : l.length = bcryptHashLen := by
    rw [length_pairsBytes, List.length_map, Memory.length_pairs]
    rfl
  apply List.ext_getElem
  · rw [Vector.length_toList]
    exact hlen.symm
  · intro i hi hi'
    have hbyte : (plainText.write () 0 l).bytes () (0 + i) = l[i] := Memory.bytes_write_self hi'
    simp only [ctext, bcryptBlowfish, hrun, Option.get_some, Vector.getElem_toList,
      Vector.getElem_ofFn]
    rw [Nat.zero_add] at hbyte
    exact hbyte

theorem ctext_eq_iff (s : SaltFields) :
    ctext (bcryptBlowfish tables) p s = ctext (bcryptBlowfish tables) q s ↔
      ∀ d ∈ plainText.pairs () 0 3, shown tables p s d = shown tables q s d := by
  rw [← Vector.toList_inj, toList_ctext, toList_ctext, pairsBytes_injective.eq_iff,
    List.map_inj_left]
  simp only [Prod.mk.injEq, and_true]

/-! ## What a hash accepts -/

theorem eq_of_total_eq_zero {l k : List UInt8} (hlen : l.length = k.length)
    (h : total (List.zipWith (· ^^^ ·) l k) = 0) : l = k := by
  induction l generalizing k with
  | nil => exact (List.length_eq_zero_iff.mp hlen.symm).symm
  | cons c l ih =>
    cases k with
    | nil => cases hlen
    | cons d k =>
      simp only [total, List.zipWith_cons_cons, List.map_cons, List.sum_cons,
        Nat.add_eq_zero_iff] at h
      have hfirst : c ^^^ d = 0 := UInt8.toNat_inj.mp h.1
      rw [eq_of_xor_eq_zero hfirst, ih (Nat.succ.inj hlen) h.2]

section Accepts
variable (blowfish : Blowfish) {s : SaltFields}

/-- Hashes have only characters whose differences cannot cancel. -/
theorem bcryptCheckpass_passwordHash_iff :
    bcryptCheckpass blowfish q (passwordHash blowfish p s) = some true ↔
      passwordHash blowfish p s = passwordHash blowfish q s := by
  have hs : readSalt (passwordHash blowfish p s) = some s := readSalt_hashString s _
  have hlow := highBytes_of_low (low_passwordHash blowfish p s)
  rw [bcryptCheckpass_iff blowfish q hs, hlow, Nat.mul_zero]
  constructor
  · rintro ⟨hlen,htotal⟩
    exact CString.ext (eq_of_total_eq_zero hlen htotal)
  · intro h
    rw [h]
    exact ⟨rfl,total_self _⟩

theorem encoded_inj {d e : List UInt8} (hlen : d.length = e.length) :
    encoded d = encoded e ↔ d = e := by
  constructor
  · intro h
    have hd := base64Decode_encoded d []
    rw [h, hlen, base64Decode_encoded e [], Option.some.injEq] at hd
    exact hd.symm
  · intro h
    rw [h]

theorem passwordHash_eq_iff :
    passwordHash blowfish p s = passwordHash blowfish q s ↔
      ctext blowfish p s = ctext blowfish q s := by
  have hlen : (ctext blowfish p s).toList.length = (ctext blowfish q s).toList.length := by
    rw [Vector.length_toList, Vector.length_toList]
  rw [CString.ext_iff, passwordHash, passwordHash, hashString, hashString,
    List.append_cancel_left_eq, encoded_inj hlen, Vector.toList_inj]

end Accepts

theorem ctext_congr (h : SameKey p q) (s : SaltFields) :
    ctext (bcryptBlowfish tables) p s = ctext (bcryptBlowfish tables) q s := by
  apply (ctext_eq_iff tables s).mpr
  intro d _
  rw [shown, shown, bcryptSetup_congr tables h s.minor s.minor]

theorem bcryptCheckpass_congr (h : SameKey p q) (hash : CString) :
    bcryptCheckpass (bcryptBlowfish tables) p hash =
      bcryptCheckpass (bcryptBlowfish tables) q hash := by
  cases hs : readSalt hash with
  | none => rw [bcryptCheckpass_refused _ _ hs, bcryptCheckpass_refused _ _ hs]
  | some s =>
    rw [bcryptCheckpass_eq _ _ hs, bcryptCheckpass_eq _ _ hs, passwordHash, passwordHash,
      ctext_congr tables h]

/-- What decides if a password is accepted for a hash of another one: no more than 72 bytes of
each count, and no more than three words of the encrypted text are compared. -/
theorem bcrypt_passwords (tables : BlowfishCtx) (p q : CString) (s : SaltFields) :
    (SameKey p q ↔ ∀ b minor minor',
      mixKey b (keyBytes p minor) = mixKey b (keyBytes q minor')) ∧
    (SameKey p q → ∀ hash, bcryptCheckpass (bcryptBlowfish tables) p hash =
      bcryptCheckpass (bcryptBlowfish tables) q hash) ∧
    (bcryptCheckpass (bcryptBlowfish tables) q (passwordHash (bcryptBlowfish tables) p s) =
      some true ↔ ∀ d ∈ plainText.pairs () 0 3, shown tables p s d = shown tables q s d) := by
  refine ⟨⟨fun h b minor minor' => (mixKey_keyBytes_iff b minor minor').mpr h,?_⟩,?_,?_⟩
  · exact fun h => (mixKey_keyBytes_iff tables 0 0).mp (h tables 0 0)
  · exact bcryptCheckpass_congr tables
  · rw [bcryptCheckpass_passwordHash_iff, passwordHash_eq_iff, ctext_eq_iff]

end Kaplar.Crypto
