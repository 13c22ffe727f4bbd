import Kaplar.Crypto.BcryptVerify

/-! # When the comparison of hashes is exact

The differences of two strings are added up with their signs. A character from 0x80 on in the
stored hash has a negative difference, which others can make up for.
-/
namespace Kaplar.Crypto
variable (blowfish : Blowfish) (pass : CString) {h t : CString}

/-- The bytes in which two strings of one length differ. -/
def differences (h t : CString) : List UInt8 := List.zipWith (· ^^^ ·) h.chars t.chars

def total (l : List UInt8) : ℕ := (l.map UInt8.toNat).sum

def highBytes (l : List UInt8) : ℕ := l.countP (0x80 ≤ ·)

/-- Strings that differ in a way that the comparison does not see. -/
def Cancels (h t : CString) : Prop :=
  h.strlen = t.strlen ∧ h ≠ t ∧ total (differences h t) = 256 * highBytes h.chars

/-! ## The sum of signed characters -/

theorem toInt_charToInt (c : UInt8) :
    (charToInt c).toInt = (c.toNat : ℤ) - 256 * (if 0x80 ≤ c then 1 else 0) := by
  have hsigned : (charToInt c).toInt = c.toBitVec.toInt := Int8.toInt_toInt32 c.toInt8
  have hhigh : 0x80 ≤ c ↔ 128 ≤ c.toNat := UInt8.le_iff_toNat_le
  have hlt := c.toNat_lt
  rw [hsigned, BitVec.toInt_eq_toNat_cond, UInt8.toNat_toBitVec]
  simp only [hhigh]
  split_ifs <;> omega

theorem natAbs_charToInt (c : UInt8) : (charToInt c).toInt.natAbs ≤ 128 := by
  have hhigh : 0x80 ≤ c ↔ 128 ≤ c.toNat := UInt8.le_iff_toNat_le
  have hlt := c.toNat_lt
  rw [toInt_charToInt]
  simp only [hhigh]
  split_ifs <;> omega

/-- Nothing overflows that is not too long. -/
theorem toInt_sum {l : List UInt8} {res : Int32} (h : res.toInt.natAbs + 128 * l.length < 2 ^ 31) :
    (l.foldl (fun res c => res + charToInt c) res).toInt =
      res.toInt + total l - 256 * highBytes l := by
  induction l generalizing res with
  | nil => simp [total,highBytes]
  | cons c l ih =>
    have hc := toInt_charToInt c
    have hbound := natAbs_charToInt c
    rw [List.length_cons] at h
    have hadd : (res + charToInt c).toInt = res.toInt + (charToInt c).toInt := by
      rw [Int32.toInt_add]
      exact Int.bmod_eq_of_le_mul_two (by omega) (by omega)
    rw [List.foldl_cons, ih (by omega), hadd, hc]
    by_cases hhigh : 0x80 ≤ c
    · simp [total,highBytes,hhigh]
      omega
    · simp [total,highBytes,hhigh]
      omega

/-! ## The comparison -/

theorem range_differences (hlen : h.strlen = t.strlen) :
    (List.range h.strlen).map (fun i => h.get i ^^^ t.get i) = differences h t := by
  unfold CString.strlen at hlen
  apply List.ext_getElem
  · simp [differences,CString.strlen,hlen]
  · intro i hi _
    have hh : i < h.chars.length := by simpa [CString.strlen] using hi
    have ht : i < t.chars.length := hlen ▸ hh
    simp [differences,CString.get,hh,ht]

theorem hashCmp_eq_fold (hlen : h.strlen = t.strlen) : hashCmp h t h.strlen =
    ((differences h t).foldl (fun res c => res + charToInt c) 0 == 0) := by
  have hxor (c d : UInt8) : charToInt c ^^^ charToInt d = charToInt (c ^^^ d) := by
    simp [charToInt]
  rw [← range_differences hlen, List.foldl_map, hashCmp]
  simp only [hxor]

theorem high_iff (c : UInt8) : 0x80 ≤ c ↔ c.toBitVec[7] = true := by
  revert c
  apply forall_byte
  decide +kernel

theorem high_xor {c d : UInt8} (hd : d < 0x80) : 0x80 ≤ c ^^^ d ↔ 0x80 ≤ c := by
  have hlow : d.toBitVec[7] = false := by
    rw [← Bool.not_eq_true, ← high_iff]
    exact UInt8.not_le.mpr hd
  rw [high_iff, high_iff, UInt8.toBitVec_xor, BitVec.getElem_xor, hlow, Bool.xor_false]

theorem highBytes_zipWith {l k : List UInt8} (hlen : l.length = k.length)
    (hk : ∀ c ∈ k, c < 0x80) : highBytes (List.zipWith (· ^^^ ·) l k) = highBytes l := by
  induction l generalizing k with
  | nil => rfl
  | cons c l ih =>
    cases k with
    | nil => cases hlen
    | cons d k =>
      have hd := high_xor (c := c) (hk d List.mem_cons_self)
      have hrest := ih (Nat.succ.inj hlen) (fun e he => hk e (List.mem_cons_of_mem _ he))
      simp only [highBytes] at hrest
      simp only [highBytes, List.zipWith_cons_cons, List.countP_cons, hrest, hd]

theorem highBytes_differences (hlen : h.strlen = t.strlen) (ht : ∀ c ∈ t.chars, c < 0x80) :
    highBytes (differences h t) = highBytes h.chars := highBytes_zipWith hlen ht

theorem hashCmp_iff (hlen : h.strlen = t.strlen) (hlong : h.strlen < 2 ^ 24)
    (ht : ∀ c ∈ t.chars, c < 0x80) : hashCmp h t h.strlen = true ↔
      total (differences h t) = 256 * highBytes h.chars := by
  have hdiff : (differences h t).length ≤ h.strlen := by
    simp [differences,CString.strlen]
  have hbound : (0 : Int32).toInt.natAbs + 128 * (differences h t).length < 2 ^ 31 := by
    rw [Int32.toInt_zero, Int.natAbs_zero]
    omega
  have hsum := toInt_sum hbound
  rw [hashCmp_eq_fold hlen, beq_iff_eq, ← Int32.toInt_inj, hsum, highBytes_differences hlen ht]
  simp only [Int32.toInt_zero]
  omega

/-! ## What is accepted -/

/-- `generate_hash` accepts `h` as a salt, and leaves `t`. -/
def Generates (h t : CString) : Prop :=
  ∃ testHash, generateHash blowfish pass h () bcryptHashStrlen (localArray bcryptHashStrlen) =
    some (true,testHash) ∧ testHash.cstring () = t

theorem generates_iff {s : SaltFields} (hs : readSalt h = some s) :
    Generates blowfish pass h t ↔ passwordHash blowfish pass s = t := by
  obtain ⟨testHash,hrun,hstring⟩ := generateHash_testHash blowfish pass hs
  constructor
  · rintro ⟨testHash',hrun',rfl⟩
    rw [hrun] at hrun'
    cases hrun'
    exact hstring.symm
  · rintro rfl
    exact ⟨testHash,hrun,hstring⟩

theorem not_generates (hs : readSalt h = none) : ¬ Generates blowfish pass h t := by
  rintro ⟨testHash,hrun,-⟩
  rw [generateHash_refused blowfish hs] at hrun
  cases hrun

theorem bcryptCheckpass_refused (hs : readSalt h = none) :
    bcryptCheckpass blowfish pass h = some false := by
  rw [bcryptCheckpass, generateHash_refused blowfish hs]

theorem low_of_isdigit {c : UInt8} (h : isdigit c = true) : c < 0x80 := by
  have hle := (decide_eq_true_iff.mp h).2
  exact UInt8.lt_of_le_of_lt hle (by decide)

theorem low_header (s : SaltFields) : ∀ c ∈ header s.minor s.logr.toNat, c < 0x80 := by
  have hminor : s.minor < 0x80 := by
    rcases s.minor_mem with h | h <;> rw [h] <;> decide
  intro c hc
  simp only [header, List.mem_append, List.mem_cons, List.not_mem_nil, or_false] at hc
  rcases hc with ((rfl | rfl | rfl | rfl) | hc) | rfl
  · decide
  · decide
  · exact hminor
  · decide
  · exact low_of_isdigit (isdigit_of_mem s.logr_lt c hc)
  · decide

theorem low_of_decode64 (c : UInt8) : decode64 c ≠ 0xFF → c < 0x80 := by
  revert c
  apply forall_byte
  decide +kernel

theorem low_encoded (d : List UInt8) : ∀ c ∈ encoded d, c < 0x80 :=
  fun c hc => low_of_decode64 c (fun hbad => not_mem_encoded hbad d hc)

theorem low_passwordHash (s : SaltFields) :
    ∀ c ∈ (passwordHash blowfish pass s).chars, c < 0x80 := by
  intro c hc
  simp only [passwordHash, hashString, List.mem_append] at hc
  rcases hc with (hc | hc) | hc
  · exact low_header s c hc
  · exact low_encoded _ c hc
  · exact low_encoded _ c hc

theorem bcryptCheckpass_iff {s : SaltFields} (hs : readSalt h = some s) :
    bcryptCheckpass blowfish pass h = some true ↔
      h.strlen = (passwordHash blowfish pass s).strlen ∧
      total (differences h (passwordHash blowfish pass s)) = 256 * highBytes h.chars := by
  have hlong : (passwordHash blowfish pass s).strlen < 2 ^ 24 := by
    rw [passwordHash, strlen_hashString, Vector.length_toList]
    decide
  rw [bcryptCheckpass_eq blowfish pass hs, Option.some.injEq, Bool.and_eq_true, beq_iff_eq]
  apply and_congr_right
  intro hlen
  exact hashCmp_iff hlen (hlen ▸ hlong) (low_passwordHash blowfish pass s)

theorem xor_xor_self (c d : UInt8) : c ^^^ d ^^^ c = d := by
  rw [UInt8.xor_comm c, UInt8.xor_assoc, UInt8.xor_self, UInt8.xor_zero]

theorem eq_of_xor_eq_zero {c d : UInt8} (h : c ^^^ d = 0) : c = d := by
  have hback := xor_xor_self d c
  rw [UInt8.xor_comm d, h, UInt8.zero_xor] at hback
  exact hback.symm

theorem total_self (l : List UInt8) : total (List.zipWith (· ^^^ ·) l l) = 0 := by
  simp [total,List.zipWith_self]

theorem highBytes_of_low {l : List UInt8} (h : ∀ c ∈ l, c < 0x80) : highBytes l = 0 := by
  rw [highBytes, List.countP_eq_zero]
  intro c hc
  simp [h c hc]

/-- The first difference is -128, and the next two are 64 each. -/
def disguised : List UInt8 → List UInt8
  | c1 :: c2 :: c3 :: l => (c1 ^^^ 0x80) :: (c2 ^^^ 0x40) :: (c3 ^^^ 0x40) :: l
  | l => l

structure Disguise (k l : List UInt8) : Prop where
  length_eq : k.length = l.length
  nonzero : 0 ∉ k
  ne : k ≠ l
  total_eq : total (List.zipWith (· ^^^ ·) k l) = 256
  high_eq : highBytes k = 1

theorem disguise_disguised {l : List UInt8} (hlen : 3 ≤ l.length) (hlow : ∀ c ∈ l, c < 0x80)
    (hnot : 0x40 ∉ l) (hzero : 0 ∉ l) : Disguise (disguised l) l := by
  match l with
  | c1 :: c2 :: c3 :: l =>
    simp only [List.forall_mem_cons] at hlow
    simp only [List.mem_cons, not_or] at hnot hzero
    obtain ⟨h1,h2,h3,hl⟩ := hlow
    have hhigh : 0x80 ≤ c1 ^^^ 0x80 := by
      rw [UInt8.xor_comm]
      exact (high_xor h1).mpr (UInt8.le_refl _)
    have hsame {c : UInt8} (hc : c < 0x80) : ¬ 0x80 ≤ c ^^^ 0x40 := by
      rw [high_xor (by decide)]
      exact UInt8.not_le.mpr hc
    constructor
    · rfl
    · simp only [disguised, List.mem_cons, not_or]
      refine ⟨?_,fun h => hnot.2.1 (eq_of_xor_eq_zero h.symm).symm,
        fun h => hnot.2.2.1 (eq_of_xor_eq_zero h.symm).symm,hzero.2.2.2⟩
      intro h
      rw [← h] at hhigh
      exact absurd hhigh (by decide)
    · intro h
      have hc1 : c1 ^^^ 0x80 = c1 := (List.cons.inj h).1
      rw [hc1] at hhigh
      exact UInt8.not_le.mpr h1 hhigh
    · simp [total,disguised]
    · have hrest := highBytes_of_low hl
      simp only [highBytes] at hrest
      simp [highBytes,disguised,hhigh,hsame h2,hsame h3,hrest]
  | [] | [_] | [_,_] => simp at hlen

/-- The fields of a salt of zero bytes. -/
def zeroSalt : SaltFields where
  minor := chr 'b'
  logr := 4
  csalt := List.replicate 16 0
  minor_mem := b_mem_minors
  four_le := by decide
  le_31 := by decide
  length_csalt := rfl

end Kaplar.Crypto
