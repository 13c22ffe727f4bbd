import Kaplar.Foundation.CString
import Kaplar.Crypto.Base64

/-! # Password hashes

The strings are "$2b$x$y[z]" with the cost `x` in two digits, the salt `y` in 22 characters
of base 64 and the hash `z` in 32.
-/
namespace Kaplar.Crypto

def bcryptSaltLen : ℕ := 16
def bcryptHashLen : ℕ := 24
def bcryptSaltStrlen : ℕ := 30
def bcryptHashStrlen : ℕ := 62

def chr (c : Char) : UInt8 := UInt8.ofNat c.toNat

def isdigit (c : UInt8) : Bool := chr '0' ≤ c ∧ c ≤ chr '9'

/-- `%2.2u` -/
def twoDigits (n : ℕ) : List UInt8 := ((Nat.toDigits 10 n).map chr).leftpad 2 (chr '0')

/-- What precedes the salt: "$2%c$%2.2u$". -/
def header (minor : UInt8) (logr : ℕ) : List UInt8 :=
  [chr '$',chr '2',minor,chr '$'] ++ twoDigits logr ++ [chr '$']

section Hash
variable {ρ : Type} [DecidableEq ρ]

/-- `generate_salt`, with the bytes that `crypto_random` delivers. -/
def generateSalt (csalt : Vector UInt8 bcryptSaltLen) (logr : ℤ) (salt : ρ) (saltlen : ℕ) :
    MemM ρ Bool :=
  if saltlen < bcryptSaltStrlen then pure false
  else do
    let logr := if logr < 4 then 4 else if logr > 31 then 31 else logr
    storeBytes salt 0 (header (chr 'b') logr.toNat ++ [0])
    storeBytes salt 7 (base64Encode csalt.toList)
    pure true

/-- What `generate_hash` reads from a salt it accepts. -/
@[ext] structure SaltFields where
  minor : UInt8
  logr : UInt8
  csalt : List UInt8
  minor_mem : minor = chr 'b' ∨ minor = chr 'a'
  four_le : 4 ≤ logr
  le_31 : logr ≤ 31
  length_csalt : csalt.length = bcryptSaltLen

/-- The checks of a salt. -/
def readSalt (salt : CString) : Option SaltFields :=
  if salt.strlen + 1 < bcryptSaltStrlen then none
  else if salt.get 0 ≠ chr '$' ∨ salt.get 1 ≠ chr '2' then none
  else if hminor : salt.get 2 = chr 'b' ∨ salt.get 2 = chr 'a' then
    if salt.get 3 ≠ chr '$' ∨ salt.get 6 ≠ chr '$' ∨ isdigit (salt.get 4) = false ∨
      isdigit (salt.get 5) = false then none
    else
      let logr := (salt.get 4 - chr '0') * 10 + (salt.get 5 - chr '0')
      if hlogr : logr < 4 ∨ logr > 31 then none
      else match hsalt : base64Decode bcryptSaltLen (salt.drop 7).chars with
        | none => none
        | some csalt => some
          { minor := salt.get 2
            logr := logr
            csalt := csalt
            minor_mem := hminor
            four_le := UInt8.not_lt.mp (fun h => hlogr (.inl h))
            le_31 := UInt8.not_lt.mp (fun h => hlogr (.inr h))
            length_csalt := length_base64Decode hsalt }
  else none

/-- The bytes of the key that are used: all for minor version 'a', at most 72 for 'b'. -/
def keyBytes (key : CString) (minor : UInt8) : List UInt8 :=
  if minor = chr 'b' ∧ key.strlen + 1 > 72 then key.bytes.take 72 else key.bytes

/-- The encrypted text, from the key bytes, the salt bytes and the number of rounds. -/
abbrev Blowfish := List UInt8 → List UInt8 → UInt32 → Vector UInt8 bcryptHashLen

variable (blowfish : Blowfish)

def ctext (key : CString) (s : SaltFields) : Vector UInt8 bcryptHashLen :=
  blowfish (keyBytes key s.minor) s.csalt (1 <<< s.logr.toUInt32)

/-- `generate_hash`. All failures are alike and nothing is written before, so the checks of
the salt stand together. -/
def generateHash (key salt : CString) (hash : ρ) (hashlen : ℕ) : MemM ρ Bool :=
  if hashlen < bcryptHashStrlen then pure false
  else match readSalt salt with
    | none => pure false
    | some s => do
      storeBytes hash 0 (header s.minor s.logr.toNat ++ [0])
      storeBytes hash 7 (base64Encode s.csalt)
      storeBytes hash (7 + 22) (base64Encode (ctext blowfish key s).toList)
      pure true

/-- An array of a function's own. Nothing is read from it before it is written. -/
def localArray (n : ℕ) : Memory Unit where
  size _ := n
  bytes _ _ := 0

/-- `char` is signed. -/
def charToInt (c : UInt8) : Int32 := c.toInt8.toInt32

def hashCmp (h1 h2 : CString) (len : ℕ) : Bool :=
  (List.range len).foldl (fun res i => res + (charToInt (h1.get i) ^^^ charToInt (h2.get i))) 0 == 0

def bcryptNewhash (csalt : Vector UInt8 bcryptSaltLen) (pass : CString) (logr : ℤ) (hash : ρ)
    (hashlen : ℕ) : MemM ρ Bool :=
  match generateSalt csalt logr () bcryptSaltStrlen (localArray bcryptSaltStrlen) with
  | none => fun _ => none
  | some (false,_) => pure false
  | some (true,salt) => generateHash blowfish pass (salt.cstring ()) hash hashlen

def bcryptCheckpass (pass hash : CString) : Option Bool :=
  match generateHash blowfish pass hash () bcryptHashStrlen (localArray bcryptHashStrlen) with
  | none => none
  | some (false,_) => some false
  | some (true,testHash) =>
    let testHash := testHash.cstring ()
    some (hash.strlen == testHash.strlen && hashCmp hash testHash hash.strlen)

/-! ## The strings -/

theorem twoDigits_eq {n : ℕ} (h : n < 100) :
    twoDigits n = [UInt8.ofNat (48 + n / 10),UInt8.ofNat (48 + n % 10)] := by
  have hall : ∀ i : Fin 100, twoDigits i =
      [UInt8.ofNat (48 + i.val / 10),UInt8.ofNat (48 + i.val % 10)] := by decide +kernel
  exact hall ⟨n,h⟩

theorem length_header {minor : UInt8} {n : ℕ} (h : n < 100) : (header minor n).length = 7 := by
  rw [header, twoDigits_eq h]
  rfl

theorem isdigit_ofNat {k : ℕ} (h : k < 10) : isdigit (UInt8.ofNat (48 + k)) = true := by
  have hall : ∀ i : Fin 10, isdigit (UInt8.ofNat (48 + i.val)) = true := by decide
  exact hall ⟨k,h⟩

theorem isdigit_of_mem {n : ℕ} (h : n < 100) : ∀ c ∈ twoDigits n, isdigit c = true := by
  have htens := isdigit_ofNat (show n / 10 < 10 by omega)
  have hones := isdigit_ofNat (show n % 10 < 10 by omega)
  intro c hc
  rw [twoDigits_eq h, List.mem_pair] at hc
  rcases hc with rfl | rfl
  · exact htens
  · exact hones

theorem ne_zero_of_isdigit {c : UInt8} (h : isdigit c = true) : c ≠ 0 := by
  rintro rfl
  exact absurd h (by decide)

theorem nonzero_header {minor : UInt8} {n : ℕ} (hminor : minor ≠ 0) (h : n < 100) :
    0 ∉ header minor n := by
  have hdigits : 0 ∉ twoDigits n := fun h0 => ne_zero_of_isdigit (isdigit_of_mem h 0 h0) rfl
  simp [header,hdigits,hminor.symm]
  decide

theorem SaltFields.logr_lt (s : SaltFields) : s.logr.toNat < 100 := by
  have h := UInt8.le_iff_toNat_le.mp s.le_31
  exact Nat.lt_of_le_of_lt h (by decide)

theorem SaltFields.minor_ne (s : SaltFields) : s.minor ≠ 0 := by
  rcases s.minor_mem with h | h <;> rw [h] <;> decide

/-- The string that `generate_hash` leaves. -/
def hashString (s : SaltFields) (c : List UInt8) : CString where
  chars := header s.minor s.logr.toNat ++ encoded s.csalt ++ encoded c
  nonzero := by
    simp [nonzero_header s.minor_ne s.logr_lt,not_mem_encoded (c := 0) (by rfl)]

theorem digits_read {n : ℕ} (h : n < 100) :
    (UInt8.ofNat (48 + n / 10) - chr '0') * 10 + (UInt8.ofNat (48 + n % 10) - chr '0') =
      UInt8.ofNat n := by
  have hall : ∀ i : Fin 100, (UInt8.ofNat (48 + i.val / 10) - chr '0') * 10 +
      (UInt8.ofNat (48 + i.val % 10) - chr '0') = UInt8.ofNat i.val := by decide +kernel
  exact hall ⟨n,h⟩

/-- The fields of a salt are read back, whatever follows. -/
theorem readSalt_of_chars {s : SaltFields} {salt : CString} {rest : List UInt8}
    (h : salt.chars = header s.minor s.logr.toNat ++ encoded s.csalt ++ rest) :
    readSalt salt = some s := by
  have hlen : ¬ salt.strlen + 1 < bcryptSaltStrlen := by
    rw [CString.strlen, h]
    simp [length_header s.logr_lt,s.length_csalt,sextetCount,bcryptSaltLen,bcryptSaltStrlen]
    omega
  have hlt := s.logr_lt
  have hdrop : (salt.drop 7).chars = encoded s.csalt ++ rest := by
    change salt.chars.drop 7 = _
    rw [h, List.append_assoc]
    exact List.drop_left' (length_header s.logr_lt)
  have hget (i : ℕ) : salt.get i = ([chr '$',chr '2',s.minor,chr '$',
      UInt8.ofNat (48 + s.logr.toNat / 10),UInt8.ofNat (48 + s.logr.toNat % 10),chr '$'] ++
        (encoded s.csalt ++ rest)).getD i 0 := by
    rw [CString.get, h, header, twoDigits_eq s.logr_lt, List.append_assoc]
    rfl
  have h0 : salt.get 0 = chr '$' := hget 0
  have h1 : salt.get 1 = chr '2' := hget 1
  have h2 : salt.get 2 = s.minor := hget 2
  have h3 : salt.get 3 = chr '$' := hget 3
  have h4 : salt.get 4 = UInt8.ofNat (48 + s.logr.toNat / 10) := hget 4
  have h5 : salt.get 5 = UInt8.ofNat (48 + s.logr.toNat % 10) := hget 5
  have h6 : salt.get 6 = chr '$' := hget 6
  have hlogr : (salt.get 4 - chr '0') * 10 + (salt.get 5 - chr '0') = s.logr := by
    rw [h4, h5, digits_read hlt, UInt8.ofNat_toNat]
  have hdigits : isdigit (salt.get 4) = true ∧ isdigit (salt.get 5) = true := by
    rw [h4, h5]
    exact ⟨isdigit_ofNat (by omega),isdigit_ofNat (by omega)⟩
  have hcost : ¬ (s.logr < 4 ∨ s.logr > 31) :=
    not_or.mpr ⟨UInt8.not_lt.mpr s.four_le,UInt8.not_lt.mpr s.le_31⟩
  have hdecode : base64Decode bcryptSaltLen (salt.drop 7).chars = some s.csalt := by
    rw [hdrop, ← s.length_csalt, base64Decode_encoded]
  unfold readSalt
  rw [if_neg hlen, if_neg (by simp [h0,h1]), dif_pos (h2 ▸ s.minor_mem),
    if_neg (by simp [h3,h6,hdigits])]
  simp only [hlogr]
  rw [dif_neg hcost]
  split
  · rename_i hnone
    rw [hdecode] at hnone
    cases hnone
  · rename_i csalt hsome
    rw [hdecode] at hsome
    cases hsome
    congr 1
    ext1
    · exact h2
    · rfl
    · rfl

/-! ## What the functions leave -/

variable {key salt : CString} {m : Memory ρ} {hash : ρ} {hashlen : ℕ} {s : SaltFields}

theorem bytes_hashString_nil : (hashString s []).bytes =
    header s.minor s.logr.toNat ++ encoded s.csalt ++ [0] := by
  change header s.minor s.logr.toNat ++ encoded s.csalt ++ [] ++ [0] = _
  rw [List.append_nil]

-- each part is written over the terminator of the one before
theorem saltString_write : (m.write hash 0 (header s.minor s.logr.toNat ++ [0])).write hash 7
    (base64Encode s.csalt) = m.write hash 0 (hashString s []).bytes := by
  have h7 : 7 = 0 + (header s.minor s.logr.toNat).length := by rw [length_header s.logr_lt]
  rw [h7, base64Encode_eq, Memory.write_over_last (by simp), bytes_hashString_nil,
    List.append_assoc]

theorem hashString_write {c : List UInt8} : (m.write hash 0 (hashString s []).bytes).write hash
    (7 + 22) (base64Encode c) = m.write hash 0 (hashString s c).bytes := by
  have h29 : 7 + 22 = 0 + (header s.minor s.logr.toNat ++ encoded s.csalt).length := by
    rw [List.length_append, length_header s.logr_lt, length_encoded, s.length_csalt]
    rfl
  rw [h29, base64Encode_eq, bytes_hashString_nil, Memory.write_over_last (by simp),
    ← List.append_assoc]
  rfl

theorem strlen_hashString (c : List UInt8) :
    (hashString s c).strlen = 29 + sextetCount c.length := by
  have hsalt : sextetCount s.csalt.length = 22 := by rw [s.length_csalt]; rfl
  simp only [CString.strlen, hashString, List.length_append, length_header s.logr_lt,
    length_encoded, hsalt]

theorem generateHash_run (h62 : bcryptHashStrlen ≤ hashlen) (hsize : hashlen ≤ m.size hash)
    (hs : readSalt salt = some s) : generateHash blowfish key salt hash hashlen m =
      some (true,m.write hash 0 (hashString s (ctext blowfish key s).toList).bytes) := by
  have hheader : 0 + (header s.minor s.logr.toNat ++ [0]).length ≤ m.size hash := by
    rw [List.length_append, length_header s.logr_lt]
    exact Nat.le_trans (by decide) (h62.trans hsize)
  have hsalt : 7 + (base64Encode s.csalt).length ≤ m.size hash := by
    rw [length_base64Encode, s.length_csalt]
    exact Nat.le_trans (by decide) (h62.trans hsize)
  have hcode : 7 + 22 + (base64Encode (ctext blowfish key s).toList).length ≤ m.size hash := by
    rw [length_base64Encode, Vector.length_toList]
    exact h62.trans hsize
  rw [generateHash, if_neg (Nat.not_lt.mpr h62), hs]
  simp only
  rw [bind_run (storeBytes_run hheader), bind_run (storeBytes_run (by exact hsalt)),
    bind_run (storeBytes_run (by exact hcode)), saltString_write, hashString_write]
  rfl

theorem generateHash_refused (hs : readSalt salt = none) :
    generateHash blowfish key salt hash hashlen m = some (false,m) := by
  rw [generateHash, hs]
  split
  · rfl
  · rfl

end Hash

end Kaplar.Crypto
