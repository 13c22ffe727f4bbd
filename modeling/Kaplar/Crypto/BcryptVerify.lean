import Kaplar.Crypto.Bcrypt

/-! # New password hashes verify -/
namespace Kaplar.Crypto
variable {ρ : Type} [DecidableEq ρ] (blowfish : Blowfish) (pass : CString) {m : Memory ρ}
  {hash : ρ} {hashlen : ℕ} {c : List UInt8}

theorem cstring_hashString {s : SaltFields} (hsize : 29 + sextetCount c.length < m.size hash) :
    (m.write hash 0 (hashString s c).bytes).cstring hash = hashString s c := by
  apply Memory.cstring_write
  rwa [strlen_hashString]

/-- A hash is a salt for itself. -/
theorem readSalt_hashString (s : SaltFields) (c : List UInt8) :
    readSalt (hashString s c) = some s := readSalt_of_chars rfl

theorem hashCmp_self (h : CString) (len : ℕ) : hashCmp h h len = true := by
  simp [hashCmp]

/-- The hash string of a password and the fields of a salt. -/
def passwordHash (s : SaltFields) : CString :=
  hashString s (ctext blowfish pass s).toList

theorem generateHash_testHash {salt : CString} {s : SaltFields} (hs : readSalt salt = some s) :
    ∃ testHash, generateHash blowfish pass salt () bcryptHashStrlen
        (localArray bcryptHashStrlen) = some (true,testHash) ∧
      testHash.cstring () = passwordHash blowfish pass s :=
  ⟨_,generateHash_run blowfish (Nat.le_refl _) (Nat.le_refl _) hs,
    cstring_hashString (by rw [Vector.length_toList]; decide)⟩

theorem bcryptCheckpass_eq {h : CString} {s : SaltFields} (hs : readSalt h = some s) :
    bcryptCheckpass blowfish pass h = some (h.strlen == (passwordHash blowfish pass s).strlen &&
      hashCmp h (passwordHash blowfish pass s) h.strlen) := by
  obtain ⟨testHash,hrun,hstring⟩ := generateHash_testHash blowfish pass hs
  rw [bcryptCheckpass, hrun, ← hstring]

/-- What was generated for a password is generated for it again from the hash as a salt. -/
theorem bcryptCheckpass_passwordHash (s : SaltFields) :
    bcryptCheckpass blowfish pass (passwordHash blowfish pass s) = some true := by
  have hs : readSalt (passwordHash blowfish pass s) = some s := readSalt_hashString s _
  rw [bcryptCheckpass_eq blowfish pass hs]
  simp [hashCmp_self]

/-! ## New salts -/

/-- The cost that is used for one asked for. -/
def clampedCost (logr : ℤ) : ℕ := (if logr < 4 then 4 else if logr > 31 then 31 else logr).toNat

theorem four_le_clampedCost (logr : ℤ) : 4 ≤ clampedCost logr := by
  unfold clampedCost
  split_ifs <;> omega

theorem clampedCost_le_31 (logr : ℤ) : clampedCost logr ≤ 31 := by
  unfold clampedCost
  split_ifs <;> omega

theorem toNat_clampedCost (logr : ℤ) : (UInt8.ofNat (clampedCost logr)).toNat = clampedCost logr := by
  have hle := clampedCost_le_31 logr
  rw [UInt8.toNat_ofNat_of_lt' (Nat.lt_of_le_of_lt hle (by decide))]

theorem b_mem_minors : chr 'b' = chr 'b' ∨ chr 'b' = chr 'a' := .inl rfl

/-- The fields of a new salt. -/
def newFields (csalt : Vector UInt8 bcryptSaltLen) (logr : ℤ) : SaltFields where
  minor := chr 'b'
  logr := UInt8.ofNat (clampedCost logr)
  csalt := csalt.toList
  minor_mem := b_mem_minors
  four_le := by
    rw [UInt8.le_iff_toNat_le, toNat_clampedCost]
    exact four_le_clampedCost logr
  le_31 := by
    rw [UInt8.le_iff_toNat_le, toNat_clampedCost]
    exact clampedCost_le_31 logr
  length_csalt := Vector.length_toList

variable {csalt : Vector UInt8 bcryptSaltLen} {logr : ℤ}

/-- The new salt is a hash string without the hash. -/
theorem generateSalt_run :
    generateSalt csalt logr () bcryptSaltStrlen (localArray bcryptSaltStrlen) = some (true,
      (localArray bcryptSaltStrlen).write () 0 (hashString (newFields csalt logr) []).bytes) := by
  let s := newFields csalt logr
  have hcost : clampedCost logr = s.logr.toNat := (toNat_clampedCost logr).symm
  have hheader : 0 + (header s.minor s.logr.toNat ++ [0]).length ≤ bcryptSaltStrlen := by
    rw [List.length_append, length_header s.logr_lt]
    decide
  have hsalt : 7 + (base64Encode s.csalt).length ≤ bcryptSaltStrlen := by
    rw [length_base64Encode, s.length_csalt]
    decide
  rw [generateSalt, if_neg (by decide)]
  change (do
    storeBytes () 0 (header s.minor (clampedCost logr) ++ [0])
    storeBytes () 7 (base64Encode s.csalt)
    pure true : MemM Unit Bool) _ = _
  rw [hcost, bind_run (storeBytes_run (by exact hheader)),
    bind_run (storeBytes_run (by exact hsalt)), saltString_write]
  rfl

theorem bcryptNewhash_run (h62 : bcryptHashStrlen ≤ hashlen) (hsize : hashlen ≤ m.size hash) :
    bcryptNewhash blowfish csalt pass logr hash hashlen m =
      some (true,m.write hash 0 (passwordHash blowfish pass (newFields csalt logr)).bytes) := by
  rw [bcryptNewhash, generateSalt_run]
  simp only
  rw [cstring_hashString (by decide)]
  exact generateHash_run blowfish h62 hsize (readSalt_hashString _ _)

theorem bcryptCheckpass_newhash (csalt : Vector UInt8 bcryptSaltLen) (logr : ℤ) (m : Memory ρ)
    (hash : ρ) {hashlen : ℕ} (h62 : 62 ≤ hashlen) (hsize : hashlen ≤ m.size hash) :
    ∃ m', bcryptNewhash blowfish csalt pass logr hash hashlen m = some (true,m') ∧
      bcryptCheckpass blowfish pass (m'.cstring hash) = some true := by
  refine ⟨_,bcryptNewhash_run blowfish pass h62 hsize,?_⟩
  rw [passwordHash, cstring_hashString (by rw [Vector.length_toList]; exact h62.trans hsize)]
  exact bcryptCheckpass_passwordHash blowfish pass (newFields csalt logr)

theorem bcryptCheckpass_newhash_array : ∃ m',
    bcryptNewhash (fun _ _ _ => Vector.replicate 24 0) (Vector.replicate 16 0x5A) ⟨[112,119],by decide⟩
      10 () 62 (localArray 62) = some (true,m') ∧
    bcryptCheckpass (fun _ _ _ => Vector.replicate 24 0) ⟨[112,119],by decide⟩ (m'.cstring ()) =
      some true :=
  bcryptCheckpass_newhash _ _ _ _ _ _ (by decide) (by decide)

end Kaplar.Crypto
