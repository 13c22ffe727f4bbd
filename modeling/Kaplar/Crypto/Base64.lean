import Kaplar.Foundation.Sextets

/-! # Base 64 of password hashes

Another alphabet than usual, and no padding.
-/
namespace Kaplar.Crypto

/-- So many characters from one on. -/
def charsFrom (c : Char) (n : ℕ) : List UInt8 :=
  (List.range n).map (fun i => UInt8.ofNat (c.toNat + i))

def base64Table : List UInt8 :=
  charsFrom '.' 2 ++
  charsFrom 'A' 26 ++
  charsFrom 'a' 26 ++
  charsFrom '0' 10

def decode64Table : List UInt8 :=
  [0xFF, 0xFF, 0xFF, 0xFF, 0xFF, 0xFF, 0xFF, 0xFF,
   0xFF, 0xFF, 0xFF, 0xFF, 0xFF, 0xFF, 0xFF, 0xFF,
   0xFF, 0xFF, 0xFF, 0xFF, 0xFF, 0xFF, 0xFF, 0xFF,
   0xFF, 0xFF, 0xFF, 0xFF, 0xFF, 0xFF, 0xFF, 0xFF,
   0xFF, 0xFF, 0xFF, 0xFF, 0xFF, 0xFF, 0xFF, 0xFF,
   0xFF, 0xFF, 0xFF, 0xFF, 0xFF, 0xFF, 0x00, 0x01,
   0x36, 0x37, 0x38, 0x39, 0x3A, 0x3B, 0x3C, 0x3D,
   0x3E, 0x3F, 0xFF, 0xFF, 0xFF, 0xFF, 0xFF, 0xFF,
   0xFF, 0x02, 0x03, 0x04, 0x05, 0x06, 0x07, 0x08,
   0x09, 0x0A, 0x0B, 0x0C, 0x0D, 0x0E, 0x0F, 0x10,
   0x11, 0x12, 0x13, 0x14, 0x15, 0x16, 0x17, 0x18,
   0x19, 0x1A, 0x1B, 0xFF, 0xFF, 0xFF, 0xFF, 0xFF,
   0xFF, 0x1C, 0x1D, 0x1E, 0x1F, 0x20, 0x21, 0x22,
   0x23, 0x24, 0x25, 0x26, 0x27, 0x28, 0x29, 0x2A,
   0x2B, 0x2C, 0x2D, 0x2E, 0x2F, 0x30, 0x31, 0x32,
   0x33, 0x34, 0x35, 0xFF, 0xFF, 0xFF, 0xFF, 0xFF] ++
  -- the sixteen rows for the characters from 0x80 on
  List.replicate 128 0xFF

def base64 (i : UInt8) : UInt8 := base64Table.getD i.toNat 0
def decode64 (c : UInt8) : UInt8 := decode64Table.getD c.toNat 0xFF

/-- `base64_encode`: all bytes written, with the terminator. It always returns true. -/
def base64Encode : List UInt8 → List UInt8
  | [] => [0x00]
  | [p0] => [base64 (p0 >>> 2),base64 ((p0 &&& 0x03) <<< 4),0x00]
  | [p0,p1] =>
    [base64 (p0 >>> 2),base64 (((p0 &&& 0x03) <<< 4) ||| ((p1 >>> 4) &&& 0x0F)),
      base64 ((p1 &&& 0x0F) <<< 2),0x00]
  | p0 :: p1 :: p2 :: p =>
    base64 (p0 >>> 2) :: base64 (((p0 &&& 0x03) <<< 4) ||| ((p1 >>> 4) &&& 0x0F)) ::
      base64 (((p1 &&& 0x0F) <<< 2) ||| ((p2 >>> 6) &&& 0x03)) :: base64 (p2 &&& 0x3F) ::
        base64Encode p

/-- `base64_decode`: the `len` bytes, if it returns true. -/
def base64Decode : ℕ → List UInt8 → Option (List UInt8)
  | 0, _ => some []
  | 1, p0 :: p1 :: _ =>
    let c1 := decode64 p0
    let c2 := decode64 p1
    if c1 = 0xFF ∨ c2 = 0xFF then none
    else some [(c1 <<< 2) ||| ((c2 >>> 4) &&& 0x03)]
  | 2, p0 :: p1 :: p2 :: _ =>
    let c1 := decode64 p0
    let c2 := decode64 p1
    let c3 := decode64 p2
    if c1 = 0xFF ∨ c2 = 0xFF ∨ c3 = 0xFF then none
    else some [(c1 <<< 2) ||| ((c2 >>> 4) &&& 0x03),
      ((c2 &&& 0x0F) <<< 4) ||| ((c3 >>> 2) &&& 0x0F)]
  | len + 3, p0 :: p1 :: p2 :: p3 :: p =>
    let c1 := decode64 p0
    let c2 := decode64 p1
    let c3 := decode64 p2
    let c4 := decode64 p3
    if c1 = 0xFF ∨ c2 = 0xFF ∨ c3 = 0xFF ∨ c4 = 0xFF then none
    else (base64Decode len p).map (fun out =>
      ((c1 <<< 2) ||| ((c2 >>> 4) &&& 0x03)) :: (((c2 &&& 0x0F) <<< 4) ||| ((c3 >>> 2) &&& 0x0F)) ::
        (((c3 &&& 0x03) <<< 6) ||| c4) :: out)
  -- the string ends before the bytes do, and its terminator is no character of the table
  | _, _ => none

theorem length_base64Decode {n : ℕ} {p d : List UInt8} (h : base64Decode n p = some d) :
    d.length = n := by
  fun_induction base64Decode n p generalizing d with
  | case1 | case3 | case5 =>
    cases h
    rfl
  | case2 | case4 | case6 | case8 => cases h
  | case7 =>
    rename_i ih
    obtain ⟨out,hout,rfl⟩ := Option.map_eq_some_iff.mp h
    rw [List.length_cons, List.length_cons, List.length_cons, ih hout]

/-! ## The tables -/

theorem forall_byte {p : UInt8 → Prop} (h : ∀ i : Fin 256, p (UInt8.ofNat i)) (c : UInt8) : p c := by
  have hc := h ⟨c.toNat,c.toNat_lt⟩
  rwa [UInt8.ofNat_toNat] at hc

theorem decode64_base64 {i : UInt8} : i < 64 → decode64 (base64 i) = i := by
  revert i
  apply forall_byte
  decide +kernel

theorem base64_decode64 {c : UInt8} : decode64 c ≠ 0xFF → base64 (decode64 c) = c := by
  revert c
  apply forall_byte
  decide +kernel

theorem ne_of_lt_64 {c : UInt8} (h : c < 64) : c ≠ 0xFF := by
  rintro rfl
  exact absurd h (by decide)

theorem base64_ne {i c : UInt8} (hi : i < 64) (hc : decode64 c = 0xFF) : base64 i ≠ c := by
  intro h
  rw [← h, decode64_base64 hi] at hc
  exact ne_of_lt_64 hi hc

/-! ## Encoding and decoding are the regrouping of bits through the tables -/

/-- An encoded string without its terminator. -/
def encoded (d : List UInt8) : List UInt8 := (sextets d).map base64

@[simp] theorem length_encoded (d : List UInt8) : (encoded d).length = sextetCount d.length := by
  rw [encoded, List.length_map, length_sextets]

theorem base64Encode_eq (d : List UInt8) : base64Encode d = encoded d ++ [0] := by
  induction d using base64Encode.induct with
  | case1 => rfl
  | case2 p0 => rfl
  | case3 p0 p1 => rfl
  | case4 p0 p1 p2 p ih =>
    rw [base64Encode, ih]
    rfl

@[simp] theorem length_base64Encode (d : List UInt8) :
    (base64Encode d).length = sextetCount d.length + 1 := by
  rw [base64Encode_eq, List.length_append, length_encoded]
  rfl

theorem not_mem_encoded {c : UInt8} (hc : decode64 c = 0xFF) (d : List UInt8) : c ∉ encoded d := by
  intro h
  obtain ⟨i,hi,rfl⟩ := List.mem_map.mp h
  exact base64_ne (sextets_lt d i hi) hc rfl

theorem ite_bad {l : List UInt8} {bad : Prop} [Decidable bad] {α : Type} {out : Option α}
    (hbad : bad ↔ ∃ c ∈ l, decode64 c = 0xFF) : (if bad then none else out) =
      if ∀ c ∈ l, decode64 c ≠ 0xFF then out else none := by
  have hgood : ¬ bad ↔ ∀ c ∈ l, decode64 c ≠ 0xFF := by
    rw [hbad]
    push Not
    rfl
  by_cases h : bad
  · rw [if_pos h, if_neg (fun hall => hgood.mpr hall h)]
  · rw [if_neg h, if_pos (hgood.mp h)]

/-- What is accepted are characters of the table, as many as there are groups. -/
theorem base64Decode_eq {n : ℕ} {p : List UInt8} (h : sextetCount n ≤ p.length) :
    base64Decode n p = if ∀ c ∈ p.take (sextetCount n), decode64 c ≠ 0xFF
      then some (octets n (p.map decode64)) else none := by
  induction n, p using octets.induct with
  | case1 p0 p1 p => exact ite_bad (l := [p0,p1]) (by simp)
  | case2 p0 p1 p2 p => exact ite_bad (l := [p0,p1,p2]) (by simp)
  | case3 n p0 p1 p2 p3 p ih =>
    have hcount : sextetCount (n + 3) = sextetCount n + 4 := by
      unfold sextetCount
      omega
    have hp : sextetCount n ≤ p.length := by
      simp only [hcount, List.length_cons] at h
      omega
    have hsplit : (∀ c ∈ (p0 :: p1 :: p2 :: p3 :: p).take (sextetCount n + 4),
        decode64 c ≠ 0xFF) ↔ (∀ c ∈ [p0,p1,p2,p3], decode64 c ≠ 0xFF) ∧
          ∀ c ∈ p.take (sextetCount n), decode64 c ≠ 0xFF := by
      rw [← List.forall_mem_append]
      rfl
    rw [base64Decode, ite_bad (l := [p0,p1,p2,p3]) (by simp), ih hp, hcount]
    by_cases hfirst : ∀ c ∈ [p0,p1,p2,p3], decode64 c ≠ 0xFF
    · by_cases hrest : ∀ c ∈ p.take (sextetCount n), decode64 c ≠ 0xFF
      · rw [if_pos hfirst, if_pos hrest, if_pos (hsplit.mpr ⟨hfirst,hrest⟩)]
        rfl
      · rw [if_pos hfirst, if_neg hrest, if_neg (fun hall => hrest (hsplit.mp hall).2)]
        rfl
    · rw [if_neg hfirst, if_neg (fun hall => hfirst (hsplit.mp hall).1)]
  -- only no bytes at all: there are enough characters for the other counts
  | case4 n p hone htwo hthree =>
    match n, p with
    | 0, p => simp [base64Decode,octets,sextetCount]
    | 1, p0 :: p1 :: p => exact absurd rfl (hone p0 p1 p rfl)
    | 2, p0 :: p1 :: p2 :: p => exact absurd rfl (htwo p0 p1 p2 p rfl)
    | n + 3, p0 :: p1 :: p2 :: p3 :: p => exact absurd rfl (hthree n p0 p1 p2 p3 p rfl)
    | 1, [] | 1, [p0] | 2, [] | 2, [p0] | 2, [p0,p1] => simp [sextetCount] at h
    | n + 3, [] | n + 3, [p0] | n + 3, [p0,p1] | n + 3, [p0,p1,p2] =>
      simp only [sextetCount, List.length_cons, List.length_nil] at h
      omega

theorem decode64_map_base64 {c : List UInt8} (h : ∀ i ∈ c, i < 64) :
    (c.map base64).map decode64 = c := by
  rw [List.map_map]
  exact (List.map_congr_left (fun i hi => decode64_base64 (h i hi))).trans (List.map_id c)

/-- An encoded string decodes to its bytes, whatever follows. -/
theorem base64Decode_encoded (d rest : List UInt8) :
    base64Decode d.length (encoded d ++ rest) = some d := by
  have hgood : ∀ c ∈ encoded d, decode64 c ≠ 0xFF := by
    intro c hc hbad
    exact not_mem_encoded hbad d hc
  rw [base64Decode_eq (by simp), ← length_encoded, List.take_left, if_pos hgood, List.map_append,
    encoded, decode64_map_base64 (sextets_lt d), octets_sextets]

/-! ## The characters of the alphabet -/

theorem base64_mem {i : UInt8} (h : base64 i ≠ 0) : base64 i ∈ base64Table := by
  rw [base64, List.getD_eq_getElem?_getD] at h ⊢
  cases hi : base64Table[i.toNat]? with
  | none =>
    rw [hi] at h
    exact absurd rfl h
  | some c => exact List.mem_of_getElem? hi

theorem mem_base64Table_iff {c : UInt8} : c ∈ base64Table ↔ decode64 c ≠ 0xFF := by
  constructor
  · intro hc
    obtain ⟨i,hi,hget⟩ := List.mem_iff_getElem.mp hc
    have hlt : i < 64 := hi
    have hbyte : (UInt8.ofNat i).toNat = i := Nat.mod_eq_of_lt (by omega)
    have hchar : base64 (UInt8.ofNat i) = c := by
      rw [base64, hbyte, List.getD_eq_getElem?_getD, List.getElem?_eq_getElem hi, hget,
        Option.getD_some]
    have hsmall : UInt8.ofNat i < 64 := by
      apply UInt8.lt_iff_toNat_lt.mpr
      rwa [hbyte]
    rw [← hchar, decode64_base64 hsmall]
    exact ne_of_lt_64 hsmall
  · intro hc
    have hback : base64 (decode64 c) = c := base64_decode64 hc
    rw [← hback]
    apply base64_mem
    rw [hback]
    rintro rfl
    exact hc rfl

theorem mem_base64Table_of_encoded {c : UInt8} {d : List UInt8} (h : c ∈ encoded d) :
    c ∈ base64Table := by
  apply mem_base64Table_iff.mpr
  intro hbad
  exact not_mem_encoded hbad d h

theorem sextetCount_eq_ceilDiv (n : ℕ) : sextetCount n = 4 * n ⌈/⌉ 3 := rfl

theorem isSome_base64Decode {n : ℕ} {p : List UInt8} (h : sextetCount n ≤ p.length) :
    (base64Decode n p).isSome ↔ ∀ c ∈ p.take (sextetCount n), c ∈ base64Table := by
  have halphabet : (∀ c ∈ p.take (sextetCount n), c ∈ base64Table) ↔
      ∀ c ∈ p.take (sextetCount n), decode64 c ≠ 0xFF :=
    forall₂_congr (fun _ _ => mem_base64Table_iff)
  rw [base64Decode_eq h, halphabet]
  by_cases hgood : ∀ c ∈ p.take (sextetCount n), decode64 c ≠ 0xFF
  · rw [if_pos hgood]
    exact iff_of_true rfl hgood
  · rw [if_neg hgood]
    exact iff_of_false Bool.false_ne_true hgood

theorem base64_roundTrip_grammar (d : List UInt8) {n : ℕ} {p : List UInt8}
    (h : 4 * n ⌈/⌉ 3 ≤ p.length) :
    (∃ chars, base64Encode d = chars ++ [0] ∧ chars.length = 4 * d.length ⌈/⌉ 3 ∧
      (∀ c ∈ chars, c ∈ base64Table) ∧
      base64Decode d.length (base64Encode d) = some d) ∧
    ((base64Decode n p).isSome ↔ ∀ c ∈ p.take (4 * n ⌈/⌉ 3), c ∈ base64Table) := by
  simp only [← sextetCount_eq_ceilDiv] at h ⊢
  refine ⟨⟨encoded d,base64Encode_eq d,length_encoded d,?_,?_⟩,isSome_base64Decode h⟩
  · intro c hc
    exact mem_base64Table_of_encoded hc
  · rw [base64Encode_eq]
    apply base64Decode_encoded

-- one byte, and two characters of which the second is not in the alphabet
theorem base64_roundTrip_grammar_one :
    (∃ chars, base64Encode [0x61] = chars ++ [0] ∧ chars.length = 4 * [(0x61 : UInt8)].length ⌈/⌉ 3 ∧
      (∀ c ∈ chars, c ∈ base64Table) ∧
      base64Decode [(0x61 : UInt8)].length (base64Encode [0x61]) = some [0x61]) ∧
    ((base64Decode 1 [0x61,0x3D]).isSome ↔
      ∀ c ∈ [(0x61 : UInt8),0x3D].take (4 * 1 ⌈/⌉ 3), c ∈ base64Table) :=
  base64_roundTrip_grammar [0x61] (by decide)

end Kaplar.Crypto
