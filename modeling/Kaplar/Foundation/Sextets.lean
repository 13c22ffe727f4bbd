import Mathlib

/-! # Bytes and groups of six bits

Three bytes are four groups of six bits, the first bits first. A rest of one or two bytes
takes two or three groups, whose last bits are zero.
-/
namespace Kaplar

def sextets : List UInt8 → List UInt8
  | [] => []
  | [p0] => [p0 >>> 2,(p0 &&& 0x03) <<< 4]
  | [p0,p1] => [p0 >>> 2,((p0 &&& 0x03) <<< 4) ||| ((p1 >>> 4) &&& 0x0F),(p1 &&& 0x0F) <<< 2]
  | p0 :: p1 :: p2 :: p =>
    (p0 >>> 2) :: (((p0 &&& 0x03) <<< 4) ||| ((p1 >>> 4) &&& 0x0F)) ::
      (((p1 &&& 0x0F) <<< 2) ||| ((p2 >>> 6) &&& 0x03)) :: (p2 &&& 0x3F) :: sextets p

/-- So many bytes of groups that may be followed by others. -/
def octets : ℕ → List UInt8 → List UInt8
  | 1, c1 :: c2 :: _ => [(c1 <<< 2) ||| ((c2 >>> 4) &&& 0x03)]
  | 2, c1 :: c2 :: c3 :: _ =>
    [(c1 <<< 2) ||| ((c2 >>> 4) &&& 0x03),((c2 &&& 0x0F) <<< 4) ||| ((c3 >>> 2) &&& 0x0F)]
  | n + 3, c1 :: c2 :: c3 :: c4 :: c =>
    ((c1 <<< 2) ||| ((c2 >>> 4) &&& 0x03)) :: (((c2 &&& 0x0F) <<< 4) ||| ((c3 >>> 2) &&& 0x0F)) ::
      (((c3 &&& 0x03) <<< 6) ||| c4) :: octets n c
  | _, _ => []

/-- The number of groups of so many bytes: four thirds, rounded up. -/
def sextetCount (n : ℕ) : ℕ := (4 * n + 2) / 3

@[simp] theorem length_sextets (d : List UInt8) : (sextets d).length = sextetCount d.length := by
  induction d using sextets.induct with
  | case1 => rfl
  | case2 p0 => simp [sextets,sextetCount]
  | case3 p0 p1 => simp [sextets,sextetCount]
  | case4 p0 p1 p2 p ih =>
    simp only [sextets, List.length_cons, ih, sextetCount]
    omega

section Bits
variable {p p0 p1 p2 : UInt8}

theorem eq_of_bits {x y : UInt8} (h : ∀ i, (hi : i < 8) → x.toBitVec[i] = y.toBitVec[i]) : x = y :=
  UInt8.toBitVec_inj.mp (BitVec.eq_of_getElem_eq h)

theorem first_octet : ((p0 >>> 2) <<< 2) |||
    (((((p0 &&& 0x03) <<< 4) ||| ((p1 >>> 4) &&& 0x0F)) >>> 4) &&& 0x03) = p0 := by
  apply eq_of_bits
  intro i hi
  interval_cases i <;> simp

theorem second_octet : (((((p0 &&& 0x03) <<< 4) ||| ((p1 >>> 4) &&& 0x0F)) &&& 0x0F) <<< 4) |||
    (((((p1 &&& 0x0F) <<< 2) ||| ((p2 >>> 6) &&& 0x03)) >>> 2) &&& 0x0F) = p1 := by
  apply eq_of_bits
  intro i hi
  interval_cases i <;> simp

theorem third_octet : (((((p1 &&& 0x0F) <<< 2) ||| ((p2 >>> 6) &&& 0x03)) &&& 0x03) <<< 6) |||
    (p2 &&& 0x3F) = p2 := by
  apply eq_of_bits
  intro i hi
  interval_cases i <;> simp

/-- A rest is written as if zero bytes followed. -/
theorem last_of_one : ((p0 >>> 2) <<< 2) ||| ((((p0 &&& 0x03) <<< 4) >>> 4) &&& 0x03) = p0 := by
  simpa using @first_octet p0 0

theorem last_of_two : (((((p0 &&& 0x03) <<< 4) ||| ((p1 >>> 4) &&& 0x0F)) &&& 0x0F) <<< 4) |||
    ((((p1 &&& 0x0F) <<< 2) >>> 2) &&& 0x0F) = p1 := by
  simpa using @second_octet p0 p1 0

/-- The two bits of a group that are not used are zero. -/
theorem sextet_lt {c : UInt8} (h : c &&& 0x3F = c) : c < 64 := by
  rw [← h, UInt8.lt_iff_toNat_lt, UInt8.toNat_and]
  exact Nat.and_le_right.trans_lt (by decide)

theorem first_lt : p0 >>> 2 < 64 := by
  apply sextet_lt
  apply eq_of_bits
  intro i hi
  interval_cases i <;> simp

theorem second_lt : ((p0 &&& 0x03) <<< 4) ||| ((p1 >>> 4) &&& 0x0F) < 64 := by
  apply sextet_lt
  apply eq_of_bits
  intro i hi
  interval_cases i <;> simp

theorem third_lt : ((p1 &&& 0x0F) <<< 2) ||| ((p2 >>> 6) &&& 0x03) < 64 := by
  apply sextet_lt
  apply eq_of_bits
  intro i hi
  interval_cases i <;> simp

theorem fourth_lt : p2 &&& 0x3F < 64 := by
  apply sextet_lt
  rw [UInt8.and_assoc, UInt8.and_self]

theorem second_last_lt : (p0 &&& 0x03) <<< 4 < 64 := by
  simpa using @second_lt p0 0

theorem third_last_lt : (p1 &&& 0x0F) <<< 2 < 64 := by
  simpa using @third_lt p1 0

end Bits

theorem octets_sextets (d rest : List UInt8) : octets d.length (sextets d ++ rest) = d := by
  induction d using sextets.induct with
  | case1 => rfl
  | case2 p0 =>
    change [_] = [p0]
    rw [last_of_one]
  | case3 p0 p1 =>
    change [_,_] = [p0,p1]
    rw [first_octet, last_of_two]
  | case4 p0 p1 p2 p ih =>
    change _ :: _ :: _ :: octets p.length (sextets p ++ rest) = p0 :: p1 :: p2 :: p
    rw [first_octet, second_octet, third_octet, ih]

/-- Every group has six bits. -/
theorem sextets_lt (d : List UInt8) : ∀ c ∈ sextets d, c < 64 := by
  induction d using sextets.induct with
  | case1 => simp [sextets]
  | case2 p0 => simp [sextets,first_lt,second_last_lt]
  | case3 p0 p1 => simp [sextets,first_lt,second_lt,third_last_lt]
  | case4 p0 p1 p2 p ih =>
    rw [sextets]
    simp only [List.forall_mem_cons]
    exact ⟨first_lt,second_lt,third_lt,fourth_lt,ih⟩

end Kaplar
