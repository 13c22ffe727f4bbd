import Kaplar.Foundation.Memory

/-! # Length-prefixed strings of client messages -/
namespace Kaplar.Protocol
variable {ρ : Type} [DecidableEq ρ]

/-- `decode_tibia_string` into a buffer, with the 16-bit length of the C code. -/
def decodeTibiaString (data : ρ) (off : ℕ) (outstr : ρ) (maxlen : UInt16) : MemM ρ UInt16 := do
  let len ← decodeU16le data off
  if 0 < maxlen then
    if 0 < len then
      let copyLen := if maxlen ≤ len then maxlen - 1 else len
      memcpy outstr 0 data (off + 2) copyLen.toNat
      store outstr copyLen.toNat 0
    else
      store outstr 0 0
  -- not the length copied: the sum wraps for the two largest lengths
  pure (len + 2)

/-- The number of bytes copied for a declared length. -/
def copied (len maxlen : UInt16) : ℕ := min len.toNat (maxlen.toNat - 1)

theorem copied_lt (len : UInt16) {maxlen : UInt16} (h : 0 < maxlen) :
    copied len maxlen < maxlen.toNat := by
  have hpos := UInt16.lt_iff_toNat_lt.mp h
  rw [UInt16.toNat_zero] at hpos
  unfold copied
  omega

theorem toNat_copyLen {len maxlen : UInt16} (h : 0 < maxlen) :
    (if maxlen ≤ len then maxlen - 1 else len).toNat = copied len maxlen := by
  have hpos := UInt16.lt_iff_toNat_lt.mp h
  rw [UInt16.toNat_zero] at hpos
  have hone : (maxlen - 1).toNat = maxlen.toNat - 1 :=
    UInt16.toNat_sub_of_le _ _ (UInt16.le_iff_toNat_le.mpr hpos)
  unfold copied
  split
  · rename_i hle
    rw [UInt16.le_iff_toNat_le] at hle
    omega
  · rename_i hle
    rw [UInt16.le_iff_toNat_le] at hle
    omega

/-- The buffer with the string and its terminator. -/
def putString (m : Memory ρ) (data : ρ) (off : ℕ) (outstr : ρ) (maxlen : UInt16) : Memory ρ :=
  m.write outstr 0 (m.slice data (off + 2) (copied (m.u16 data off) maxlen) ++ [0])

section Runs
variable {m : Memory ρ} {data outstr : ρ} {off : ℕ} {maxlen : UInt16}

theorem decodeTibiaString_run (hmax : 0 < maxlen) (hout : maxlen.toNat ≤ m.size outstr)
    (hlen : off + 2 ≤ m.size data)
    (hsrc : off + 2 + copied (m.u16 data off) maxlen ≤ m.size data) :
    decodeTibiaString data off outstr maxlen m =
      some (m.u16 data off + 2,putString m data off outstr maxlen) := by
  have hlt := copied_lt (m.u16 data off) hmax
  rw [decodeTibiaString, bind_run (decodeU16le_run hlen), if_pos hmax]
  by_cases hpos : 0 < m.u16 data off
  · rw [if_pos hpos]
    simp only [toNat_copyLen hmax]
    rw [bind_run (memcpy_run hsrc (by omega)),
      bind_run (store_run (by rw [Memory.size_write]; omega))]
    have hlen : (m.slice data (off + 2) (copied (m.u16 data off) maxlen)).length =
        copied (m.u16 data off) maxlen := Memory.length_slice _ _ _ _
    have hw := Memory.write_append (m := m) (r := outstr) (o := 0) (k := [0])
      (l := m.slice data (off + 2) (copied (m.u16 data off) maxlen))
    rw [hlen, Nat.zero_add] at hw
    rw [hw]
    rfl
  · have hnone : copied (m.u16 data off) maxlen = 0 := by
      rw [UInt16.lt_iff_toNat_lt, UInt16.toNat_zero] at hpos
      unfold copied
      omega
    rw [if_neg hpos, bind_run (store_run (by omega)), putString, hnone]
    rfl

theorem decodeTibiaString_fault (hmax : 0 < maxlen)
    (hsrc : m.size data < off + 2 + copied (m.u16 data off) maxlen) :
    decodeTibiaString data off outstr maxlen m = none := by
  by_cases hlen : off + 2 ≤ m.size data
  · rw [decodeTibiaString, bind_run (decodeU16le_run hlen), if_pos hmax]
    have hpos : 0 < m.u16 data off := by
      apply UInt16.lt_iff_toNat_lt.mpr
      unfold copied at hsrc
      rw [UInt16.toNat_zero]
      omega
    rw [if_pos hpos]
    simp only [toNat_copyLen hmax]
    exact bind_fault (memcpy_fault (by omega) hsrc)
  · exact bind_fault (decodeU16le_fault (by omega))

theorem copied_le (len : UInt16) : copied len 32 ≤ 31 := Nat.min_le_right _ _

theorem decodeTibiaString_run_32 (hout : m.size outstr = 32) (hsrc : off + 33 ≤ m.size data) :
    decodeTibiaString data off outstr 32 m =
      some (m.u16 data off + 2,putString m data off outstr 32) := by
  have hcopied := copied_le (m.u16 data off)
  exact decodeTibiaString_run (by decide) (Nat.le_of_eq hout.symm) (by omega) (by omega)

end Runs

end Kaplar.Protocol
