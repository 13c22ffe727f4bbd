import Kaplar.Output.OutputFrame

/-! # Messages that do not fit

Without the debug assertions nothing but the size of the buffer stops a write, so a
message is written inside its buffer exactly if all of it fits, with the header in
front and the padding behind.
-/
namespace Kaplar.Output
open Kaplar.Crypto
variable {ρ : Type} [DecidableEq ρ] {m : Memory ρ} {buf : ρ} {ptr : ℕ}

namespace OutWrite

theorem run_fault (w : OutWrite) (h : m.size buf < ptr + w.bytes.length) :
    w.run buf ptr m = none := by
  cases w with
  | byte val => exact bind_fault (if_neg (Nat.not_lt_of_le (Nat.le_of_lt_succ h)))
  | u16 val => exact bind_fault (storeBytes_fault (List.cons_ne_nil _ _) h)
  | u32 val => exact bind_fault (storeBytes_fault (List.cons_ne_nil _ _) h)
  | str s =>
    simp only [bytes, List.length_append, length_bytes16] at h
    simp only [run, outbufWriteStr, outbufWriteLstr, List.take_length]
    by_cases hlen : ptr + 2 ≤ m.size buf
    · -- the length fits, so it is a byte of the string that does not
      have hpos : 0 < s.length := by omega
      rw [encodeU16le, bind_run (storeBytes_run hlen), if_pos hpos]
      refine bind_fault (storeBytes_fault (List.ne_nil_of_length_pos hpos) ?_)
      rw [Memory.size_write]
      omega
    · exact bind_fault (storeBytes_fault (List.cons_ne_nil _ _) (Nat.lt_of_not_le hlen))

theorem runAll_fault (ws : List OutWrite) (hp : ptr ≤ m.size buf)
    (h : m.size buf < ptr + (payload ws).length) : runAll buf ptr ws m = none := by
  induction ws generalizing m ptr with
  | nil => exact absurd h (Nat.not_lt_of_le hp)
  | cons w ws ih =>
    have hpay : payload (w :: ws) = w.bytes ++ payload ws := List.flatMap_cons
    rw [hpay, List.length_append] at h
    by_cases hw : ptr + w.bytes.length ≤ m.size buf
    · rw [runAll, bind_run (w.run_eq hw)]
      exact ih hw (by rw [Memory.size_write]; omega)
    · exact bind_fault (w.run_fault (Nat.lt_of_not_le hw))

end OutWrite

theorem outbufPad_fault (n : ℕ) (hp : ptr ≤ m.size buf) (h : m.size buf < ptr + n) :
    outbufPad buf n ptr m = none := by
  induction n generalizing m ptr with
  | zero => exact absurd h (Nat.not_lt_of_le hp)
  | succ n ih =>
    by_cases hb : ptr + 1 ≤ m.size buf
    · have hbyte : outbufWriteByte buf ptr 0x33 m = some (ptr + 1,m.write buf ptr [0x33]) :=
        OutWrite.run_eq (OutWrite.byte 0x33) hb
      rw [outbufPad, bind_run hbyte]
      exact ih hb (by rw [Memory.size_write]; omega)
    · exact bind_fault (OutWrite.run_fault (OutWrite.byte 0x33) (Nat.lt_of_not_le hb))

theorem outbufWrap_fault (xtea : XteaKey) {n : ℕ} (hp : 8 + n ≤ m.size buf)
    (h : m.size buf < 8 + n + paddingOf (n + 2)) : outbufWrap buf (8 + n) xtea m = none := by
  have hpadding : (8 - (8 + n - 6 &&& 7)) &&& 7 = paddingOf (n + 2) := by
    rw [and_seven, and_seven, paddingOf]
    congr 3
    omega
  rw [outbufWrap]
  simp only [hpadding]
  rw [encodeU16le, bind_run (storeBytes_run (by rw [length_bytes16]; omega))]
  exact bind_fault (outbufPad_fault _ hp h)

/-- A payload with its header and its padding. -/
def frameSize (payload : List UInt8) : ℕ := 8 + payload.length + paddingOf (payload.length + 2)

theorem frameSize_le (payload : List UInt8) : frameSize payload ≤ payload.length + 15 := by
  have hlt : paddingOf (payload.length + 2) < 8 := Nat.mod_lt _ (by decide)
  unfold frameSize
  omega

/-- A message is written inside its buffer exactly if its frame fits. -/
theorem wrapped_isSome_iff (xtea : XteaKey) (ws : List OutWrite) (hbuf : 8 ≤ m.size buf) :
    ((do
      let ptr ← OutWrite.runAll buf outbufPrepare ws
      outbufWrap buf ptr xtea) m).isSome = true ↔
      frameSize (OutWrite.payload ws) ≤ m.size buf := by
  by_cases hpay : 8 + (OutWrite.payload ws).length ≤ m.size buf
  · have hrun : OutWrite.runAll buf outbufPrepare ws m = some (8 + (OutWrite.payload ws).length,
        m.write buf 8 (OutWrite.payload ws)) := OutWrite.runAll_eq ws hpay
    rw [bind_run hrun]
    by_cases hfit : frameSize (OutWrite.payload ws) ≤ m.size buf
    · obtain ⟨m',hwrap,_⟩ := outbufWrap_run xtea m buf hfit
      exact iff_of_true (Option.isSome_iff_exists.mpr ⟨_,hwrap⟩) hfit
    · have hfault := outbufWrap_fault xtea (m := m.write buf 8 (OutWrite.payload ws)) hpay
        (Nat.lt_of_not_le hfit)
      rw [hfault]
      exact iff_of_false Bool.false_ne_true hfit
  · have hfault : OutWrite.runAll buf outbufPrepare ws m = none :=
      OutWrite.runAll_fault ws hbuf (Nat.lt_of_not_le hpay)
    have hfit : ¬ frameSize (OutWrite.payload ws) ≤ m.size buf := by
      unfold frameSize
      omega
    rw [bind_fault hfault]
    exact iff_of_false Bool.false_ne_true hfit

end Kaplar.Output
