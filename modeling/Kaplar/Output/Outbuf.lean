import Kaplar.Foundation.Memory

/-! # Output buffers

The write pointer of an outbuf is an offset from its base; every write function
returns where it moved it.
-/
namespace Kaplar.Output
variable {ρ : Type} [DecidableEq ρ]

/-- `MAX_OUTBUF_LEN`, for the size of a pointer. -/
def maxOutbufLen (ptrSize : ℕ) : ℕ := 16384 - 2 * ptrSize

def outbufWriteByte (buf : ρ) (ptr : ℕ) (val : UInt8) : MemM ρ ℕ := do
  store buf ptr val
  pure (ptr + 1)

def outbufWriteU16 (buf : ρ) (ptr : ℕ) (val : UInt16) : MemM ρ ℕ := do
  encodeU16le buf ptr val
  pure (ptr + 2)

def outbufWriteU32 (buf : ρ) (ptr : ℕ) (val : UInt32) : MemM ρ ℕ := do
  encodeU32le buf ptr val
  pure (ptr + 4)

def outbufWriteLstr (buf : ρ) (ptr : ℕ) (s : List UInt8) (len : ℕ) : MemM ρ ℕ := do
  encodeU16le buf ptr (UInt16.ofNat len)
  if 0 < len then storeBytes buf (ptr + 2) (s.take len)
  pure (ptr + (len + 2))

/-- A string is the list of its bytes, without the terminator. -/
def outbufWriteStr (buf : ρ) (ptr : ℕ) (s : List UInt8) : MemM ρ ℕ :=
  outbufWriteLstr buf ptr s s.length

/-- A call of one of the write functions. -/
inductive OutWrite where
  | byte (val : UInt8)
  | u16 (val : UInt16)
  | u32 (val : UInt32)
  | str (s : List UInt8)

namespace OutWrite

def run (buf : ρ) (ptr : ℕ) : OutWrite → MemM ρ ℕ
  | byte val => outbufWriteByte buf ptr val
  | u16 val => outbufWriteU16 buf ptr val
  | u32 val => outbufWriteU32 buf ptr val
  | str s => outbufWriteStr buf ptr s

def bytes : OutWrite → List UInt8
  | byte val => [val]
  | u16 val => bytes16 val
  | u32 val => bytes32 val
  | str s => bytes16 (UInt16.ofNat s.length) ++ s

def runAll (buf : ρ) : ℕ → List OutWrite → MemM ρ ℕ
  | ptr, [] => pure ptr
  | ptr, w :: ws => do
    let ptr ← w.run buf ptr
    runAll buf ptr ws

def payload (ws : List OutWrite) : List UInt8 := ws.flatMap bytes

variable {m : Memory ρ} {buf : ρ} {ptr : ℕ}

theorem run_eq (w : OutWrite) (h : ptr + w.bytes.length ≤ m.size buf) :
    w.run buf ptr m = some (ptr + w.bytes.length,m.write buf ptr w.bytes) := by
  cases w with
  | byte val =>
    exact bind_run (store_run h)
  | u16 val => exact bind_run (storeBytes_run h)
  | u32 val => exact bind_run (storeBytes_run h)
  | str s =>
    simp only [bytes, List.length_append, length_bytes16] at h
    have hlen : ptr + (s.length + 2) = ptr + (2 + s.length) := by omega
    have happ : (m.write buf ptr (bytes16 (UInt16.ofNat s.length))).write buf (ptr + 2) s =
        m.write buf ptr (bytes16 (UInt16.ofNat s.length) ++ s) :=
      Memory.write_append (l := bytes16 (UInt16.ofNat s.length))
    simp only [run, bytes, outbufWriteStr, outbufWriteLstr, List.length_append, length_bytes16,
      List.take_length]
    rw [encodeU16le, bind_run (storeBytes_run (by rw [length_bytes16]; omega)), hlen]
    by_cases hpos : 0 < s.length
    · rw [if_pos hpos, bind_run (storeBytes_run (by rw [Memory.size_write]; omega)), happ]
      rfl
    · obtain rfl : s = [] := List.length_eq_zero_iff.mp (by omega)
      rw [if_neg hpos, List.append_nil]
      rfl

theorem runAll_eq (ws : List OutWrite) (h : ptr + (payload ws).length ≤ m.size buf) :
    runAll buf ptr ws m = some (ptr + (payload ws).length,m.write buf ptr (payload ws)) := by
  induction ws generalizing m ptr with
  | nil => exact congrArg some (Prod.ext rfl Memory.write_nil.symm)
  | cons w ws ih =>
    have hpay : payload (w :: ws) = w.bytes ++ payload ws := List.flatMap_cons
    rw [hpay, List.length_append] at h ⊢
    rw [runAll, bind_run (w.run_eq (by omega)), ih (by rw [Memory.size_write]; omega),
      Memory.write_append, Nat.add_assoc]

end OutWrite

end Kaplar.Output
