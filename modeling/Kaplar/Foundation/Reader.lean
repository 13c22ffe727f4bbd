import Kaplar.Foundation.Memory

/-! # Readers of byte strings

A reader takes what it needs from the front of its input, or fails. What a reader
does to the bytes of a value leaves whatever follows them.
-/
namespace Kaplar

abbrev Reader := StateT (List UInt8) Option

namespace Reader
variable {α β : Type}

def byte : Reader UInt8
  | [] => none
  | b :: l => some (b,l)

def u16 : Reader UInt16 := do
  let b0 ← byte
  let b1 ← byte
  pure (u16le b0 b1)

def u32 : Reader UInt32 := do
  let b0 ← byte
  let b1 ← byte
  let b2 ← byte
  let b3 ← byte
  pure (u32le b0 b1 b2 b3)

def bytes (n : ℕ) : Reader (List UInt8) := fun l =>
  if n ≤ l.length then some (l.take n,l.drop n) else none

/-- A string behind its length. -/
def str : Reader (List UInt8) := do
  let len ← u16
  bytes len.toNat

/-- One given byte. -/
def tag (b : UInt8) : Reader Unit := do
  let b' ← byte
  if b' = b then pure () else failure

def many (r : Reader α) : ℕ → Reader (List α)
  | 0 => pure []
  | n + 1 => do
    let a ← r
    let as ← many r n
    pure (a :: as)

/-- Nothing is left over. -/
def parse (r : Reader α) (l : List UInt8) : Option α :=
  match r l with
  | some (a,[]) => some a
  | _ => none

variable {l : List UInt8}

theorem u16_run (v : UInt16) : u16 (bytes16 v ++ l) = some (v,l) := by
  change some (u16le v.toUInt8 (v >>> 8).toUInt8,l) = _
  rw [u16le_bytes16]

theorem u32_run (v : UInt32) : u32 (bytes32 v ++ l) = some (v,l) := by
  change some (u32le v.toUInt8 (v >>> 8).toUInt8 (v >>> 16).toUInt8 (v >>> 24).toUInt8,l) = _
  rw [u32le_bytes32]

theorem bytes_run (s : List UInt8) : bytes s.length (s ++ l) = some (s,l) := by
  rw [bytes, if_pos (by rw [List.length_append]; omega), List.take_left, List.drop_left]

theorem str_run {s : List UInt8} (h : s.length < 2 ^ 16) :
    str (bytes16 (UInt16.ofNat s.length) ++ s ++ l) = some (s,l) := by
  have hlen : (UInt16.ofNat s.length).toNat = s.length := UInt16.toNat_ofNat_of_lt' h
  rw [List.append_assoc, str, bind_run (u16_run _), hlen, bytes_run]

theorem tag_run (b : UInt8) : tag b (b :: l) = some ((),l) := by
  change (if b = b then pure () else failure : Reader Unit) l = _
  rw [if_pos rfl]
  rfl

/-- A reader that reads back every element reads back their concatenation. -/
theorem many_run {r : Reader β} {enc : α → List UInt8} {f : α → β} {as : List α}
    (h : ∀ a ∈ as, ∀ l, r (enc a ++ l) = some (f a,l)) :
    many r as.length (as.flatMap enc ++ l) = some (as.map f,l) := by
  induction as with
  | nil => rfl
  | cons a as ih =>
    have hrest : ∀ b ∈ as, ∀ l, r (enc b ++ l) = some (f b,l) :=
      fun b hb => h b (List.mem_cons_of_mem _ hb)
    rw [List.length_cons, List.flatMap_cons, List.append_assoc, many,
      bind_run (h a List.mem_cons_self _), bind_run (ih hrest)]
    rfl

theorem parse_eq_some {r : Reader α} {a : α} (h : r l = some (a,[])) : parse r l = some a := by
  rw [parse, h]

theorem parse_eq_none {r : Reader α} {a : α} {l' : List UInt8} (h : r l = some (a,l'))
    (hl : l' ≠ []) : parse r l = none := by
  rw [parse, h]
  cases l' with
  | nil => exact absurd rfl hl
  | cons b l' => rfl

end Reader

end Kaplar
