import Kaplar.Foundation.MemoryPairs

/-! # Blowfish

All block loops load both words of a block and store both results at its start, so that
the second result is what stays there and the second word of the block is never written.
-/
namespace Kaplar.Crypto

structure BlowfishCtx where
  P : Fin 18 → UInt32
  S : Fin 1024 → UInt32

namespace BlowfishCtx

def p (b : BlowfishCtx) (i : ℕ) : UInt32 := b.P (Fin.ofNat 18 i)
def s (b : BlowfishCtx) (i : UInt32) : UInt32 := b.S (Fin.ofNat 1024 i.toNat)

def setP (b : BlowfishCtx) (i : ℕ) (x : UInt32) : BlowfishCtx :=
  { b with P := Function.update b.P (Fin.ofNat 18 i) x }

def setS (b : BlowfishCtx) (i : ℕ) (x : UInt32) : BlowfishCtx :=
  { b with S := Function.update b.S (Fin.ofNat 1024 i) x }

def f (b : BlowfishCtx) (x : UInt32) : UInt32 :=
  ((b.s (x >>> 24 &&& 0xFF) + b.s ((x >>> 16 &&& 0xFF) + 256)) ^^^ b.s ((x >>> 8 &&& 0xFF) + 512)) +
    b.s ((x &&& 0xFF) + 768)

/-- An iteration of `encode_one`: two rounds. -/
def encodeRounds (b : BlowfishCtx) (d : UInt32 × UInt32) (i : ℕ) : UInt32 × UInt32 :=
  let l := d.1 ^^^ b.p i
  let r := d.2 ^^^ b.f l
  let r := r ^^^ b.p (i + 1)
  let l := l ^^^ b.f r
  (l,r)

def encodeOne (b : BlowfishCtx) (d : UInt32 × UInt32) : UInt32 × UInt32 :=
  let (l,r) := [0,2,4,6,8,10,12,14].foldl b.encodeRounds d
  (r ^^^ b.p 17,l ^^^ b.p 16)

def decodeRounds (b : BlowfishCtx) (d : UInt32 × UInt32) (i : ℕ) : UInt32 × UInt32 :=
  let l := d.1 ^^^ b.p (i + 1)
  let r := d.2 ^^^ b.f l
  let r := r ^^^ b.p i
  let l := l ^^^ b.f r
  (l,r)

def decodeOne (b : BlowfishCtx) (d : UInt32 × UInt32) : UInt32 × UInt32 :=
  let (l,r) := [16,14,12,10,8,6,4,2].foldl b.decodeRounds d
  (r ^^^ b.p 0,l ^^^ b.p 1)

end BlowfishCtx

open BlowfishCtx

/-- `ROUND_TO_8` -/
def roundTo8 (x : ℕ) : ℕ := (x + 7) / 8 * 8

section Loops
variable {ρ : Type} [DecidableEq ρ] (g : UInt32 × UInt32 → UInt32 × UInt32) (data : ρ)

/-- What all loops do with a block. -/
def codePair (off : ℕ) : MemM ρ Unit := do
  let d0 ← decodeU32be data off
  let d1 ← decodeU32be data (off + 4)
  encodeU32be data off (g (d0,d1)).1
  encodeU32be data off (g (d0,d1)).2

/-- The loop of the functions that treat every block on its own. -/
def ecbLoop : ℕ → ℕ → MemM ρ Unit
  | _, 0 => pure ()
  | off, len + 8 => do
    codePair g data off
    ecbLoop (off + 8) len
  -- lengths are rounded before
  | _, _ + 1 => fun _ => none

/-- `data[i] ^= iv[i]` -/
def xorBytes (off : ℕ) (iv : ρ) (ivoff : ℕ) : ℕ → MemM ρ Unit
  | 0 => pure ()
  | n + 1 => do
    let x ← load data off
    let y ← load iv ivoff
    store data off (x ^^^ y)
    xorBytes (off + 1) iv (ivoff + 1) n

/-- The block just written is the `iv` of the next one. -/
def cbcEncodeLoop : ρ → ℕ → ℕ → ℕ → MemM ρ Unit
  | _, _, _, 0 => pure ()
  | iv, ivoff, off, len + 8 => do
    xorBytes data off iv ivoff 8
    codePair g data off
    cbcEncodeLoop data off (off + 8) len
  | _, _, _, _ + 1 => fun _ => none

/-- From the last block to the first, whose predecessor is the `iv`. -/
def cbcDecodeLoop (iv : ρ) (ivoff start : ℕ) : ℕ → MemM ρ Unit
  | 0 => pure ()
  | len + 8 => do
    let off := start + len
    codePair g data off
    if len + 8 > 8 then xorBytes data off data (off - 8) 8
    else xorBytes data off iv ivoff 8
    cbcDecodeLoop iv ivoff start len
  | _ + 1 => fun _ => none

variable (b : BlowfishCtx)

def blowfishEcbEncode (off len : ℕ) : MemM ρ Unit := ecbLoop b.encodeOne data off (roundTo8 len)
def blowfishEcbDecode (off len : ℕ) : MemM ρ Unit := ecbLoop b.decodeOne data off (roundTo8 len)

def blowfishCbcEncode (iv : ρ) (ivoff off len : ℕ) : MemM ρ Unit :=
  cbcEncodeLoop b.encodeOne data iv ivoff off (roundTo8 len)

def blowfishCbcDecode (iv : ρ) (ivoff off len : ℕ) : MemM ρ Unit :=
  cbcDecodeLoop b.decodeOne data iv ivoff off (roundTo8 len)

end Loops

end Kaplar.Crypto
