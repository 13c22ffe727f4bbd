import Mathlib.Data.List.Basic

/-! # Adler-32 -/
namespace Kaplar.Crypto

def adlerBase : UInt32 := 65521
def adlerNmax : ℕ := 5552

/-- The two running sums `a` and `b`. -/
abbrev AdlerSums := UInt32 × UInt32

def do1 (buf : List UInt8) (i : ℕ) (s : AdlerSums) : AdlerSums :=
  let a := s.1 + (buf.getD i 0).toUInt32
  (a,s.2 + a)

def do2 (buf : List UInt8) (i : ℕ) (s : AdlerSums) : AdlerSums := do1 buf (i + 1) (do1 buf i s)
def do4 (buf : List UInt8) (i : ℕ) (s : AdlerSums) : AdlerSums := do2 buf (i + 2) (do2 buf i s)
def do8 (buf : List UInt8) (i : ℕ) (s : AdlerSums) : AdlerSums := do4 buf (i + 4) (do4 buf i s)
def do16 (buf : List UInt8) (s : AdlerSums) : AdlerSums := do8 buf 8 (do8 buf 0 s)

def adlerTail : ℕ → List UInt8 → AdlerSums → AdlerSums
  | 0, _, s => s
  | k + 1, buf, s => adlerTail k (buf.drop 1) (do1 buf 0 s)

def adlerUnrolled : ℕ → List UInt8 → AdlerSums → AdlerSums
  | k + 16, buf, s => adlerUnrolled k (buf.drop 16) (do16 buf s)
  | k, buf, s => adlerTail k buf s

/-- The outer loop; every pass takes at least one of the remaining bytes. -/
def adlerChunks : ℕ → List UInt8 → AdlerSums → AdlerSums
  | 0, _, s => s
  | fuel + 1, buf, s =>
    if 0 < buf.length then
      let k := if buf.length > adlerNmax then adlerNmax else buf.length
      let t := adlerUnrolled k buf s
      adlerChunks fuel (buf.drop k) (t.1 % adlerBase,t.2 % adlerBase)
    else s

def adler32 (buf : List UInt8) : UInt32 :=
  let s := adlerChunks buf.length buf (1,0)
  s.1 ||| s.2 <<< 16

-- the bytes of "Wikipedia"
example : adler32 [87,105,107,105,112,101,100,105,97] = 0x11E60398 := by decide

end Kaplar.Crypto
