import Kaplar.Foundation.Endian

/-! # MurmurHash2 -/
namespace Kaplar.Config

def murmur2M : UInt32 := 0x5bd1e995

/-- Mixes four bytes at a time, and then the last few. -/
def murmur2Mix : List UInt8 → UInt32 → UInt32
  | d0 :: d1 :: d2 :: d3 :: data, h =>
    let k := u32le d0 d1 d2 d3
    let k := k * murmur2M
    let k := k ^^^ (k >>> 24)
    let k := k * murmur2M
    murmur2Mix data (h * murmur2M ^^^ k)
  | [d0,d1,d2], h =>
    (h ^^^ (d2.toUInt32 <<< 16) ^^^ (d1.toUInt32 <<< 8) ^^^ d0.toUInt32) * murmur2M
  | [d0,d1], h => (h ^^^ (d1.toUInt32 <<< 8) ^^^ d0.toUInt32) * murmur2M
  | [d0], h => (h ^^^ d0.toUInt32) * murmur2M
  | [], h => h

def murmur2_32 (data : List UInt8) (seed : UInt32) : UInt32 :=
  let h := murmur2Mix data (UInt32.ofNat data.length ^^^ seed)
  let h := h ^^^ (h >>> 13)
  let h := h * murmur2M
  h ^^^ (h >>> 15)

end Kaplar.Config
