import Kaplar.Foundation.Endian
import Kaplar.Foundation.Radix

/-! # Words in messages

A machine that may access memory at any address stores a whole word, with its bytes swapped if
it has another order, and the others write byte by byte.
-/
namespace Kaplar.BufferUtil
open Radix

/-- The settings `ARCH_BIG_ENDIAN` and `ARCH_UNALIGNED_ACCESS`. -/
structure Arch where
  bigEndian : Bool
  unalignedAccess : Bool

/-! ## Byte orders -/

def swapU16 (x : UInt16) : UInt16 := (x &&& 0xFF00) >>> 8 ||| (x &&& 0x00FF) <<< 8

def swapU32 (x : UInt32) : UInt32 :=
  (x &&& 0xFF000000) >>> 24 ||| (x &&& 0x00FF0000) >>> 8 |||
    (x &&& 0x0000FF00) <<< 8 ||| (x &&& 0x000000FF) <<< 24

def swapU64 (x : UInt64) : UInt64 :=
  (x &&& 0xFF00000000000000) >>> 56 ||| (x &&& 0x00FF000000000000) >>> 40 |||
    (x &&& 0x0000FF0000000000) >>> 24 ||| (x &&& 0x000000FF00000000) >>> 8 |||
    (x &&& 0x00000000FF000000) <<< 8 ||| (x &&& 0x0000000000FF0000) <<< 24 |||
    (x &&& 0x000000000000FF00) <<< 40 ||| (x &&& 0x00000000000000FF) <<< 56

/-- `u16_cpu_to_be` and `u16_be_to_cpu` -/
def u16CpuBe (arch : Arch) (x : UInt16) : UInt16 := if arch.bigEndian then x else swapU16 x
/-- `u16_cpu_to_le` and `u16_le_to_cpu` -/
def u16CpuLe (arch : Arch) (x : UInt16) : UInt16 := if arch.bigEndian then swapU16 x else x
def u32CpuBe (arch : Arch) (x : UInt32) : UInt32 := if arch.bigEndian then x else swapU32 x
def u32CpuLe (arch : Arch) (x : UInt32) : UInt32 := if arch.bigEndian then swapU32 x else x
def u64CpuBe (arch : Arch) (x : UInt64) : UInt64 := if arch.bigEndian then x else swapU64 x
def u64CpuLe (arch : Arch) (x : UInt64) : UInt64 := if arch.bigEndian then swapU64 x else x

/-- The bytes of a word in the memory of the machine, and the word that is read from them. -/
def store (arch : Arch) (size num : ℕ) : List UInt8 := arrange arch.bigEndian (bytesOf size num)
def load (arch : Arch) (data : List UInt8) : ℕ := value (arrange arch.bigEndian data)

/-! ## Encoding and decoding -/

def encodeU16Be (arch : Arch) (val : UInt16) : List UInt8 :=
  if arch.unalignedAccess then store arch 2 (u16CpuBe arch val).toNat
  else [(val >>> 8).toUInt8,val.toUInt8]

def encodeU16Le (arch : Arch) (val : UInt16) : List UInt8 :=
  if arch.unalignedAccess then store arch 2 (u16CpuLe arch val).toNat
  else [val.toUInt8,(val >>> 8).toUInt8]

def encodeU32Be (arch : Arch) (val : UInt32) : List UInt8 :=
  if arch.unalignedAccess then store arch 4 (u32CpuBe arch val).toNat
  else [(val >>> 24).toUInt8,(val >>> 16).toUInt8,(val >>> 8).toUInt8,val.toUInt8]

def encodeU32Le (arch : Arch) (val : UInt32) : List UInt8 :=
  if arch.unalignedAccess then store arch 4 (u32CpuLe arch val).toNat
  else [val.toUInt8,(val >>> 8).toUInt8,(val >>> 16).toUInt8,(val >>> 24).toUInt8]

def encodeU64Be (arch : Arch) (val : UInt64) : List UInt8 :=
  if arch.unalignedAccess then store arch 8 (u64CpuBe arch val).toNat
  else [(val >>> 56).toUInt8,(val >>> 48).toUInt8,(val >>> 40).toUInt8,(val >>> 32).toUInt8,
    (val >>> 24).toUInt8,(val >>> 16).toUInt8,(val >>> 8).toUInt8,val.toUInt8]

def encodeU64Le (arch : Arch) (val : UInt64) : List UInt8 :=
  if arch.unalignedAccess then store arch 8 (u64CpuLe arch val).toNat
  else [val.toUInt8,(val >>> 8).toUInt8,(val >>> 16).toUInt8,(val >>> 24).toUInt8,
    (val >>> 32).toUInt8,(val >>> 40).toUInt8,(val >>> 48).toUInt8,(val >>> 56).toUInt8]

/-- `data[i]` -/
def at16 (data : List UInt8) (i : ℕ) : UInt16 := (data.getD i 0).toUInt16
def at32 (data : List UInt8) (i : ℕ) : UInt32 := (data.getD i 0).toUInt32
def at64 (data : List UInt8) (i : ℕ) : UInt64 := (data.getD i 0).toUInt64

def decodeU16Be (arch : Arch) (data : List UInt8) : UInt16 :=
  if arch.unalignedAccess then u16CpuBe arch (.ofNat (load arch data))
  else at16 data 0 <<< 8 ||| at16 data 1

def decodeU16Le (arch : Arch) (data : List UInt8) : UInt16 :=
  if arch.unalignedAccess then u16CpuLe arch (.ofNat (load arch data))
  else at16 data 0 ||| at16 data 1 <<< 8

def decodeU32Be (arch : Arch) (data : List UInt8) : UInt32 :=
  if arch.unalignedAccess then u32CpuBe arch (.ofNat (load arch data))
  else at32 data 0 <<< 24 ||| at32 data 1 <<< 16 ||| at32 data 2 <<< 8 ||| at32 data 3

def decodeU32Le (arch : Arch) (data : List UInt8) : UInt32 :=
  if arch.unalignedAccess then u32CpuLe arch (.ofNat (load arch data))
  else at32 data 0 ||| at32 data 1 <<< 8 ||| at32 data 2 <<< 16 ||| at32 data 3 <<< 24

def decodeU64Be (arch : Arch) (data : List UInt8) : UInt64 :=
  if arch.unalignedAccess then u64CpuBe arch (.ofNat (load arch data))
  else at64 data 0 <<< 56 ||| at64 data 1 <<< 48 ||| at64 data 2 <<< 40 ||| at64 data 3 <<< 32 |||
    at64 data 4 <<< 24 ||| at64 data 5 <<< 16 ||| at64 data 6 <<< 8 ||| at64 data 7

def decodeU64Le (arch : Arch) (data : List UInt8) : UInt64 :=
  if arch.unalignedAccess then u64CpuLe arch (.ofNat (load arch data))
  else at64 data 0 ||| at64 data 1 <<< 8 ||| at64 data 2 <<< 16 ||| at64 data 3 <<< 24 |||
    at64 data 4 <<< 32 ||| at64 data 5 <<< 40 ||| at64 data 6 <<< 48 ||| at64 data 7 <<< 56

/-! ## Bytes within words -/

section Bytes
variable {l : List UInt8} {b : UInt8}

theorem value_or : value (b :: l) = b.toNat ||| value l <<< 8 := by
  have hb : b.toNat < 2 ^ 8 := b.toNat_lt
  rw [value_cons, or_shift hb]
  omega

theorem value_two (a b : UInt8) : value [a,b] = a.toNat ||| b.toNat <<< 8 := by
  simp only [value_or, value_nil, Nat.zero_shiftLeft, Nat.or_zero]

theorem value_four (a b c d : UInt8) : value [a,b,c,d] =
    a.toNat ||| b.toNat <<< 8 ||| c.toNat <<< 16 ||| d.toNat <<< 24 := by
  simp only [value_or, value_nil, Nat.zero_shiftLeft, Nat.or_zero, Nat.shiftLeft_or_distrib,
    ← Nat.shiftLeft_add, Nat.or_assoc]

theorem value_eight (a b c d e f g h : UInt8) : value [a,b,c,d,e,f,g,h] =
    a.toNat ||| b.toNat <<< 8 ||| c.toNat <<< 16 ||| d.toNat <<< 24 |||
      e.toNat <<< 32 ||| f.toNat <<< 40 ||| g.toNat <<< 48 ||| h.toNat <<< 56 := by
  simp only [value_or, value_nil, Nat.zero_shiftLeft, Nat.or_zero, Nat.shiftLeft_or_distrib,
    ← Nat.shiftLeft_add, Nat.or_assoc]

/-- A mask lets one byte through. -/
theorem and_mask (x k : ℕ) : x &&& 255 <<< k = (x >>> k % 2 ^ 8) <<< k := by
  apply Nat.eq_of_testBit_eq
  intro i
  have hmask : (255 : ℕ) = 2 ^ 8 - 1 := rfl
  simp only [hmask, Nat.testBit_and, Nat.testBit_shiftLeft, Nat.testBit_two_pow_sub_one,
    Nat.testBit_mod_two_pow, Nat.testBit_shiftRight]
  by_cases h : k ≤ i
  · simp [h,Nat.add_sub_cancel' h,Bool.and_comm]
  · simp [h]

theorem mask_right (x k j : ℕ) :
    (x &&& 255 <<< (k + j)) >>> j = (UInt8.ofNat (x >>> (k + j))).toNat <<< k := by
  rw [and_mask, Nat.shiftLeft_add, Nat.shiftLeft_shiftRight, UInt8.toNat_ofNat']

theorem mask_left {w : ℕ} (x k j : ℕ) (h : 8 + (k + j) ≤ w) :
    (x &&& 255 <<< k) <<< j % 2 ^ w = (UInt8.ofNat (x >>> k)).toNat <<< (k + j) := by
  rw [and_mask, ← Nat.shiftLeft_add, UInt8.toNat_ofNat']
  apply shift_mod
  have hbyte := Nat.mod_lt (x >>> k) (Nat.two_pow_pos 8)
  exact Nat.lt_of_lt_of_le (Nat.mul_lt_mul_of_pos_right hbyte (Nat.two_pow_pos _))
    (Nat.pow_add .. ▸ Nat.pow_le_pow_right (by decide) h)

theorem byte_shift {w k : ℕ} (b : UInt8) (h : 8 + k ≤ w) :
    b.toNat <<< k % 2 ^ w = b.toNat <<< k := by
  apply shift_mod
  exact Nat.lt_of_lt_of_le (Nat.mul_lt_mul_of_pos_right b.toNat_lt (Nat.two_pow_pos _))
    (Nat.pow_add .. ▸ Nat.pow_le_pow_right (by decide) h)

theorem bytesOf_shifted (n x : ℕ) :
    bytesOf n x = (List.range n).map (fun i => UInt8.ofNat (x >>> (8 * i))) := by
  induction n generalizing x with
  | zero => rfl
  | succ n ih =>
    rw [bytesOf, ih, List.range_succ_eq_map, List.map_cons, List.map_map]
    congr 1
    apply List.map_congr_left
    intro i _
    have hdiv : x / 256 = x >>> 8 := (Nat.shiftRight_eq_div_pow x 8).symm
    rw [hdiv, ← Nat.shiftRight_add]
    congr 2
    omega

end Bytes

theorem toNat_swapU16 (x : UInt16) : (swapU16 x).toNat = value (bytesOf 2 x.toNat).reverse := by
  have h₁ : ((x &&& 0xFF00) >>> 8).toNat = _ := mask_right x.toNat 0 8
  have h₀ : ((x &&& 0x00FF) <<< 8).toNat = _ := mask_left (w := 16) x.toNat 0 8 (by decide)
  rw [swapU16, UInt16.toNat_or, h₁, h₀, bytesOf_shifted]
  exact (value_two _ _).symm

theorem toNat_swapU32 (x : UInt32) : (swapU32 x).toNat = value (bytesOf 4 x.toNat).reverse := by
  have h₃ : ((x &&& 0xFF000000) >>> 24).toNat = _ := mask_right x.toNat 0 24
  have h₂ : ((x &&& 0x00FF0000) >>> 8).toNat = _ := mask_right x.toNat 8 8
  have h₁ : ((x &&& 0x0000FF00) <<< 8).toNat = _ := mask_left (w := 32) x.toNat 8 8 (by decide)
  have h₀ : ((x &&& 0x000000FF) <<< 24).toNat = _ := mask_left (w := 32) x.toNat 0 24 (by decide)
  rw [swapU32, UInt32.toNat_or, UInt32.toNat_or, UInt32.toNat_or, h₃, h₂, h₁, h₀, bytesOf_shifted]
  exact (value_four _ _ _ _).symm

theorem toNat_swapU64 (x : UInt64) : (swapU64 x).toNat = value (bytesOf 8 x.toNat).reverse := by
  have h₇ : ((x &&& 0xFF00000000000000) >>> 56).toNat = _ := mask_right x.toNat 0 56
  have h₆ : ((x &&& 0x00FF000000000000) >>> 40).toNat = _ := mask_right x.toNat 8 40
  have h₅ : ((x &&& 0x0000FF0000000000) >>> 24).toNat = _ := mask_right x.toNat 16 24
  have h₄ : ((x &&& 0x000000FF00000000) >>> 8).toNat = _ := mask_right x.toNat 24 8
  have h₃ : ((x &&& 0x00000000FF000000) <<< 8).toNat = _ :=
    mask_left (w := 64) x.toNat 24 8 (by decide)
  have h₂ : ((x &&& 0x0000000000FF0000) <<< 24).toNat = _ :=
    mask_left (w := 64) x.toNat 16 24 (by decide)
  have h₁ : ((x &&& 0x000000000000FF00) <<< 40).toNat = _ :=
    mask_left (w := 64) x.toNat 8 40 (by decide)
  have h₀ : ((x &&& 0x00000000000000FF) <<< 56).toNat = _ :=
    mask_left (w := 64) x.toNat 0 56 (by decide)
  rw [swapU64, UInt64.toNat_or, UInt64.toNat_or, UInt64.toNat_or, UInt64.toNat_or,
    UInt64.toNat_or, UInt64.toNat_or, UInt64.toNat_or, h₇, h₆, h₅, h₄, h₃, h₂, h₁, h₀,
    bytesOf_shifted]
  exact (value_eight _ _ _ _ _ _ _ _).symm

/-! ## Byte by byte -/

theorem bytes16_eq (v : UInt16) : [v.toUInt8,(v >>> 8).toUInt8] = bytesOf 2 v.toNat := by
  rw [bytesOf_shifted]
  have h (k : UInt16) (hk : k.toNat < 16) :
      (v >>> k).toUInt8 = UInt8.ofNat (v.toNat >>> k.toNat) := by
    apply UInt8.toNat_inj.mp
    rw [UInt16.toNat_toUInt8, UInt16.toNat_shiftRight, Nat.mod_eq_of_lt hk, UInt8.toNat_ofNat']
  rw [h 8 (by decide)]
  rfl

theorem bytes32_eq (v : UInt32) :
    [v.toUInt8,(v >>> 8).toUInt8,(v >>> 16).toUInt8,(v >>> 24).toUInt8] = bytesOf 4 v.toNat := by
  rw [bytesOf_shifted]
  have h (k : UInt32) (hk : k.toNat < 32) :
      (v >>> k).toUInt8 = UInt8.ofNat (v.toNat >>> k.toNat) := by
    apply UInt8.toNat_inj.mp
    rw [UInt32.toNat_toUInt8, UInt32.toNat_shiftRight, Nat.mod_eq_of_lt hk, UInt8.toNat_ofNat']
  rw [h 8 (by decide), h 16 (by decide), h 24 (by decide)]
  rfl

theorem bytes64_eq (v : UInt64) :
    [v.toUInt8,(v >>> 8).toUInt8,(v >>> 16).toUInt8,(v >>> 24).toUInt8,(v >>> 32).toUInt8,
      (v >>> 40).toUInt8,(v >>> 48).toUInt8,(v >>> 56).toUInt8] = bytesOf 8 v.toNat := by
  rw [bytesOf_shifted]
  have h (k : UInt64) (hk : k.toNat < 64) :
      (v >>> k).toUInt8 = UInt8.ofNat (v.toNat >>> k.toNat) := by
    apply UInt8.toNat_inj.mp
    rw [UInt64.toNat_toUInt8, UInt64.toNat_shiftRight, Nat.mod_eq_of_lt hk, UInt8.toNat_ofNat']
  rw [h 8 (by decide), h 16 (by decide), h 24 (by decide), h 32 (by decide), h 40 (by decide),
    h 48 (by decide), h 56 (by decide)]
  rfl

theorem join16 (a b : UInt8) : (a.toUInt16 ||| b.toUInt16 <<< 8).toNat = value [a,b] := by
  have hb : (b.toUInt16 <<< 8).toNat = _ := byte_shift (w := 16) b (by decide)
  rw [UInt16.toNat_or, hb, value_two]
  rfl

theorem join32 (a b c d : UInt8) :
    (a.toUInt32 ||| b.toUInt32 <<< 8 ||| c.toUInt32 <<< 16 ||| d.toUInt32 <<< 24).toNat =
      value [a,b,c,d] := by
  have hb : (b.toUInt32 <<< 8).toNat = _ := byte_shift (w := 32) b (by decide)
  have hc : (c.toUInt32 <<< 16).toNat = _ := byte_shift (w := 32) c (by decide)
  have hd : (d.toUInt32 <<< 24).toNat = _ := byte_shift (w := 32) d (by decide)
  rw [UInt32.toNat_or, UInt32.toNat_or, UInt32.toNat_or, hb, hc, hd, value_four]
  rfl

theorem join64 (a b c d e f g h : UInt8) :
    (a.toUInt64 ||| b.toUInt64 <<< 8 ||| c.toUInt64 <<< 16 ||| d.toUInt64 <<< 24 |||
      e.toUInt64 <<< 32 ||| f.toUInt64 <<< 40 ||| g.toUInt64 <<< 48 ||| h.toUInt64 <<< 56).toNat =
        value [a,b,c,d,e,f,g,h] := by
  have hb : (b.toUInt64 <<< 8).toNat = _ := byte_shift (w := 64) b (by decide)
  have hc : (c.toUInt64 <<< 16).toNat = _ := byte_shift (w := 64) c (by decide)
  have hd : (d.toUInt64 <<< 24).toNat = _ := byte_shift (w := 64) d (by decide)
  have he : (e.toUInt64 <<< 32).toNat = _ := byte_shift (w := 64) e (by decide)
  have hf : (f.toUInt64 <<< 40).toNat = _ := byte_shift (w := 64) f (by decide)
  have hg : (g.toUInt64 <<< 48).toNat = _ := byte_shift (w := 64) g (by decide)
  have hh : (h.toUInt64 <<< 56).toNat = _ := byte_shift (w := 64) h (by decide)
  rw [UInt64.toNat_or, UInt64.toNat_or, UInt64.toNat_or, UInt64.toNat_or, UInt64.toNat_or,
    UInt64.toNat_or, UInt64.toNat_or, hb, hc, hd, he, hf, hg, hh, value_eight]
  rfl

/-! ## All machines -/

section Portable
variable {ω : Type} {size : ℕ} {big : Bool} {num : ω → ℕ} {ofNum : ℕ → ω} {swap : ω → ω}
  {cpu : Arch → ω → ω} {enc : ω → List UInt8} {dec : List UInt8 → ω}

/-- The two ways to write a word agree, and so do those to read it. -/
theorem portable_words (hinj : Function.Injective num) (hnum : ∀ v, num v < 256 ^ size)
    (hof : ∀ n < 256 ^ size, num (ofNum n) = n)
    (hswap : ∀ v, num (swap v) = value (bytesOf size (num v)).reverse)
    (hcpu : ∀ arch v, cpu arch v = if arch.bigEndian = big then v else swap v)
    (henc : ∀ v, enc v = arrange big (bytesOf size (num v)))
    (hdec : ∀ l, l.length = size → num (dec l) = value (arrange big l)) :
    Portable size big num
      (fun arch v => if arch.unalignedAccess then store arch size (num (cpu arch v)) else enc v)
      (fun arch l => if arch.unalignedAccess then cpu arch (ofNum (load arch l)) else dec l) := by
  have hflip (arch : Arch) (h : arch.bigEndian ≠ big) (l : List UInt8) :
      arrange arch.bigEndian l.reverse = arrange big l ∧
        (arrange arch.bigEndian l).reverse = arrange big l := by
    cases harch : arch.bigEndian <;> cases big <;> simp_all [arrange]
  apply portable hinj hnum
  · intro arch v
    split
    case isTrue =>
      rw [store, hcpu]
      split
      case isTrue h => rw [h]
      case isFalse h =>
        have hbytes : bytesOf size (value (bytesOf size (num v)).reverse) =
            (bytesOf size (num v)).reverse := bytesOf_value_of (by simp)
        rw [hswap, hbytes]
        exact (hflip arch h _).1
    case isFalse => exact henc v
  · intro arch l hl
    have hlen : (arrange arch.bigEndian l).length = size := by rw [length_arrange, hl]
    split
    case isTrue =>
      have hload : num (ofNum (load arch l)) = value (arrange arch.bigEndian l) := by
        apply hof
        rw [← hlen]
        exact value_lt
      rw [hcpu]
      split
      case isTrue h => rw [hload, h]
      case isFalse h => rw [hswap, hload, bytesOf_value_of hlen, (hflip arch h l).2]
    case isFalse => exact hdec l hl

end Portable

/-! ## Words of each size -/

section Words
variable {big : Bool}

/-- The parts of a word are joined in the order of its bytes. -/
theorem parts16 {l : List UInt8} (hl : l.length = 2) :
    (at16 l 0 ||| at16 l 1 <<< 8).toNat = value l := by
  rcases l with _ | ⟨a,_ | ⟨b,_ | ⟨x,l⟩⟩⟩ <;> cases hl
  exact join16 a b

theorem parts32 {l : List UInt8} (hl : l.length = 4) :
    (at32 l 0 ||| at32 l 1 <<< 8 ||| at32 l 2 <<< 16 ||| at32 l 3 <<< 24).toNat = value l := by
  rcases l with _ | ⟨a,_ | ⟨b,_ | ⟨c,_ | ⟨d,_ | ⟨x,l⟩⟩⟩⟩⟩ <;> cases hl
  exact join32 a b c d

theorem parts64 {l : List UInt8} (hl : l.length = 8) :
    (at64 l 0 ||| at64 l 1 <<< 8 ||| at64 l 2 <<< 16 ||| at64 l 3 <<< 24 |||
      at64 l 4 <<< 32 ||| at64 l 5 <<< 40 ||| at64 l 6 <<< 48 ||| at64 l 7 <<< 56).toNat =
        value l := by
  rcases l with _ | ⟨a,_ | ⟨b,_ | ⟨c,_ | ⟨d,_ | ⟨e,_ | ⟨f,_ | ⟨g,_ | ⟨h,_ | ⟨x,l⟩⟩⟩⟩⟩⟩⟩⟩⟩ <;>
    cases hl
  exact join64 a b c d e f g h

/-- The greatest byte comes first when the bytes are read backwards. -/
theorem at_reverse {l : List UInt8} {n i : ℕ} (hl : l.length = n) (hi : i < n) :
    l.reverse.getD i 0 = l.getD (n - 1 - i) 0 := by
  rw [List.getD_eq_getElem?_getD, List.getD_eq_getElem?_getD,
    List.getElem?_reverse (by omega), hl]

theorem at16_reverse {l : List UInt8} {i : ℕ} (hl : l.length = 2) (hi : i < 2) :
    at16 l.reverse i = at16 l (1 - i) := by
  rw [at16, at_reverse hl hi]
  rfl

theorem at32_reverse {l : List UInt8} {i : ℕ} (hl : l.length = 4) (hi : i < 4) :
    at32 l.reverse i = at32 l (3 - i) := by
  rw [at32, at_reverse hl hi]
  rfl

theorem at64_reverse {l : List UInt8} {i : ℕ} (hl : l.length = 8) (hi : i < 8) :
    at64 l.reverse i = at64 l (7 - i) := by
  rw [at64, at_reverse hl hi]
  rfl

theorem or_reverse32 (a b c d : UInt32) : a ||| b ||| c ||| d = d ||| c ||| b ||| a := by
  ac_rfl

theorem or_reverse64 (a b c d e f g h : UInt64) :
    a ||| b ||| c ||| d ||| e ||| f ||| g ||| h = h ||| g ||| f ||| e ||| d ||| c ||| b ||| a := by
  ac_rfl

theorem portable16 {enc : UInt16 → List UInt8} {dec : List UInt8 → UInt16}
    {cpu : Arch → UInt16 → UInt16}
    (hcpu : ∀ arch v, cpu arch v = if arch.bigEndian = big then v else swapU16 v)
    (henc : ∀ v, enc v = arrange big [v.toUInt8,(v >>> 8).toUInt8])
    (hdec : ∀ l, l.length = 2 → dec (arrange big l) =
      at16 l 0 ||| at16 l 1 <<< 8) :
    Portable 2 big UInt16.toNat
      (fun arch v => if arch.unalignedAccess then store arch 2 (cpu arch v).toNat else enc v)
      (fun arch l => if arch.unalignedAccess then cpu arch (.ofNat (load arch l)) else dec l) := by
  apply portable_words
  · exact fun _ _ => UInt16.toNat_inj.mp
  · exact UInt16.toNat_lt
  · exact fun _ => UInt16.toNat_ofNat_of_lt'
  · exact toNat_swapU16
  · exact hcpu
  · exact fun v => by rw [henc, bytes16_eq]
  · intro l hl
    have hsize : (arrange big l).length = 2 := by rw [length_arrange, hl]
    rw [← parts16 hsize, ← hdec _ hsize, arrange_arrange]

theorem portable32 {enc : UInt32 → List UInt8} {dec : List UInt8 → UInt32}
    {cpu : Arch → UInt32 → UInt32}
    (hcpu : ∀ arch v, cpu arch v = if arch.bigEndian = big then v else swapU32 v)
    (henc : ∀ v, enc v = arrange big [v.toUInt8,(v >>> 8).toUInt8,(v >>> 16).toUInt8,
      (v >>> 24).toUInt8])
    (hdec : ∀ l, l.length = 4 → dec (arrange big l) =
      at32 l 0 ||| at32 l 1 <<< 8 ||| at32 l 2 <<< 16 ||| at32 l 3 <<< 24) :
    Portable 4 big UInt32.toNat
      (fun arch v => if arch.unalignedAccess then store arch 4 (cpu arch v).toNat else enc v)
      (fun arch l => if arch.unalignedAccess then cpu arch (.ofNat (load arch l)) else dec l) := by
  apply portable_words
  · exact fun _ _ => UInt32.toNat_inj.mp
  · exact UInt32.toNat_lt
  · exact fun _ => UInt32.toNat_ofNat_of_lt'
  · exact toNat_swapU32
  · exact hcpu
  · exact fun v => by rw [henc, bytes32_eq]
  · intro l hl
    have hsize : (arrange big l).length = 4 := by rw [length_arrange, hl]
    rw [← parts32 hsize, ← hdec _ hsize, arrange_arrange]

theorem portable64 {enc : UInt64 → List UInt8} {dec : List UInt8 → UInt64}
    {cpu : Arch → UInt64 → UInt64}
    (hcpu : ∀ arch v, cpu arch v = if arch.bigEndian = big then v else swapU64 v)
    (henc : ∀ v, enc v = arrange big [v.toUInt8,(v >>> 8).toUInt8,(v >>> 16).toUInt8,
      (v >>> 24).toUInt8,(v >>> 32).toUInt8,(v >>> 40).toUInt8,(v >>> 48).toUInt8,
      (v >>> 56).toUInt8])
    (hdec : ∀ l, l.length = 8 → dec (arrange big l) =
      at64 l 0 ||| at64 l 1 <<< 8 ||| at64 l 2 <<< 16 ||| at64 l 3 <<< 24 |||
        at64 l 4 <<< 32 ||| at64 l 5 <<< 40 ||| at64 l 6 <<< 48 ||| at64 l 7 <<< 56) :
    Portable 8 big UInt64.toNat
      (fun arch v => if arch.unalignedAccess then store arch 8 (cpu arch v).toNat else enc v)
      (fun arch l => if arch.unalignedAccess then cpu arch (.ofNat (load arch l)) else dec l) := by
  apply portable_words
  · exact fun _ _ => UInt64.toNat_inj.mp
  · exact UInt64.toNat_lt
  · exact fun _ => UInt64.toNat_ofNat_of_lt'
  · exact toNat_swapU64
  · exact hcpu
  · exact fun v => by rw [henc, bytes64_eq]
  · intro l hl
    have hsize : (arrange big l).length = 8 := by rw [length_arrange, hl]
    rw [← parts64 hsize, ← hdec _ hsize, arrange_arrange]

theorem le_order {ω : Type} (b : Bool) (v w : ω) :
    (if b then w else v) = if b = false then v else w := by
  cases b <;> rfl

theorem portable_u16Be : Portable 2 true UInt16.toNat encodeU16Be decodeU16Be := by
  refine portable16 (fun _ _ => rfl) (fun _ => rfl) ?_
  intro l hl
  simp only [arrange, if_true, at16_reverse hl, Nat.reduceLT]
  exact UInt16.or_comm ..

theorem portable_u16Le : Portable 2 false UInt16.toNat encodeU16Le decodeU16Le :=
  portable16 (fun _ _ => le_order ..) (fun _ => rfl) (fun _ _ => rfl)

theorem portable_u32Be : Portable 4 true UInt32.toNat encodeU32Be decodeU32Be := by
  refine portable32 (fun _ _ => rfl) (fun _ => rfl) ?_
  intro l hl
  simp only [arrange, if_true, at32_reverse hl, Nat.reduceLT]
  exact or_reverse32 ..

theorem portable_u32Le : Portable 4 false UInt32.toNat encodeU32Le decodeU32Le :=
  portable32 (fun _ _ => le_order ..) (fun _ => rfl) (fun _ _ => rfl)

theorem portable_u64Be : Portable 8 true UInt64.toNat encodeU64Be decodeU64Be := by
  refine portable64 (fun _ _ => rfl) (fun _ => rfl) ?_
  intro l hl
  simp only [arrange, if_true, at64_reverse hl, Nat.reduceLT]
  exact or_reverse64 ..

theorem portable_u64Le : Portable 8 false UInt64.toNat encodeU64Le decodeU64Le :=
  portable64 (fun _ _ => le_order ..) (fun _ => rfl) (fun _ _ => rfl)

end Words

section Memory
variable {arch : Arch} {b₀ b₁ b₂ b₃ : UInt8}

def bytewise : Arch where
  bigEndian := false
  unalignedAccess := false

theorem encodeU16Le_eq (v : UInt16) : encodeU16Le arch v = bytes16 v :=
  portable_u16Le.enc_eq arch bytewise v

theorem encodeU32Le_eq (v : UInt32) : encodeU32Le arch v = bytes32 v :=
  portable_u32Le.enc_eq arch bytewise v

theorem encodeU32Be_eq (v : UInt32) : encodeU32Be arch v = bytes32be v :=
  portable_u32Be.enc_eq arch bytewise v

theorem decodeU16Le_eq : decodeU16Le arch [b₀,b₁] = u16le b₀ b₁ :=
  portable_u16Le.dec_eq arch bytewise rfl

theorem decodeU32Le_eq : decodeU32Le arch [b₀,b₁,b₂,b₃] = u32le b₀ b₁ b₂ b₃ :=
  portable_u32Le.dec_eq arch bytewise rfl

theorem decodeU32Be_eq : decodeU32Be arch [b₀,b₁,b₂,b₃] = u32be b₀ b₁ b₂ b₃ := by
  rw [portable_u32Be.dec_eq arch bytewise rfl]
  exact or_reverse32 ..

end Memory

end Kaplar.BufferUtil
