import Kaplar.Foundation.Rounds
import Kaplar.Crypto.Blowfish

/-! # The block cipher is a permutation

The key words on both sides of the rounds of one direction are what the rounds of the other
direction begin with, with the words of the block exchanged.
-/
namespace Kaplar.Crypto.BlowfishCtx
open Rounds
variable (b : BlowfishCtx) (d : UInt32 × UInt32) (i : ℕ)

/-- What `encode_one` does after its rounds, with the key words from `i` on. -/
def encodeWhitened : UInt32 × UInt32 := (d.2 ^^^ b.p (i + 1),d.1 ^^^ b.p i)

/-- What `decode_one` does after its rounds, with the key words from `i` on. -/
def decodeWhitened : UInt32 × UInt32 := (d.2 ^^^ b.p i,d.1 ^^^ b.p (i + 1))

theorem xor_xor_cancel (x y : UInt32) : x ^^^ y ^^^ y = x := by
  rw [UInt32.xor_assoc, UInt32.xor_self, UInt32.xor_zero]

theorem xor_xor_xor_cancel (x y z : UInt32) : x ^^^ y ^^^ z ^^^ y = x ^^^ z := by
  rw [UInt32.xor_assoc x, UInt32.xor_comm y, ← UInt32.xor_assoc, xor_xor_cancel]

-- the function of the rounds is only ever applied to a word that both directions have
theorem decodeRounds_encodeRounds :
    b.decodeRounds (b.encodeWhitened (b.encodeRounds d i) (i + 2)) (i + 2) =
      b.encodeWhitened d i := by
  simp only [encodeRounds, encodeWhitened, decodeRounds, xor_xor_cancel, xor_xor_xor_cancel]

theorem encodeRounds_decodeRounds :
    b.encodeRounds (b.decodeWhitened (b.decodeRounds d (i + 2)) i) i =
      b.decodeWhitened d (i + 2) := by
  simp only [encodeRounds, decodeWhitened, decodeRounds, xor_xor_cancel, xor_xor_xor_cancel]

theorem decodeWhitened_encodeWhitened : b.decodeWhitened (b.encodeWhitened d i) i = d := by
  simp only [encodeWhitened, decodeWhitened, xor_xor_cancel]

theorem encodeWhitened_decodeWhitened : b.encodeWhitened (b.decodeWhitened d i) i = d := by
  simp only [encodeWhitened, decodeWhitened, xor_xor_cancel]

theorem encodeOne_eq : b.encodeOne d =
    b.encodeWhitened ((List.range 8).foldl (fun d i => b.encodeRounds d (2 * i)) d) 16 := rfl

theorem decodeOne_eq : b.decodeOne d =
    b.decodeWhitened ((down 8).foldl (fun d i => b.decodeRounds d (2 * i)) d) 0 := rfl

theorem decodeOne_encodeOne : b.decodeOne (b.encodeOne d) = d := by
  have hrounds := foldl_down_foldl (f := fun d i => b.encodeRounds d (2 * i))
    (g := fun d i => b.decodeRounds d (2 * i)) (v := fun i d => b.encodeWhitened d (2 * i))
    (fun i d => b.decodeRounds_encodeRounds d (2 * i)) 8 d
  rw [encodeOne_eq, decodeOne_eq, hrounds]
  apply decodeWhitened_encodeWhitened

theorem encodeOne_decodeOne : b.encodeOne (b.decodeOne d) = d := by
  have hrounds := foldl_foldl_down (f := fun d i => b.encodeRounds d (2 * i))
    (g := fun d i => b.decodeRounds d (2 * i)) (v := fun i d => b.decodeWhitened d (2 * i))
    (fun i d => b.encodeRounds_decodeRounds d (2 * i)) 8 d
  rw [decodeOne_eq, encodeOne_eq, hrounds]
  apply encodeWhitened_decodeWhitened

theorem blowfish_permutes : ∀ (b : BlowfishCtx) (d : UInt32 × UInt32),
    b.decodeOne (b.encodeOne d) = d ∧ b.encodeOne (b.decodeOne d) = d :=
  fun b d => ⟨b.decodeOne_encodeOne d,b.encodeOne_decodeOne d⟩

end Kaplar.Crypto.BlowfishCtx
