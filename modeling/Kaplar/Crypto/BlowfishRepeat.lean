import Kaplar.Crypto.BlowfishModes
import Mathlib.Data.Int.Basic
import Mathlib.Logic.Function.Iterate

/-! # Repeated encryption

`blowfish_ecb_encode_n` keeps a block in two words for all its rounds of the cipher. Calls one
after another read the block again each time, and find their second result in the place of the
first and the second word as it was.
-/
namespace Kaplar.Crypto
open BlowfishCtx
variable {ρ : Type} [DecidableEq ρ] {g : UInt32 × UInt32 → UInt32 × UInt32} {m : Memory ρ}
  {data : ρ} {off n k : ℕ} {b : BlowfishCtx}

def blowfishEcbEncodeN (data : ρ) (b : BlowfishCtx) (n : ℤ) (off len : ℕ) : MemM ρ Unit :=
  ecbLoop (b.encodeOne^[n.toNat]) data off (roundTo8 len)

/-- So many calls in a row. -/
def calls (x : MemM ρ Unit) : ℕ → MemM ρ Unit
  | 0 => pure ()
  | n + 1 => do
    x
    calls x n

/-- The first word of a block after so many calls: the second word stays. -/
def firstWord (g : UInt32 × UInt32 → UInt32 × UInt32) (n : ℕ) (d : UInt32 × UInt32) : UInt32 :=
  (fun x => (g (x,d.2)).2)^[n] d.1

theorem stored_iterate (d : UInt32 × UInt32) : (stored g)^[n] d = (firstWord g n d,d.2) := by
  induction n with
  | zero => rfl
  | succ n ih =>
    rw [Function.iterate_succ_apply', ih, firstWord, firstWord, Function.iterate_succ_apply']
    rfl

/-- Encoding a block in one go has the second result that the calls in a row end with. -/
def Repeats (b : BlowfishCtx) (n : ℕ) (d : UInt32 × UInt32) : Prop :=
  (b.encodeOne^[n] d).2 = firstWord b.encodeOne n d

instance : DecidablePred (Repeats b n) := fun _ => inferInstanceAs (Decidable (_ = _))

theorem stored_iterate_iff {d : UInt32 × UInt32} :
    stored (b.encodeOne^[n]) d = (stored b.encodeOne)^[n] d ↔ Repeats b n d := by
  rw [stored_iterate, stored, Prod.mk.injEq, and_iff_left rfl, Repeats]

/-- Each call leaves every block on its own, so that the calls are as many rounds of `stored`. -/
theorem calls_ecbLoop_run (h : off + 8 * k ≤ m.size data) :
    calls (ecbLoop g data off (8 * k)) n m =
      some ((),m.write data off (pairsBytes ((m.pairs data off k).map ((stored g)^[n])))) := by
  induction n generalizing m with
  | zero =>
    have hkept : m.write data off (pairsBytes (m.pairs data off k)) = m := by
      rw [← Memory.slice_pairs, Memory.write_slice]
    rw [Function.iterate_zero, List.map_id, hkept]
    rfl
  | succ n ih =>
    let l := (m.pairs data off k).map (stored g)
    let m₁ := m.write data off (pairsBytes l)
    have hl : l.length = k := by rw [List.length_map, Memory.length_pairs]
    have hread : m₁.pairs data off k = l := hl ▸ Memory.pairs_write_self
    have hrest : calls (ecbLoop g data off (8 * k)) n m₁ = _ :=
      ih (by rw [Memory.size_write]; omega)
    rw [calls, bind_run (ecbLoop_run h), hrest, hread, Memory.write_write (by simp), List.map_map,
      Function.iterate_succ]

theorem write_pairs_left_inj {l l' : List (UInt32 × UInt32)} (hlen : l.length = l'.length) :
    m.write data off (pairsBytes l) = m.write data off (pairsBytes l') ↔ l = l' := by
  constructor
  · intro h
    have hl : (m.write data off (pairsBytes l)).pairs data off l.length = l :=
      Memory.pairs_write_self
    rw [← hl, h, hlen, Memory.pairs_write_self]
  · intro h
    rw [h]

theorem blowfishEcbEncodeN_run {n : ℤ} {len : ℕ} (h8 : 8 ∣ len) (hd : off + len ≤ m.size data) :
    blowfishEcbEncodeN data b n off len m = some ((),m.write data off
      (pairsBytes ((m.pairs data off (len / 8)).map (stored (b.encodeOne^[n.toNat]))))) := by
  rw [blowfishEcbEncodeN, roundTo8_of_dvd h8]
  apply ecbLoop_run
  omega

theorem calls_blowfishEcbEncode_run {len : ℕ} (h8 : 8 ∣ len) (hd : off + len ≤ m.size data) :
    calls (blowfishEcbEncode data b off len) n m = some ((),m.write data off
      (pairsBytes ((m.pairs data off (len / 8)).map ((stored b.encodeOne)^[n])))) := by
  rw [blowfishEcbEncode, roundTo8_of_dvd h8]
  apply calls_ecbLoop_run
  omega

theorem run_write_pairs_left_inj {l l' : List (UInt32 × UInt32)} (hlen : l.length = l'.length) :
    some ((),m.write data off (pairsBytes l)) = some ((),m.write data off (pairsBytes l')) ↔
      l = l' := by
  rw [Option.some.injEq, Prod.mk.injEq, and_iff_right rfl, write_pairs_left_inj hlen]

end Kaplar.Crypto
