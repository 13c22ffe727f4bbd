import Kaplar.Foundation.Memory
import Mathlib.Logic.Function.Iterate

/-! # XTEA -/
namespace Kaplar.Crypto

abbrev XteaKey := Fin 4 → UInt32

structure XteaState where
  v0 : UInt32
  v1 : UInt32
  sum : UInt32

def delta : UInt32 := 0x9E3779B9

def mix (v : UInt32) : UInt32 := (v <<< 4 ^^^ v >>> 5) + v

def keyWord (k : XteaKey) (i : UInt32) : UInt32 := k (Fin.ofNat 4 i.toNat)

def encodeRound (k : XteaKey) (s : XteaState) : XteaState :=
  let v0 := s.v0 + (mix s.v1 ^^^ (s.sum + keyWord k (s.sum &&& 3)))
  let sum := s.sum + delta
  let v1 := s.v1 + (mix v0 ^^^ (sum + keyWord k (sum >>> 11 &&& 3)))
  ⟨v0,v1,sum⟩

def decodeRound (k : XteaKey) (s : XteaState) : XteaState :=
  let v1 := s.v1 - (mix s.v0 ^^^ (s.sum + keyWord k (s.sum >>> 11 &&& 3)))
  let sum := s.sum - delta
  let v0 := s.v0 - (mix v1 ^^^ (sum + keyWord k (sum &&& 3)))
  ⟨v0,v1,sum⟩

def encodeBlock (k : XteaKey) (v : UInt32 × UInt32) : UInt32 × UInt32 :=
  let s := (encodeRound k)^[32] ⟨v.1,v.2,0⟩
  (s.v0,s.v1)

def decodeBlock (k : XteaKey) (v : UInt32 × UInt32) : UInt32 × UInt32 :=
  let s := (decodeRound k)^[32] ⟨v.1,v.2,0xC6EF3720⟩
  (s.v0,s.v1)

section Blocks
variable {ρ : Type} [DecidableEq ρ]

/-- The loop of both directions over a buffer, in place. -/
def codeBlocks (f : UInt32 × UInt32 → UInt32 × UInt32) (data : ρ) : ℕ → ℕ → MemM ρ Unit
  | _, 0 => pure ()
  | off, len + 8 => do
    let v0 ← decodeU32le data off
    let v1 ← decodeU32le data (off + 4)
    encodeU32le data off (f (v0,v1)).1
    encodeU32le data (off + 4) (f (v0,v1)).2
    codeBlocks f data (off + 8) len
  -- less than a block is left: `len` wraps around and the loop runs off the buffer
  | _, _ + 1 => fun _ => none

def xteaEncode (k : XteaKey) (data : ρ) (off len : ℕ) : MemM ρ Unit :=
  codeBlocks (encodeBlock k) data off len

def xteaDecode (k : XteaKey) (data : ρ) (off len : ℕ) : MemM ρ Unit :=
  codeBlocks (decodeBlock k) data off len

end Blocks

/-! ## Rounds and blocks -/
section Rounds
variable (k : XteaKey)

theorem decodeRound_encodeRound : Function.LeftInverse (decodeRound k) (encodeRound k) := by
  intro s
  have hsum : s.sum + delta - delta = s.sum := UInt32.add_sub_cancel _ _
  simp only [decodeRound, encodeRound, hsum, UInt32.add_sub_cancel]

theorem sum_encodeRound : Function.Semiconj XteaState.sum (encodeRound k) (· + delta) :=
  fun _ => rfl

/-- The constant `xtea_decode` starts from is where `xtea_encode` ends. -/
theorem sum_encodeRounds (v0 v1 : UInt32) :
    ((encodeRound k)^[32] ⟨v0,v1,0⟩).sum = 0xC6EF3720 := by
  have hsemi := ((sum_encodeRound k).iterate_right 32).eq ⟨v0,v1,0⟩
  rw [hsemi]
  change (· + delta)^[32] (0 : UInt32) = _
  decide

theorem encodeRound_decodeRound : Function.LeftInverse (encodeRound k) (decodeRound k) := by
  intro s
  have hsum : s.sum - delta + delta = s.sum := UInt32.sub_add_cancel _ _
  simp only [decodeRound, encodeRound, hsum, UInt32.sub_add_cancel]

theorem sum_decodeRound : Function.Semiconj XteaState.sum (decodeRound k) (· - delta) :=
  fun _ => rfl

theorem sum_decodeRounds (v0 v1 : UInt32) :
    ((decodeRound k)^[32] ⟨v0,v1,0xC6EF3720⟩).sum = 0 := by
  have hsemi := ((sum_decodeRound k).iterate_right 32).eq ⟨v0,v1,0xC6EF3720⟩
  rw [hsemi]
  change (· - delta)^[32] (0xC6EF3720 : UInt32) = _
  decide

theorem decodeBlock_encodeBlock (v : UInt32 × UInt32) : decodeBlock k (encodeBlock k v) = v := by
  have hinv := (decodeRound_encodeRound k).iterate 32 ⟨v.1,v.2,0⟩
  have hsum := sum_encodeRounds k v.1 v.2
  rcases hs : (encodeRound k)^[32] ⟨v.1,v.2,0⟩ with ⟨v0,v1,sum⟩
  rw [hs] at hinv hsum
  obtain rfl : sum = 0xC6EF3720 := hsum
  rw [encodeBlock, hs, decodeBlock, hinv]

theorem encodeBlock_decodeBlock (v : UInt32 × UInt32) : encodeBlock k (decodeBlock k v) = v := by
  have hinv := (encodeRound_decodeRound k).iterate 32 ⟨v.1,v.2,0xC6EF3720⟩
  have hsum := sum_decodeRounds k v.1 v.2
  rcases hs : (decodeRound k)^[32] ⟨v.1,v.2,0xC6EF3720⟩ with ⟨v0,v1,sum⟩
  rw [hs] at hinv hsum
  obtain rfl : sum = 0 := hsum
  rw [decodeBlock, hs, encodeBlock, hinv]

end Rounds

/-! ## Byte strings -/

/-- The words of whole blocks of eight bytes, transformed block by block. -/
def mapBlocks (f : UInt32 × UInt32 → UInt32 × UInt32) : List UInt8 → List UInt8
  | b0 :: b1 :: b2 :: b3 :: c0 :: c1 :: c2 :: c3 :: l =>
    bytes32 (f (u32le b0 b1 b2 b3,u32le c0 c1 c2 c3)).1 ++
      (bytes32 (f (u32le b0 b1 b2 b3,u32le c0 c1 c2 c3)).2 ++ mapBlocks f l)
  | _ => []

theorem exists_block {n : ℕ} {l : List UInt8} (h : l.length = 8 * (n + 1)) :
    ∃ b0 b1 b2 b3 c0 c1 c2 c3 l', l = b0 :: b1 :: b2 :: b3 :: c0 :: c1 :: c2 :: c3 :: l' ∧
      l'.length = 8 * n := by
  rcases l with _ | ⟨b0,_ | ⟨b1,_ | ⟨b2,_ | ⟨b3,_ | ⟨c0,_ | ⟨c1,_ | ⟨c2,_ | ⟨c3,l'⟩⟩⟩⟩⟩⟩⟩⟩
  all_goals simp only [List.length_cons, List.length_nil] at h
  all_goals try omega
  exact ⟨b0,b1,b2,b3,c0,c1,c2,c3,l',rfl,by omega⟩

theorem length_mapBlocks (f : UInt32 × UInt32 → UInt32 × UInt32) (n : ℕ) (l : List UInt8)
    (h : l.length = 8 * n) : (mapBlocks f l).length = 8 * n := by
  induction n generalizing l with
  | zero =>
    obtain rfl := List.length_eq_zero_iff.mp h
    rfl
  | succ n ih =>
    obtain ⟨b0,b1,b2,b3,c0,c1,c2,c3,l',rfl,hl⟩ := exists_block h
    simp only [mapBlocks, List.length_append, length_bytes32, ih l' hl]
    omega

theorem mapBlocks_inverse {f g : UInt32 × UInt32 → UInt32 × UInt32} (hgf : ∀ v, g (f v) = v)
    (n : ℕ) (l : List UInt8) (h : l.length = 8 * n) : mapBlocks g (mapBlocks f l) = l := by
  induction n generalizing l with
  | zero =>
    obtain rfl := List.length_eq_zero_iff.mp h
    rfl
  | succ n ih =>
    obtain ⟨b0,b1,b2,b3,c0,c1,c2,c3,l',rfl,hl⟩ := exists_block h
    have hb := bytes32_u32le b0 b1 b2 b3
    have hc := bytes32_u32le c0 c1 c2 c3
    simp only [mapBlocks, bytes32, List.cons_append, List.nil_append, u32le_bytes32, ih l' hl, hgf]
    simp only [bytes32, List.cons.injEq, and_true] at hb hc
    simp only [hb, hc]

section Runs
variable {ρ : Type} [DecidableEq ρ] {m : Memory ρ} {data : ρ} {off : ℕ}

theorem codeBlocks_run (f : UInt32 × UInt32 → UInt32 × UInt32) (n : ℕ)
    (h : off + 8 * n ≤ m.size data) : codeBlocks f data off (8 * n) m =
      some ((),m.write data off (mapBlocks f (m.slice data off (8 * n)))) := by
  induction n generalizing m off with
  | zero =>
    change _ = some ((),m.write data off [])
    rw [Memory.write_nil]
    rfl
  | succ n ih =>
    have hslice : m.slice data off (8 * (n + 1)) =
        m.slice data off 8 ++ m.slice data (off + 8) (8 * n) := by
      rw [← Memory.slice_add, Nat.mul_succ, Nat.add_comm]
    let w := f (m.u32 data off,m.u32 data (off + 4))
    let m₁ := m.write data off (bytes32 w.1 ++ bytes32 w.2)
    have hrest : m₁.slice data (off + 8) (8 * n) = m.slice data (off + 8) (8 * n) :=
      Memory.slice_write_of_disjoint (Or.inr (by simp))
    have hwrite : ∀ l, m₁.write data (off + 8) l =
        m.write data off (bytes32 w.1 ++ (bytes32 w.2 ++ l)) := by
      intro l
      rw [← List.append_assoc, ← Memory.write_append]
      rfl
    have hstore : (m.write data off (bytes32 w.1)).write data (off + 4) (bytes32 w.2) = m₁ :=
      Memory.write_append (l := bytes32 w.1)
    change codeBlocks f data off (8 * n + 8) m = _
    rw [codeBlocks, bind_run (decodeU32le_run (by omega)), bind_run (decodeU32le_run (by omega)),
      encodeU32le, bind_run (storeBytes_run (by rw [length_bytes32]; omega)), encodeU32le,
      bind_run (storeBytes_run (by rw [length_bytes32, Memory.size_write]; omega)), hstore,
      ih (by rw [Memory.size_write]; omega), hrest, hwrite, hslice]
    rfl

/-- A pass over whole blocks is undone by one with the inverse transformation. -/
theorem codeBlocks_inverse {f g : UInt32 × UInt32 → UInt32 × UInt32} (hgf : ∀ v, g (f v) = v)
    (n : ℕ) (h : off + 8 * n ≤ m.size data) :
    (do codeBlocks f data off (8 * n); codeBlocks g data off (8 * n)) m = some ((),m) := by
  have hlen : (m.slice data off (8 * n)).length = 8 * n := Memory.length_slice _ _ _ _
  have hlen' := length_mapBlocks f n _ hlen
  have hread := Memory.slice_write_self (m := m) (r := data) (o := off)
    (l := mapBlocks f (m.slice data off (8 * n)))
  rw [hlen'] at hread
  rw [bind_run (codeBlocks_run f n h), codeBlocks_run g n (by rwa [Memory.size_write]), hread,
    mapBlocks_inverse hgf n _ hlen, Memory.write_write (by omega), Memory.write_slice]

end Runs

section RoundTrip
variable {ρ : Type} [DecidableEq ρ]

/-- Both orders of encoding and decoding give the buffer back and touch nothing else. -/
theorem xtea_roundTrip (k : XteaKey) (m : Memory ρ) (data : ρ) (off len : ℕ) (h8 : 8 ∣ len)
    (h : off + len ≤ m.size data) :
    (do xteaEncode k data off len; xteaDecode k data off len) m = some ((),m) ∧
      (do xteaDecode k data off len; xteaEncode k data off len) m = some ((),m) := by
  obtain ⟨n,rfl⟩ := h8
  exact ⟨codeBlocks_inverse (decodeBlock_encodeBlock k) n h,
    codeBlocks_inverse (encodeBlock_decodeBlock k) n h⟩

theorem xtea_roundTrip_twoBlocks :
    (do xteaEncode (fun _ => 0x11111111) () 0 16; xteaDecode (fun _ => 0x11111111) () 0 16)
      (⟨fun _ => 16,fun _ i => UInt8.ofNat i⟩ : Memory Unit) =
        some ((),⟨fun _ => 16,fun _ i => UInt8.ofNat i⟩) :=
  (xtea_roundTrip _ _ _ _ _ (by decide) (by decide)).1

end RoundTrip

end Kaplar.Crypto
