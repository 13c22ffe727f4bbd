import Kaplar.Crypto.Blowfish

/-! # What the Blowfish modes restore -/
namespace Kaplar.Crypto
open BlowfishCtx
variable {ρ : Type} [DecidableEq ρ] {g : UInt32 × UInt32 → UInt32 × UInt32} {m : Memory ρ}
  {data iv : ρ} {off ivoff n : ℕ}

/-- A block after `g`: its second result, and its own second word. -/
def stored (g : UInt32 × UInt32 → UInt32 × UInt32) (d : UInt32 × UInt32) : UInt32 × UInt32 :=
  ((g d).2,d.2)

def xorPair (d e : UInt32 × UInt32) : UInt32 × UInt32 := (d.1 ^^^ e.1,d.2 ^^^ e.2)

theorem xorPair_xorPair (d e : UInt32 × UInt32) : xorPair (xorPair d e) e = d := by
  simp only [xorPair, UInt32.xor_assoc, UInt32.xor_self, UInt32.xor_zero]

theorem xorPair_left_inj {d d' e : UInt32 × UInt32} : xorPair d e = xorPair d' e ↔ d = d' := by
  constructor
  · intro h
    rw [← xorPair_xorPair d e, h, xorPair_xorPair]
  · intro h
    rw [h]

/-! ## The loops on the words in memory -/

theorem codePair_run (h : off + 8 ≤ m.size data) : codePair g data off m =
    some ((),m.write data off (pairBytes (stored g (m.pair data off)))) := by
  let m₁ := m.write data off (bytes32be (g (m.pair data off)).2)
  have hsecond : m₁.slice data (off + 4) 4 = bytes32be (m.pair data off).2 := by
    have happart : m₁.slice data (off + 4) 4 = m.slice data (off + 4) 4 :=
      Memory.slice_write_of_disjoint (.inr (Nat.le_refl _))
    rw [happart, Memory.slice_four]
    rfl
  have hkept : m₁.write data (off + 4) (bytes32be (m.pair data off).2) = m₁ := by
    rw [← hsecond, Memory.write_slice]
  have hboth : m.write data off (pairBytes (stored g (m.pair data off))) = m₁ := by
    rw [← hkept, pairBytes, stored, ← Memory.write_append]
    rfl
  rw [hboth, codePair, bind_run (decodeU32be_run (by omega)), bind_run (decodeU32be_run (by omega)),
    encodeU32be, bind_run (storeBytes_run (by rw [length_bytes32be]; omega)), encodeU32be,
    storeBytes_run (by rw [length_bytes32be, Memory.size_write]; omega),
    Memory.write_write (by simp)]
  rfl

theorem ecbLoop_run (h : off + 8 * n ≤ m.size data) : ecbLoop g data off (8 * n) m =
    some ((),m.write data off (pairsBytes ((m.pairs data off n).map (stored g)))) := by
  induction n generalizing m off with
  | zero =>
    change _ = some ((),m.write data off [])
    rw [Memory.write_nil]
    rfl
  | succ n ih =>
    have hrest : (m.write data off (pairBytes (stored g (m.pair data off)))).pairs data (off + 8) n =
        m.pairs data (off + 8) n := Memory.pairs_write_of_disjoint (.inr (Nat.le_refl _))
    change ecbLoop g data off (8 * n + 8) m = _
    rw [ecbLoop, bind_run (codePair_run (by omega)), ih (by rw [Memory.size_write]; omega), hrest,
      Memory.pairs, List.map_cons, pairsBytes_cons, ← Memory.write_append]
    rfl

theorem xorBytes_run (hd : off + n ≤ m.size data) (hi : ivoff + n ≤ m.size iv)
    (hapart : iv ≠ data ∨ ivoff + n ≤ off) : xorBytes data off iv ivoff n m =
      some ((),m.write data off
        (List.zipWith (· ^^^ ·) (m.slice data off n) (m.slice iv ivoff n))) := by
  induction n generalizing m off ivoff with
  | zero =>
    change _ = some ((),m.write data off [])
    rw [Memory.write_nil]
    rfl
  | succ n ih =>
    let m₁ := m.write data off [m.bytes data off ^^^ m.bytes iv ivoff]
    have hdata : m₁.slice data (off + 1) n = m.slice data (off + 1) n :=
      Memory.slice_write_of_disjoint (.inr (Nat.le_refl _))
    have hiv : m₁.slice iv (ivoff + 1) n = m.slice iv (ivoff + 1) n := by
      rcases hapart with hne | hle
      · exact Memory.slice_write_of_ne hne
      · apply Memory.slice_congr
        intro i hi
        exact Memory.bytes_write_of_disjoint (by omega)
    rw [xorBytes, bind_run (load_run (by omega)), bind_run (load_run (by omega)),
      bind_run (store_run (by omega)), ih (by rw [Memory.size_write]; omega)
        (by rw [Memory.size_write]; omega) (hapart.imp_right (by omega)), hdata, hiv,
      Memory.slice_succ, Memory.slice_succ, List.zipWith_cons_cons]
    exact congrArg (fun m => some ((),m)) (Memory.write_append (l := [_]))

theorem xorPair_run (hd : off + 8 ≤ m.size data) (hi : ivoff + 8 ≤ m.size iv)
    (hapart : iv ≠ data ∨ ivoff + 8 ≤ off) : xorBytes data off iv ivoff 8 m =
      some ((),m.write data off (pairBytes (xorPair (m.pair data off) (m.pair iv ivoff)))) := by
  rw [xorBytes_run hd hi hapart, Memory.slice_eight, Memory.slice_eight, ← pairBytes_xor]
  rfl

/-- What `blowfish_cbc_encode` leaves: each block is coded with the one before. -/
def cbcStored (g : UInt32 × UInt32 → UInt32 × UInt32) :
    UInt32 × UInt32 → List (UInt32 × UInt32) → List (UInt32 × UInt32)
  | _, [] => []
  | v, d :: l => stored g (xorPair d v) :: cbcStored g (stored g (xorPair d v)) l

theorem cbcEncodeLoop_run (hd : off + 8 * n ≤ m.size data) (hi : ivoff + 8 ≤ m.size iv)
    (hapart : iv ≠ data ∨ ivoff + 8 ≤ off) : cbcEncodeLoop g data iv ivoff off (8 * n) m =
      some ((),m.write data off
        (pairsBytes (cbcStored g (m.pair iv ivoff) (m.pairs data off n)))) := by
  induction n generalizing m iv ivoff off with
  | zero =>
    change _ = some ((),m.write data off [])
    rw [Memory.write_nil]
    rfl
  | succ n ih =>
    let z := xorPair (m.pair data off) (m.pair iv ivoff)
    let m₁ := m.write data off (pairBytes z)
    let m₂ := m.write data off (pairBytes (stored g z))
    have hz : m₁.pair data off = z := Memory.pair_write_self
    have hcode : codePair g data off m₁ = some ((),m₂) := by
      rw [codePair_run (by rw [Memory.size_write]; omega), hz, Memory.write_write (by simp)]
    have hprev : m₂.pair data off = stored g z := Memory.pair_write_self
    have hrest : m₂.pairs data (off + 8) n = m.pairs data (off + 8) n :=
      Memory.pairs_write_of_disjoint (.inr (Nat.le_refl _))
    change cbcEncodeLoop g data iv ivoff off (8 * n + 8) m = _
    rw [cbcEncodeLoop, bind_run (xorPair_run (by omega) hi hapart), bind_run hcode,
      ih (by rw [Memory.size_write]; omega) (by rw [Memory.size_write]; omega)
        (.inr (Nat.le_refl _)), hprev, hrest, Memory.pairs, cbcStored, pairsBytes_cons,
      ← Memory.write_append]
    rfl

/-- What `blowfish_cbc_decode` leaves: each block is coded on its own and then added to the
one before. -/
def cbcRestored (g : UInt32 × UInt32 → UInt32 × UInt32) :
    UInt32 × UInt32 → List (UInt32 × UInt32) → List (UInt32 × UInt32)
  | _, [] => []
  | v, d :: l => xorPair (stored g d) v :: cbcRestored g d l

@[simp] theorem length_cbcRestored {v : UInt32 × UInt32} {l : List (UInt32 × UInt32)} :
    (cbcRestored g v l).length = l.length := by
  induction l generalizing v with
  | nil => rfl
  | cons d l ih => rw [cbcRestored, List.length_cons, ih, List.length_cons]

theorem cbcRestored_concat {v d : UInt32 × UInt32} {l : List (UInt32 × UInt32)} :
    cbcRestored g v (l ++ [d]) = cbcRestored g v l ++ [xorPair (stored g d) (l.getLastD v)] := by
  induction l generalizing v with
  | nil => rfl
  | cons e l ih => rw [List.cons_append, cbcRestored, ih, cbcRestored, List.getLastD_cons]; rfl

omit [DecidableEq ρ] in
theorem getLastD_pairs {v : UInt32 × UInt32} : (m.pairs data off n).getLastD v =
    if 8 * n + 8 > 8 then m.pair data (off + 8 * n - 8) else v := by
  cases n with
  | zero => rfl
  | succ n =>
    have hoff : off + 8 * (n + 1) - 8 = off + 8 * n := by omega
    rw [Memory.pairs_concat, List.getLastD_concat, if_pos (by omega), hoff]

-- from the last block to the first, so each one still finds the block before as it was
theorem cbcDecodeLoop_run (hd : off + 8 * n ≤ m.size data) (hi : ivoff + 8 ≤ m.size iv)
    (hne : iv ≠ data) : cbcDecodeLoop g data iv ivoff off (8 * n) m =
      some ((),m.write data off
        (pairsBytes (cbcRestored g (m.pair iv ivoff) (m.pairs data off n)))) := by
  induction n generalizing m with
  | zero =>
    change _ = some ((),m.write data off [])
    rw [Memory.write_nil]
    rfl
  | succ n ih =>
    let c := stored g (m.pair data (off + 8 * n))
    let m₁ := m.write data (off + 8 * n) (pairBytes c)
    let prev := (m.pairs data off n).getLastD (m.pair iv ivoff)
    let m₂ := m.write data (off + 8 * n) (pairBytes (xorPair c prev))
    have hc : m₁.pair data (off + 8 * n) = c := Memory.pair_write_self
    have hover : m₁.write data (off + 8 * n) (pairBytes (xorPair c prev)) = m₂ :=
      Memory.write_write (by simp)
    have hxor (k : Unit → MemM ρ Unit) :
        (if 8 * n + 8 > 8 then xorBytes data (off + 8 * n) data (off + 8 * n - 8) 8 >>= k
          else xorBytes data (off + 8 * n) iv ivoff 8 >>= k) m₁ = k () m₂ := by
      have hprev : prev = _ := getLastD_pairs
      have hd₁ : off + 8 * n + 8 ≤ m₁.size data := by rw [Memory.size_write]; omega
      by_cases hmore : 8 * n + 8 > 8
      · have hkept : m₁.pair data (off + 8 * n - 8) = m.pair data (off + 8 * n - 8) :=
          Memory.pair_write_of_disjoint (.inl (by omega))
        rw [if_pos hmore] at hprev ⊢
        rw [bind_run (xorPair_run hd₁ (by omega) (.inr (by omega))), hc, hkept, ← hprev, hover]
      · have hkept : m₁.pair iv ivoff = m.pair iv ivoff := Memory.pair_write_of_ne hne
        rw [if_neg hmore] at hprev ⊢
        rw [bind_run (xorPair_run hd₁ hi (.inl hne)), hc, hkept, ← hprev, hover]
    have hiv : m₂.pair iv ivoff = m.pair iv ivoff := Memory.pair_write_of_ne hne
    have hrest : m₂.pairs data off n = m.pairs data off n :=
      Memory.pairs_write_of_disjoint (.inl (Nat.le_refl _))
    have hfirst : cbcDecodeLoop g data iv ivoff off (8 * n) m₂ = _ :=
      ih (by rw [Memory.size_write]; omega) hi
    change cbcDecodeLoop g data iv ivoff off (8 * n + 8) m = _
    rw [cbcDecodeLoop, bind_run (codePair_run (by omega)), hxor]
    change cbcDecodeLoop g data iv ivoff off (8 * n) m₂ = _
    rw [hfirst, hiv, hrest, Memory.pairs_concat, cbcRestored_concat, pairsBytes_append,
      ← Memory.write_prepend, length_pairsBytes, length_cbcRestored, Memory.length_pairs]
    rfl

/-! ## There and back -/

variable {b : BlowfishCtx}

/-- Decoding gives the first word of a block back, from the one result that was kept and the
word that was never written. -/
def Survives (b : BlowfishCtx) (d : UInt32 × UInt32) : Prop :=
  (b.decodeOne (stored b.encodeOne d)).2 = d.1

instance : DecidablePred (Survives b) := fun _ => inferInstanceAs (Decidable (_ = _))

theorem stored_stored_iff {d : UInt32 × UInt32} :
    stored b.decodeOne (stored b.encodeOne d) = d ↔ Survives b d := by
  obtain ⟨d0,d1⟩ := d
  constructor
  · exact congrArg Prod.fst
  · intro h
    exact Prod.ext h rfl

/-- The blocks that `blowfish_cbc_encode` gives to the cipher. -/
def chained (g : UInt32 × UInt32 → UInt32 × UInt32) :
    UInt32 × UInt32 → List (UInt32 × UInt32) → List (UInt32 × UInt32)
  | _, [] => []
  | v, d :: l => xorPair d v :: chained g (stored g (xorPair d v)) l

theorem ecbStored_iff {l : List (UInt32 × UInt32)} :
    (l.map (stored b.encodeOne)).map (stored b.decodeOne) = l ↔ ∀ d ∈ l, Survives b d := by
  have hmap : l.map (stored b.decodeOne ∘ stored b.encodeOne) = l.map id ↔
      ∀ d ∈ l, Survives b d :=
    List.map_inj_left.trans (forall₂_congr (fun _ _ => stored_stored_iff))
  rwa [List.map_id, ← List.map_map] at hmap

theorem cbcStored_iff {v : UInt32 × UInt32} {l : List (UInt32 × UInt32)} :
    cbcRestored b.decodeOne v (cbcStored b.encodeOne v l) = l ↔
      ∀ z ∈ chained b.encodeOne v l, Survives b z := by
  induction l generalizing v with
  | nil => simp [cbcStored,cbcRestored,chained]
  | cons d l ih =>
    have hd : xorPair (stored b.decodeOne (stored b.encodeOne (xorPair d v))) v = d ↔
        Survives b (xorPair d v) := by
      rw [← stored_stored_iff, ← xorPair_left_inj (e := v), xorPair_xorPair]
    rw [cbcStored, cbcRestored, List.cons.injEq, hd, ih, chained, List.forall_mem_cons]

theorem roundTo8_of_dvd {len : ℕ} (h : 8 ∣ len) : roundTo8 len = 8 * (len / 8) := by
  unfold roundTo8
  omega

@[simp] theorem length_cbcStored {v : UInt32 × UInt32} {l : List (UInt32 × UInt32)} :
    (cbcStored g v l).length = l.length := by
  induction l generalizing v with
  | nil => rfl
  | cons d l ih => rw [cbcStored, List.length_cons, ih, List.length_cons]

theorem ecb_thereAndBack {len : ℕ} (h8 : 8 ∣ len) (hd : off + len ≤ m.size data) :
    (do blowfishEcbEncode data b off len; blowfishEcbDecode data b off len : MemM ρ Unit) m =
      some ((),m.write data off (pairsBytes
        (((m.pairs data off (len / 8)).map (stored b.encodeOne)).map (stored b.decodeOne)))) := by
  let l := (m.pairs data off (len / 8)).map (stored b.encodeOne)
  let m₁ := m.write data off (pairsBytes l)
  have hlen : off + 8 * (len / 8) ≤ m.size data := by omega
  have hl : l.length = len / 8 := by rw [List.length_map, Memory.length_pairs]
  have hcoded : m₁.pairs data off (len / 8) = l := hl ▸ Memory.pairs_write_self
  have hback : ecbLoop b.decodeOne data off (8 * (len / 8)) m₁ = _ := ecbLoop_run hlen
  rw [blowfishEcbEncode, blowfishEcbDecode, roundTo8_of_dvd h8, bind_run (ecbLoop_run hlen)]
  change ecbLoop b.decodeOne data off (8 * (len / 8)) m₁ = _
  rw [hback, hcoded, Memory.write_write (by simp)]

theorem cbc_thereAndBack {len : ℕ} (h8 : 8 ∣ len) (hd : off + len ≤ m.size data)
    (hi : ivoff + 8 ≤ m.size iv) (hne : iv ≠ data) :
    (do blowfishCbcEncode data b iv ivoff off len
        blowfishCbcDecode data b iv ivoff off len : MemM ρ Unit) m =
      some ((),m.write data off (pairsBytes (cbcRestored b.decodeOne (m.pair iv ivoff)
        (cbcStored b.encodeOne (m.pair iv ivoff) (m.pairs data off (len / 8)))))) := by
  let l := cbcStored b.encodeOne (m.pair iv ivoff) (m.pairs data off (len / 8))
  let m₁ := m.write data off (pairsBytes l)
  have hlen : off + 8 * (len / 8) ≤ m.size data := by omega
  have hl : l.length = len / 8 := by rw [length_cbcStored, Memory.length_pairs]
  have hcoded : m₁.pairs data off (len / 8) = l := hl ▸ Memory.pairs_write_self
  have hiv : m₁.pair iv ivoff = m.pair iv ivoff := Memory.pair_write_of_ne hne
  have hback : cbcDecodeLoop b.decodeOne data iv ivoff off (8 * (len / 8)) m₁ = _ :=
    cbcDecodeLoop_run hlen hi hne
  rw [blowfishCbcEncode, blowfishCbcDecode, roundTo8_of_dvd h8,
    bind_run (cbcEncodeLoop_run hlen hi (.inl hne))]
  change cbcDecodeLoop b.decodeOne data iv ivoff off (8 * (len / 8)) m₁ = _
  rw [hback, hcoded, hiv, Memory.write_write (by simp)]

theorem run_write_pairs_eq_iff {l : List (UInt32 × UInt32)} (hl : l.length = n) :
    some ((),m.write data off (pairsBytes l)) = some ((),m) ↔ l = m.pairs data off n := by
  rw [Option.some.injEq, Prod.mk.injEq, eq_self, true_and, Memory.write_pairs_eq_iff, hl]

-- the key words are all zero but the first
def oneKey (k : UInt32) : BlowfishCtx where
  P i := if i.val = 0 then k else 0
  S _ := 0

def zeroBlocks : Memory Bool where
  size _ := 8
  bytes _ _ := 0

end Kaplar.Crypto
