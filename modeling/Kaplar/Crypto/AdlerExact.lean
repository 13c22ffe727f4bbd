import Kaplar.Crypto.Adler32
import Mathlib.Data.Nat.Bitwise
import Mathlib.Tactic.Ring

/-! # Adler-32 with the remainder put off

Both sums may grow for 5552 bytes before a remainder is taken. The room that is left for the
bytes to come, whatever they are, is what an addition uses up and a remainder gives back.
-/
namespace Kaplar.Crypto
variable {buf l l' : List UInt8} {s : AdlerSums} {i j k n : ℕ}

/-- An addition that does not wrap. -/
def addExact (x y : UInt32) : Option UInt32 :=
  if x.toNat + y.toNat < 2 ^ 32 then some (x + y) else none

/-! ## The same loops with additions that must not wrap -/

def do1Exact (buf : List UInt8) (i : ℕ) (s : AdlerSums) : Option AdlerSums := do
  let a ← addExact s.1 (buf.getD i 0).toUInt32
  let b ← addExact s.2 a
  pure (a,b)

def do2Exact (buf : List UInt8) (i : ℕ) (s : AdlerSums) : Option AdlerSums :=
  do1Exact buf i s >>= do1Exact buf (i + 1)

def do4Exact (buf : List UInt8) (i : ℕ) (s : AdlerSums) : Option AdlerSums :=
  do2Exact buf i s >>= do2Exact buf (i + 2)

def do8Exact (buf : List UInt8) (i : ℕ) (s : AdlerSums) : Option AdlerSums :=
  do4Exact buf i s >>= do4Exact buf (i + 4)

def do16Exact (buf : List UInt8) (s : AdlerSums) : Option AdlerSums :=
  do8Exact buf 0 s >>= do8Exact buf 8

def adlerTailExact : ℕ → List UInt8 → AdlerSums → Option AdlerSums
  | 0, _, s => some s
  | k + 1, buf, s => do1Exact buf 0 s >>= adlerTailExact k (buf.drop 1)

def adlerUnrolledExact : ℕ → List UInt8 → AdlerSums → Option AdlerSums
  | k + 16, buf, s => do16Exact buf s >>= adlerUnrolledExact k (buf.drop 16)
  | k, buf, s => adlerTailExact k buf s

def adlerChunksExact : ℕ → List UInt8 → AdlerSums → Option AdlerSums
  | 0, _, s => some s
  | fuel + 1, buf, s =>
    if 0 < buf.length then
      let k := if buf.length > adlerNmax then adlerNmax else buf.length
      adlerUnrolledExact k buf s >>=
        fun t => adlerChunksExact fuel (buf.drop k) (t.1 % adlerBase,t.2 % adlerBase)
    else some s

def adler32Exact (buf : List UInt8) : Option UInt32 :=
  (adlerChunksExact buf.length buf (1,0)).map (fun s : AdlerSums => s.1 ||| s.2 <<< 16)

/-! ## The sums that the checksum is defined by -/

/-- The remainders after one more byte. -/
def adlerByte (x : ℕ × ℕ) (c : UInt8) : ℕ × ℕ :=
  let a := (x.1 + c.toNat) % 65521
  (a,(x.2 + a) % 65521)

def adlerSums (buf : List UInt8) : ℕ × ℕ := buf.foldl adlerByte (1,0)

def remainders (s : AdlerSums) : ℕ × ℕ := (s.1.toNat % 65521,s.2.toNat % 65521)

/-- Neither sum wraps in the course of so many bytes. -/
def Room (n : ℕ) (s : AdlerSums) : Prop :=
  2 * (s.2.toNat + n * s.1.toNat) + 255 * (n * (n + 1)) < 2 ^ 33

/-- What a piece of the loops does that takes these bytes, without and with checks. -/
def Adds (l : List UInt8) (f : AdlerSums → AdlerSums) (g : AdlerSums → Option AdlerSums) : Prop :=
  ∀ n s, Room (n + l.length) s → g s = some (f s) ∧ Room n (f s) ∧
    remainders (f s) = l.foldl adlerByte (remainders s)

theorem Adds.nil : Adds [] id some := fun _ _ h => ⟨rfl,h,rfl⟩

theorem Adds.append {f f' : AdlerSums → AdlerSums} {g g' : AdlerSums → Option AdlerSums}
    (h : Adds l f g) (h' : Adds l' f' g') :
    Adds (l ++ l') (fun s => f' (f s)) (fun s => g s >>= g') := by
  intro n s hroom
  rw [List.length_append, Nat.add_comm l.length, ← Nat.add_assoc] at hroom
  obtain ⟨hg,hmid,hrem⟩ := h _ s hroom
  obtain ⟨hg',hleft,hrem'⟩ := h' n (f s) hmid
  refine ⟨?_,hleft,?_⟩
  · change (g s).bind g' = _
    rw [hg, Option.bind_some, hg']
  · rw [hrem', hrem, List.foldl_append]

theorem addExact_eq {x y : UInt32} (h : x.toNat + y.toNat < 2 ^ 32) :
    addExact x y = some (x + y) ∧ (x + y).toNat = x.toNat + y.toNat :=
  ⟨if_pos h,(UInt32.toNat_add x y).trans (Nat.mod_eq_of_lt h)⟩

theorem do1_adds (buf : List UInt8) (i : ℕ) :
    Adds [buf.getD i 0] (do1 buf i) (do1Exact buf i) := by
  intro n s hroom
  obtain ⟨c,hc⟩ : ∃ c, buf.getD i 0 = c := ⟨_,rfl⟩
  have hbyte : c.toUInt32.toNat = c.toNat := UInt8.toNat_toUInt32 c
  have hlt : c.toNat < 256 := c.toNat_lt
  have hmul : n * c.toNat ≤ n * 255 := Nat.mul_le_mul_left n (by omega)
  have hsplit : 2 * (s.2.toNat + (n + 1) * s.1.toNat) + 255 * ((n + 1) * (n + 1 + 1)) =
      2 * (s.2.toNat + s.1.toNat + n * s.1.toNat) + 255 * (n * (n + 1)) + 510 * (n + 1) := by
    ring
  have hroom' : 2 * (s.2.toNat + (s.1.toNat + c.toNat) + n * (s.1.toNat + c.toNat)) +
      255 * (n * (n + 1)) < 2 ^ 33 := by
    rw [Room, List.length_singleton, hsplit] at hroom
    rw [Nat.mul_add n]
    omega
  obtain ⟨ha,hanat⟩ := addExact_eq (x := s.1) (y := c.toUInt32) (by rw [hbyte]; omega)
  obtain ⟨hb,hbnat⟩ := addExact_eq (x := s.2) (y := s.1 + c.toUInt32)
    (by rw [hanat, hbyte]; omega)
  rw [hc]
  simp only [do1, do1Exact, hc]
  refine ⟨?_,?_,?_⟩
  · rw [ha]
    change (addExact s.2 (s.1 + c.toUInt32)).bind _ = _
    rw [hb]
    rfl
  · rwa [Room, hbnat, hanat, hbyte]
  · simp only [remainders, adlerByte, List.foldl_cons, List.foldl_nil, hbnat, hanat, hbyte,
      Nat.add_mod_mod, Nat.mod_add_mod]

/-! ## The loops, piece by piece -/

theorem Adds.join {f f' : AdlerSums → AdlerSums} {g g' : AdlerSums → Option AdlerSums}
    (h : Adds ((buf.drop i).take j) f g) (h' : Adds ((buf.drop (i + j)).take k) f' g') :
    Adds ((buf.drop i).take (j + k)) (fun s => f' (f s)) (fun s => g s >>= g') := by
  rw [List.take_add, List.drop_drop]
  exact h.append h'

theorem do1_segment (h : i + 1 ≤ buf.length) :
    Adds ((buf.drop i).take 1) (do1 buf i) (do1Exact buf i) := by
  have hseg : (buf.drop i).take 1 = [buf.getD i 0] := by
    rw [List.drop_eq_getElem_cons h, List.getD_eq_getElem _ _ h]
    rfl
  rw [hseg]
  apply do1_adds

theorem do2_segment (h : i + 2 ≤ buf.length) :
    Adds ((buf.drop i).take 2) (do2 buf i) (do2Exact buf i) :=
  (do1_segment (by omega)).join (do1_segment (by omega))

theorem do4_segment (h : i + 4 ≤ buf.length) :
    Adds ((buf.drop i).take 4) (do4 buf i) (do4Exact buf i) :=
  (do2_segment (by omega)).join (do2_segment (by omega))

theorem do8_segment (h : i + 8 ≤ buf.length) :
    Adds ((buf.drop i).take 8) (do8 buf i) (do8Exact buf i) :=
  (do4_segment (by omega)).join (do4_segment (by omega))

theorem do16_segment (h : 16 ≤ buf.length) : Adds (buf.take 16) (do16 buf) (do16Exact buf) :=
  (do8_segment (i := 0) (by omega)).join (do8_segment (by omega))

theorem adlerTail_adds (h : k ≤ buf.length) :
    Adds (buf.take k) (adlerTail k buf) (adlerTailExact k buf) := by
  induction k generalizing buf with
  | zero => exact Adds.nil
  | succ k ih =>
    have hfirst : Adds (buf.take 1) (do1 buf 0) (do1Exact buf 0) :=
      do1_segment (i := 0) (by omega)
    have hrest : Adds ((buf.drop 1).take k) _ _ := ih (by rw [List.length_drop]; omega)
    rw [Nat.add_comm, List.take_add, Nat.add_comm]
    exact hfirst.append hrest

theorem adlerUnrolled_of_lt (buf : List UInt8) (h : k < 16) : adlerUnrolled k buf = adlerTail k buf ∧
    adlerUnrolledExact k buf = adlerTailExact k buf := by
  have hk : ∀ n, k = n + 16 → False := by
    intro n
    omega
  constructor
  · funext s
    rw [adlerUnrolled]
    exact hk
  · funext s
    rw [adlerUnrolledExact]
    exact hk

theorem adlerUnrolled_adds (h : k ≤ buf.length) :
    Adds (buf.take k) (adlerUnrolled k buf) (adlerUnrolledExact k buf) := by
  induction k using Nat.strong_induction_on generalizing buf with
  | _ k ih =>
    by_cases hk : 16 ≤ k
    · obtain ⟨k,rfl⟩ := Nat.exists_eq_add_of_le' hk
      have hfirst : Adds (buf.take 16) (do16 buf) (do16Exact buf) := do16_segment (by omega)
      have hrest : Adds ((buf.drop 16).take k) _ _ :=
        ih k (by omega) (by rw [List.length_drop]; omega)
      rw [Nat.add_comm, List.take_add, Nat.add_comm]
      exact hfirst.append hrest
    · obtain ⟨hplain,hexact⟩ := adlerUnrolled_of_lt buf (Nat.lt_of_not_le hk)
      rw [hplain, hexact]
      exact adlerTail_adds h

/-! ## The remainders in between -/

/-- Both sums are remainders. -/
def Reduced (s : AdlerSums) : Prop := s.1.toNat < 65521 ∧ s.2.toNat < 65521

/-- `NMAX` is just small enough for that. -/
theorem Reduced.room (h : Reduced s) (hk : k ≤ adlerNmax) : Room (0 + k) s := by
  obtain ⟨ha,hb⟩ := h
  have hka : k * s.1.toNat ≤ 5552 * 65520 := Nat.mul_le_mul hk (by omega)
  have hkk : k * (k + 1) ≤ 5552 * 5553 := Nat.mul_le_mul hk (Nat.succ_le_succ hk)
  rw [Room, Nat.zero_add]
  omega

theorem Reduced.remainders_eq (h : Reduced s) : remainders s = (s.1.toNat,s.2.toNat) := by
  rw [remainders, Nat.mod_eq_of_lt h.1, Nat.mod_eq_of_lt h.2]

theorem reduced_mod (s : AdlerSums) : Reduced (s.1 % adlerBase,s.2 % adlerBase) :=
  ⟨Nat.mod_lt _ (by decide),Nat.mod_lt _ (by decide)⟩

theorem remainders_mod (s : AdlerSums) :
    remainders (s.1 % adlerBase,s.2 % adlerBase) = remainders s :=
  (reduced_mod s).remainders_eq

theorem adlerChunks_run {fuel : ℕ} (h : Reduced s) (hf : buf.length ≤ fuel) :
    adlerChunksExact fuel buf s = some (adlerChunks fuel buf s) ∧
      Reduced (adlerChunks fuel buf s) ∧
      remainders (adlerChunks fuel buf s) = buf.foldl adlerByte (remainders s) := by
  induction fuel generalizing buf s with
  | zero =>
    obtain rfl := List.length_eq_zero_iff.mp (Nat.le_zero.mp hf)
    exact ⟨rfl,h,rfl⟩
  | succ fuel ih =>
    by_cases hbuf : 0 < buf.length
    · obtain ⟨k,hk⟩ : ∃ k, (if buf.length > adlerNmax then adlerNmax else buf.length) = k :=
        ⟨_,rfl⟩
      have hbounds : 0 < k ∧ k ≤ buf.length ∧ k ≤ adlerNmax := by
        rw [← hk]
        unfold adlerNmax
        split <;> omega
      obtain ⟨hpos,hlen,hmax⟩ := hbounds
      have hroom : Room (0 + (buf.take k).length) s := by
        rw [List.length_take_of_le hlen]
        exact h.room hmax
      obtain ⟨hexact,_,hrem⟩ := adlerUnrolled_adds hlen 0 s hroom
      have hdrop : (buf.drop k).length ≤ fuel := by
        rw [List.length_drop]
        omega
      obtain ⟨hrest,hred,hsums⟩ := ih (reduced_mod (adlerUnrolled k buf s)) hdrop
      simp only [adlerChunks, adlerChunksExact, if_pos hbuf, hk]
      refine ⟨?_,hred,?_⟩
      · rw [hexact]
        exact hrest
      · rw [hsums, remainders_mod, hrem, ← List.foldl_append, List.take_append_drop]
    · obtain rfl := List.length_eq_zero_iff.mp (Nat.eq_zero_of_not_pos hbuf)
      exact ⟨rfl,h,rfl⟩

theorem join_halves (h : Reduced s) :
    (s.1 ||| s.2 <<< 16).toNat = (s.2.toNat <<< 16) ||| s.1.toNat := by
  have hfits : s.2.toNat <<< 16 < 2 ^ 32 := by
    have hb := h.2
    rw [Nat.shiftLeft_eq]
    omega
  rw [UInt32.toNat_or, UInt32.toNat_shiftLeft, Nat.lor_comm]
  change (s.2.toNat <<< 16 % 2 ^ 32) ||| _ = _
  rw [Nat.mod_eq_of_lt hfits]

/-- The checksum is the one that takes both remainders after every byte, and no addition on
the way to it wraps. -/
theorem adler32_exact (buf : List UInt8) : adler32Exact buf = some (adler32 buf) ∧
    (adler32 buf).toNat = ((adlerSums buf).2 <<< 16) ||| (adlerSums buf).1 := by
  have hstart : Reduced (1,0) := ⟨by decide,by decide⟩
  obtain ⟨hexact,hred,hsums⟩ := adlerChunks_run hstart (Nat.le_refl buf.length)
  have hsums' : remainders (adlerChunks buf.length buf (1,0)) = adlerSums buf := hsums
  rw [hred.remainders_eq] at hsums'
  constructor
  · rw [adler32Exact, hexact]
    rfl
  · rw [← hsums']
    exact join_halves hred

end Kaplar.Crypto
