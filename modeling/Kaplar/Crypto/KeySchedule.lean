import Kaplar.Crypto.BcryptVerify
import Kaplar.Crypto.BlowfishRepeat
import Kaplar.Foundation.Cyclic

/-! # The key schedule of Blowfish

A key is read in a circle and mixed into the first table. Then the cipher itself fills both
tables, each word with the tables as they are at that time.
-/
namespace Kaplar.Crypto
open BlowfishCtx Cyclic

/-- An iteration of `cyclic_buffer_get_u32`, on `d` and `j`. -/
def cyclicByte (data : List UInt8) (s : UInt32 × UInt32) : UInt32 × UInt32 :=
  let d := s.1 <<< 8 ||| (data.getD s.2.toNat 0).toUInt32
  let j := s.2 + 1
  (d,if j.toNat ≥ data.length then 0 else j)

/-- The word and the new value of `current`. -/
def cyclicBufferGetU32 (data : List UInt8) (current : UInt32) : UInt32 × UInt32 :=
  (cyclicByte data)^[4] (0,current)

def mixWord (key : List UInt8) (s : BlowfishCtx × UInt32) (i : ℕ) : BlowfishCtx × UInt32 :=
  let (x,j) := cyclicBufferGetU32 key s.2
  (s.1.setP i (s.1.p i ^^^ x),j)

/-- The first loop of both functions that expand a key. -/
def mixKey (b : BlowfishCtx) (key : List UInt8) : BlowfishCtx :=
  ((List.range 18).foldl (mixWord key) (b,0)).1

/-- The locals of the loops that fill the tables. -/
structure Expansion where
  b : BlowfishCtx
  j : UInt32
  d : UInt32 × UInt32

/-- `i` below `n` in steps of two. -/
def evens (n : ℕ) : List ℕ := (List.range (n / 2)).map (2 * ·)

/-- An iteration of one of the loops, which may change the block before it is encrypted. -/
def fillWords (feed : UInt32 → UInt32 × UInt32 → UInt32 × (UInt32 × UInt32))
    (set : BlowfishCtx → ℕ → UInt32 → BlowfishCtx) (s : Expansion) (i : ℕ) : Expansion :=
  let (j,d) := feed s.j s.d
  let d := s.b.encodeOne d
  ⟨set (set s.b i d.1) (i + 1) d.2,j,d⟩

def fill (feed : UInt32 → UInt32 × UInt32 → UInt32 × (UInt32 × UInt32)) (b : BlowfishCtx) :
    BlowfishCtx :=
  let s := (evens 18).foldl (fillWords feed setP) ⟨b,0,(0,0)⟩
  ((evens 1024).foldl (fillWords feed setS) s).b

def blowfishExpandkey (b : BlowfishCtx) (key : List UInt8) : BlowfishCtx :=
  fill (fun j d => (j,d)) (mixKey b key)

/-- The next two words of the data go into the block. -/
def xorWords (data : List UInt8) (j : UInt32) (d : UInt32 × UInt32) :
    UInt32 × (UInt32 × UInt32) :=
  let (x,j) := cyclicBufferGetU32 data j
  let (y,j) := cyclicBufferGetU32 data j
  (j,(d.1 ^^^ x,d.2 ^^^ y))

def blowfishExpandkey1 (b : BlowfishCtx) (key data : List UInt8) : BlowfishCtx :=
  fill (xorWords data) (mixKey b key)

/-- `blowfish_setkey`. The tables are those that `blowfish_init` copies. -/
def blowfishSetkey (tables : BlowfishCtx) (key : List UInt8) : BlowfishCtx :=
  blowfishExpandkey tables key

/-! ## Words of a key -/

section Words
variable {key key' data : List UInt8} {d j : UInt32} {i : ℕ}

/-- A word from four bytes on, in the circle. -/
def cyclicWord (key : List UInt8) (i : ℕ) : UInt32 :=
  u32be (entry key i) (entry key (i + 1)) (entry key (i + 2)) (entry key (i + 3))

/-- The first of the four bytes is shifted out when the next one comes. -/
theorem u32be_next (a b c d e : UInt8) : u32be a b c d <<< 8 ||| e.toUInt32 = u32be b c d e := by
  have hb := b.toNat_lt
  have hc := c.toNat_lt
  have hd := d.toNat_lt
  have hshift : (u32be a b c d <<< 8).toNat = (u32be a b c d).toNat <<< 8 % 2 ^ 32 :=
    UInt32.toNat_shiftLeft ..
  have hkept : (u32be a b c d).toNat <<< 8 % 2 ^ 32 =
      (d.toNat + c.toNat * 2 ^ 8 + b.toNat * 2 ^ 16) <<< 8 := by
    rw [u32be, toNat_u32le, Nat.shiftLeft_eq, Nat.shiftLeft_eq]
    omega
  apply UInt32.toNat_inj.mp
  rw [UInt32.toNat_or, hshift, hkept, UInt8.toNat_toUInt32, Nat.or_comm, or_shift e.toNat_lt,
    u32be, toNat_u32le]
  omega

theorem cyclicByte_spec (hdata : data ≠ []) (hj : j.toNat = i % data.length)
    (hi : i + 1 < 2 ^ 32) :
    (cyclicByte data (d,j)).1 = d <<< 8 ||| (entry data i).toUInt32 ∧
      (cyclicByte data (d,j)).2.toNat = (i + 1) % data.length := by
  have hlen : 0 < data.length := List.length_pos_iff.mpr hdata
  have hlt : j.toNat < data.length := hj ▸ Nat.mod_lt i hlen
  have hle : j.toNat ≤ i := hj ▸ Nat.mod_le i _
  have hnext : (j + 1).toNat = j.toNat + 1 := by
    rw [UInt32.toNat_add]
    exact Nat.mod_eq_of_lt (Nat.lt_of_le_of_lt (Nat.succ_le_succ hle) hi)
  constructor
  · rw [cyclicByte, entry, ← hj]
    rfl
  · simp only [cyclicByte, hnext]
    rw [← Nat.mod_add_mod, ← hj]
    split
    case isTrue hend =>
      have hall : j.toNat + 1 = data.length := Nat.le_antisymm hlt hend
      rw [hall, Nat.mod_self]
      rfl
    case isFalse hend =>
      rw [hnext, Nat.mod_eq_of_lt (Nat.lt_of_not_le hend)]

theorem cyclicBufferGetU32_spec (hdata : data ≠ []) (hj : j.toNat = i % data.length)
    (hi : i + 4 < 2 ^ 32) :
    (cyclicBufferGetU32 data j).1 = cyclicWord data i ∧
      (cyclicBufferGetU32 data j).2.toNat = (i + 4) % data.length := by
  let s₁ := cyclicByte data (0,j)
  let s₂ := cyclicByte data s₁
  let s₃ := cyclicByte data s₂
  obtain ⟨hd₁,hj₁⟩ := cyclicByte_spec (d := 0) hdata hj (by omega)
  obtain ⟨hd₂,hj₂⟩ := cyclicByte_spec (d := s₁.1) (j := s₁.2) hdata hj₁ (by omega)
  obtain ⟨hd₃,hj₃⟩ := cyclicByte_spec (d := s₂.1) (j := s₂.2) hdata hj₂ (by omega)
  obtain ⟨hd₄,hj₄⟩ := cyclicByte_spec (d := s₃.1) (j := s₃.2) hdata hj₃ (by omega)
  have hfour : cyclicBufferGetU32 data j = cyclicByte data s₃ := rfl
  have hzero : (0 : UInt32) = u32be 0 0 0 0 := rfl
  rw [hfour]
  refine ⟨?_,hj₄⟩
  rw [hd₄, show s₃.1 = _ from hd₃, show s₂.1 = _ from hd₂, show s₁.1 = _ from hd₁, hzero,
    u32be_next, u32be_next, u32be_next, u32be_next]
  rfl

/-- What the first loop has done after some of its iterations. -/
theorem mixWords_spec {b : BlowfishCtx} {n : ℕ} (hkey : key ≠ []) (hn : n ≤ 18) :
    ((List.range n).foldl (mixWord key) (b,0)).1 =
        { b with P := fun x => if x.1 < n then b.P x ^^^ cyclicWord key (4 * x) else b.P x } ∧
      ((List.range n).foldl (mixWord key) (b,0)).2.toNat = 4 * n % key.length := by
  induction n with
  | zero => exact ⟨by simp,by simp⟩
  | succ n ih =>
    obtain ⟨hb,hj⟩ := ih (by omega)
    obtain ⟨hw,hj'⟩ := cyclicBufferGetU32_spec hkey hj (by omega)
    rw [List.range_succ, List.foldl_append, List.foldl_cons, List.foldl_nil]
    refine ⟨?_,hj'⟩
    have hval : (Fin.ofNat 18 n).1 = n := Nat.mod_eq_of_lt (by omega)
    simp only [mixWord, hw, hb, setP, BlowfishCtx.p, BlowfishCtx.mk.injEq, and_true]
    funext x
    by_cases hx : x = Fin.ofNat 18 n
    · rw [hx, Function.update_self, hval, if_neg (Nat.lt_irrefl n), if_pos (Nat.lt_succ_self n)]
    · have hne : x.1 ≠ n := fun h => hx (Fin.ext (h.trans hval.symm))
      have hlt : x.1 < n + 1 ↔ x.1 < n := by omega
      rw [Function.update_of_ne hx, if_congr hlt rfl rfl]

theorem mixKey_eq {b : BlowfishCtx} (hkey : key ≠ []) :
    mixKey b key = { b with P := fun x => b.P x ^^^ cyclicWord key (4 * x) } := by
  rw [mixKey, (mixWords_spec hkey (Nat.le_refl 18)).1]
  simp only [Fin.is_lt, if_true]

theorem cyclicWord_eq_iff {k : ℕ} : cyclicWord key k = cyclicWord key' k ↔
    ∀ i < 4, entry key (k + i) = entry key' (k + i) := by
  constructor
  · intro h i hi
    have hbytes := congrArg bytes32be h
    simp only [cyclicWord, bytes32be_u32be, List.cons.injEq, and_true] at hbytes
    obtain ⟨h₀,h₁,h₂,h₃⟩ := hbytes
    interval_cases i <;> assumption
  · intro h
    rw [cyclicWord, cyclicWord, h 1 (by decide), h 2 (by decide), h 3 (by decide)]
    exact congrArg (u32be · _ _ _) (h 0 (by decide))

/-- The tables see the first 72 bytes of a key in its circle and nothing else. -/
theorem mixKey_eq_iff (b : BlowfishCtx) (hkey : key ≠ []) (hkey' : key' ≠ []) :
    mixKey b key = mixKey b key' ↔ Agree 72 key key' := by
  rw [mixKey_eq hkey, mixKey_eq hkey']
  simp only [BlowfishCtx.mk.injEq, and_true]
  constructor
  · intro h i hi
    have hword := congrFun h ⟨i / 4,by omega⟩
    have hi' : 4 * (i / 4) + i % 4 = i := Nat.div_add_mod i 4
    have hbyte := cyclicWord_eq_iff.mp ((UInt32.xor_right_inj _).mp hword) (i % 4) (by omega)
    rwa [hi'] at hbyte
  · intro h
    funext x
    have hword : cyclicWord key (4 * x) = cyclicWord key' (4 * x) :=
      cyclicWord_eq_iff.mpr (fun i hi => h _ (by omega))
    rw [hword]

end Words

/-! ## Two ways to expand a key -/

section Fill
variable {feed feed' : UInt32 → UInt32 × UInt32 → UInt32 × (UInt32 × UInt32)}

/-- The readers of the data may be at different places. -/
def Expansion.Same (s s' : Expansion) : Prop := s.b = s'.b ∧ s.d = s'.d

theorem fillWords_congr (hfeed : ∀ j j' d, (feed j d).2 = (feed' j' d).2)
    (set : BlowfishCtx → ℕ → UInt32 → BlowfishCtx) (l : List ℕ) {s s' : Expansion}
    (h : s.Same s') :
    (l.foldl (fillWords feed set) s).Same (l.foldl (fillWords feed' set) s') := by
  refine List.foldl_rel (r := Expansion.Same) h ?_
  rintro i - ⟨b,j,d⟩ ⟨b',j',d'⟩ ⟨rfl,rfl⟩
  simp only [fillWords, Expansion.Same, hfeed j j' d, and_self]

theorem fill_congr (hfeed : ∀ j j' d, (feed j d).2 = (feed' j' d).2) (b : BlowfishCtx) :
    fill feed b = fill feed' b :=
  (fillWords_congr hfeed setS _ (fillWords_congr hfeed setP _ ⟨rfl,rfl⟩)).1

end Fill

theorem cyclicByte_zero (n : ℕ) (j : UInt32) : (cyclicByte (List.replicate n 0) (0,j)).1 = 0 := by
  have hbyte : (List.replicate n (0 : UInt8)).getD j.toNat 0 = 0 := by
    rw [List.getD_eq_getElem?_getD, List.getElem?_replicate]
    split <;> rfl
  have hjoin : (0 : UInt32) <<< 8 ||| UInt8.toUInt32 0 = 0 := by decide
  simp only [cyclicByte, hbyte, hjoin]

theorem cyclicBufferGetU32_zero (n : ℕ) (j : UInt32) :
    (cyclicBufferGetU32 (List.replicate n 0) j).1 = 0 := by
  have hiter (k : ℕ) : ∃ j', (cyclicByte (List.replicate n 0))^[k] (0,j) = (0,j') := by
    induction k with
    | zero => exact ⟨j,rfl⟩
    | succ k ih =>
      obtain ⟨j',hj'⟩ := ih
      rw [Function.iterate_succ_apply', hj']
      exact ⟨_,Prod.ext (cyclicByte_zero n j') rfl⟩
  obtain ⟨j',hj'⟩ := hiter 4
  rw [cyclicBufferGetU32, hj']

/-- Data of zeros changes nothing, so the plain function is a case of the other one. -/
theorem blowfishExpandkey1_zero (b : BlowfishCtx) (key : List UInt8) (n : ℕ) :
    blowfishExpandkey1 b key (List.replicate n 0) = blowfishExpandkey b key := by
  refine fill_congr (fun j j' d => ?_) _
  simp only [xorWords, cyclicBufferGetU32_zero, UInt32.xor_zero, Prod.mk.eta]

end Kaplar.Crypto
