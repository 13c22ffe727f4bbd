import Kaplar.Arena.MemArena

/-! # What an arena has handed out

The allocations still in use lie in the blocks one after the other. A new block goes in
front and never gives the old head back to a rollback, so that only the last allocation
of the head has to be remembered.
-/
namespace Kaplar.Arena
open CompilerEnv Execution
variable {env : CompilerEnv}

/-! ## Rounding -/

/-- The least multiple of `d` that is at least `x`. -/
def roundUp (d x : ℕ) : ℕ := (x + (d - 1)) / d * d

theorem and_clear_low {w k y : ℕ} (hkw : k ≤ w) (hy : y < 2 ^ w) :
    y &&& (2 ^ w - 1 - (2 ^ k - 1)) = y / 2 ^ k * 2 ^ k := by
  have hk := Nat.two_pow_pos k
  have hle := Nat.pow_le_pow_right Nat.two_pos hkw
  have hmask : 2 ^ w - 1 - (2 ^ k - 1) = 2 ^ w - (2 ^ k - 1 + 1) := by omega
  apply Nat.eq_of_testBit_eq
  intro i
  rw [Nat.testBit_and, hmask, Nat.testBit_two_pow_sub_succ (by omega), Nat.testBit_two_pow_sub_one,
    Nat.testBit_mul_two_pow, Nat.testBit_div_two_pow]
  by_cases hi : k ≤ i
  · by_cases hiw : i < w
    · simp [hi,hiw,Nat.not_lt.mpr hi]
    · have hwi := Nat.pow_le_pow_right Nat.two_pos (Nat.le_of_not_lt hiw)
      have hbit : y.testBit i = false := Nat.testBit_lt_two_pow (Nat.lt_of_lt_of_le hy hwi)
      simp [hi,hbit]
  · simp [hi,Nat.lt_of_not_le hi]

def ptrBits : CompilerEnv → ℕ
  | .env32 => 2
  | .env64 => 3

theorem ptrAlignment_eq : env.ptrAlignment = 2 ^ ptrBits env := by cases env <;> rfl
theorem ptrBits_le : ptrBits env ≤ env.bits := by cases env <;> decide
theorem ptrAlignment_dvd : env.ptrAlignment ∣ 2 ^ env.bits := by
  rw [ptrAlignment_eq]
  exact Nat.pow_dvd_pow 2 ptrBits_le

theorem toNat_ptrAlignmentMask : env.ptrAlignmentMask.toNat = env.ptrAlignment - 1 := by
  cases env <;> rfl

theorem toNat_ptrAlign (x : SizeT env) :
    (ptrAlign x).toNat = roundUp env.ptrAlignment x.toNat % 2 ^ env.bits := by
  have hx := x.isLt
  have hlow : (x &&& env.ptrAlignmentMask).toNat = x.toNat % env.ptrAlignment := by
    rw [BitVec.toNat_and, toNat_ptrAlignmentMask, ptrAlignment_eq, Nat.and_two_pow_sub_one_eq_mod]
  have hclear (y : SizeT env) : (y &&& ~~~ env.ptrAlignmentMask).toNat =
      y.toNat / env.ptrAlignment * env.ptrAlignment := by
    rw [BitVec.toNat_and, BitVec.toNat_not, toNat_ptrAlignmentMask, ptrAlignment_eq]
    exact and_clear_low ptrBits_le y.isLt
  have hzero : x &&& env.ptrAlignmentMask ≠ 0 ↔ x.toNat % env.ptrAlignment ≠ 0 := by
    rw [← hlow, Ne, ← BitVec.toNat_inj]
    rfl
  simp only [ptrAlign, roundUp, hzero]
  split
  case isTrue h =>
    rw [hclear, BitVec.toNat_add, BitVec.toNat_ofNat]
    cases env <;> simp only [ptrAlignment, bits] at h ⊢ <;> omega
  case isFalse h =>
    cases env <;> simp only [ptrAlignment, bits] at h hx ⊢ <;> omega

/-- An alignment is a multiple of the pointer size, also one that wraps. -/
theorem dvd_ptrAlign (x : SizeT env) : env.ptrAlignment ∣ (ptrAlign x).toNat := by
  rw [toNat_ptrAlign]
  exact (Nat.dvd_mod_iff ptrAlignment_dvd).mpr (Nat.dvd_mul_left _ _)

theorem le_roundUp (env : CompilerEnv) (x : ℕ) : x ≤ roundUp env.ptrAlignment x := by
  cases env <;> simp only [roundUp, ptrAlignment] <;> omega

/-! ## Blocks -/

/-- What holds of a block from its creation on. -/
structure Block.Sound (env : CompilerEnv) (bs : ℕ) (blk : Block) : Prop where
  nonnull : 0 < blk.region.addr
  aligned : env.ptrAlignment ∣ blk.region.addr
  size : blk.region.size = env.sizeofBlock + roundUp env.ptrAlignment bs
  memEnd : blk.memEnd = blk.region.limit

/-- What is in use of a chain of blocks, the last allocation first. -/
def Fills (env : CompilerEnv) : List Block → List Region → Prop
  | [], rs => rs = []
  | blk :: blks, rs => ∃ xs ys, rs = xs ++ ys ∧ Tiles (memStart env blk) xs blk.memPtr ∧
      Fills env blks ys

structure Chain (env : CompilerEnv) (bs : ℕ) (head : List Block) (live : List Region) : Prop where
  sound : ∀ blk ∈ head, blk.Sound env bs
  bounded : ∀ blk ∈ head, blk.memPtr ≤ blk.memEnd
  apart : (head.map Block.region).Pairwise Region.Apart
  fills : Fills env head live
  units : ∀ r ∈ live, env.ptrAlignment ∣ r.size

section Blocks
variable {bs : ℕ} {blk blk' : Block} {blks head : List Block} {live : List Region}
  {m : Malloc env} {size : SizeT env} {ptr : ℕ}

theorem Block.Sound.memStart_lt (h : blk.Sound env bs) (hbs : 1 ≤ bs) :
    memStart env blk + bs / 2 < blk.memEnd := by
  have hle := le_roundUp env bs
  rw [h.memEnd, Region.limit, h.size, memStart]
  omega

theorem Block.Sound.dvd_memStart (h : blk.Sound env bs) :
    env.ptrAlignment ∣ memStart env blk :=
  Nat.dvd_add h.aligned (Nat.dvd_mul_left _ _)

/-- A block can only be created where nothing else is. -/
theorem memArenaBlockCreate_ok {blockSize : SizeT env}
    (hfit : env.sizeofBlock + roundUp env.ptrAlignment blockSize.toNat < 2 ^ env.bits)
    (h : memArenaBlockCreate m live blockSize = .ok blk) :
    blk.Sound env blockSize.toNat ∧ blk.memPrev = 0 ∧ blk.memPtr = memStart env blk ∧
      ∀ r ∈ live, blk.region.Apart r := by
  have halign : (ptrAlign blockSize).toNat = roundUp env.ptrAlignment blockSize.toNat := by
    rw [toNat_ptrAlign, Nat.mod_eq_of_lt (by omega)]
  have hsize : (BitVec.ofNat env.bits env.sizeofBlock + ptrAlign blockSize).toNat =
      env.sizeofBlock + roundUp env.ptrAlignment blockSize.toNat := by
    rw [BitVec.toNat_add, BitVec.toNat_ofNat, halign, Nat.mod_add_mod, Nat.mod_eq_of_lt hfit]
  simp only [memArenaBlockCreate, kplMalloc, hsize, halign] at h
  cases ha : m.answer live (env.sizeofBlock + roundUp env.ptrAlignment blockSize.toNat) with
  | none =>
    rw [ha] at h
    cases h
  | some a =>
    rw [ha] at h
    cases h
    obtain ⟨hpos,hdvd,hapart⟩ := m.sound _ _ _ ha
    exact ⟨⟨hpos,hdvd,rfl,Nat.add_assoc _ _ _⟩,rfl,rfl,fun r hr => (hapart r hr).symm⟩

theorem memArenaBlockCreate_error {blockSize : SizeT env} {f : Fault}
    (h : memArenaBlockCreate m live blockSize = .error f) : f = .outOfMemory := by
  simp only [memArenaBlockCreate, kplMalloc] at h
  cases ha : m.answer live (BitVec.ofNat env.bits env.sizeofBlock + ptrAlign blockSize).toNat with
  | none =>
    rw [ha] at h
    cases h
    rfl
  | some a =>
    rw [ha] at h
    cases h

theorem memArenaBlockAlloc_some (h : memArenaBlockAlloc blk size = some (ptr,blk')) :
    ptr = blk.memPtr ∧ blk.memPtr + size.toNat < blk.memEnd ∧
      blk' = { blk with memPrev := blk.memPtr, memPtr := blk.memPtr + size.toNat } := by
  simp only [memArenaBlockAlloc, ge_iff_le, Option.ite_none_left_eq_some, Option.some.injEq,
    Prod.mk.injEq] at h
  obtain ⟨hlt,rfl,rfl⟩ := h
  exact ⟨rfl,Nat.lt_of_not_le hlt,rfl⟩

theorem memArenaBlockAlloc_of_lt (h : blk.memPtr + size.toNat < blk.memEnd) :
    memArenaBlockAlloc blk size = some (blk.memPtr,
      { blk with memPrev := blk.memPtr, memPtr := blk.memPtr + size.toNat }) :=
  if_neg (Nat.not_le_of_lt h)

theorem Chain.nil : Chain env bs [] [] :=
  ⟨by simp,by simp,.nil,rfl,by simp⟩

/-- A new block is put before the chain. -/
theorem Chain.push (h : Chain env bs blks live) (hs : blk.Sound env bs) (hbs : 1 ≤ bs)
    (hp : blk.memPtr = memStart env blk)
    (ha : ∀ r ∈ blks.map Block.region, blk.region.Apart r) : Chain env bs (blk :: blks) live where
  sound := List.forall_mem_cons.mpr ⟨hs,h.sound⟩
  bounded := by
    have hlt := hs.memStart_lt hbs
    exact List.forall_mem_cons.mpr ⟨by omega,h.bounded⟩
  apart := List.pairwise_cons.mpr ⟨ha,h.apart⟩
  fills := ⟨[],live,rfl,hp,h.fills⟩
  units := h.units

/-- The next bytes of the head are cut off. -/
theorem Chain.cut {n p : ℕ} (h : Chain env bs (blk :: blks) live) (hn : env.ptrAlignment ∣ n)
    (hlt : blk.memPtr + n < blk.memEnd) :
    Chain env bs ({ blk with memPrev := p, memPtr := blk.memPtr + n } :: blks)
      (⟨blk.memPtr,n⟩ :: live) where
  sound := by
    obtain ⟨hs,hall⟩ := List.forall_mem_cons.mp h.sound
    exact List.forall_mem_cons.mpr ⟨⟨hs.nonnull,hs.aligned,hs.size,hs.memEnd⟩,hall⟩
  bounded := List.forall_mem_cons.mpr ⟨Nat.le_of_lt hlt,(List.forall_mem_cons.mp h.bounded).2⟩
  apart := h.apart
  fills := by
    obtain ⟨xs,ys,rfl,ht,hf⟩ := h.fills
    exact ⟨⟨blk.memPtr,n⟩ :: xs,ys,rfl,ht.push n,hf⟩
  units := List.forall_mem_cons.mpr ⟨hn,h.units⟩

/-- The head gives its last bytes back, and some of the other blocks may go. -/
theorem Chain.rewind {blks' : List Block} {xs ys : List Region} {p q : ℕ}
    (h : Chain env bs (blk :: blks) live) (ht : Tiles (memStart env blk) xs p)
    (hp : p ≤ blk.memPtr) (hsub : blks'.Sublist blks) (hf : Fills env blks' ys)
    (hlive : xs ++ ys ⊆ live) :
    Chain env bs ({ blk with memPrev := q, memPtr := p } :: blks') (xs ++ ys) where
  sound := by
    obtain ⟨hs,hall⟩ := List.forall_mem_cons.mp h.sound
    exact List.forall_mem_cons.mpr ⟨⟨hs.nonnull,hs.aligned,hs.size,hs.memEnd⟩,
      fun b hb => hall b (hsub.subset hb)⟩
  bounded := by
    obtain ⟨hb,hall⟩ := List.forall_mem_cons.mp h.bounded
    exact List.forall_mem_cons.mpr ⟨Nat.le_trans hp hb,fun b hb => hall b (hsub.subset hb)⟩
  apart := h.apart.sublist ((hsub.map _).cons_cons _)
  fills := ⟨xs,ys,rfl,ht,hf⟩
  units r hr := h.units r (hlive hr)

end Blocks

section Chains
variable {bs : ℕ} {blk blk' : Block} {head : List Block} {live : List Region} {r : Region}

theorem Fills.segment (h : Fills env head live) (hb : blk ∈ head) :
    ∃ xs, xs ⊆ live ∧ Tiles (memStart env blk) xs blk.memPtr := by
  induction head generalizing live with
  | nil => cases hb
  | cons b head ih =>
    obtain ⟨xs,ys,rfl,ht,hf⟩ := h
    rcases List.mem_cons.mp hb with rfl | hb
    · exact ⟨xs,List.subset_append_left xs ys,ht⟩
    · obtain ⟨zs,hz,ht⟩ := ih hf hb
      exact ⟨zs,List.Subset.trans hz (List.subset_append_right xs ys),ht⟩

theorem Fills.owner (h : Fills env head live) (hr : r ∈ live) :
    ∃ blk ∈ head, ∃ xs, r ∈ xs ∧ xs ⊆ live ∧ Tiles (memStart env blk) xs blk.memPtr := by
  induction head generalizing live with
  | nil =>
    obtain rfl := h
    cases hr
  | cons b head ih =>
    obtain ⟨xs,ys,rfl,ht,hf⟩ := h
    rcases List.mem_append.mp hr with hr | hr
    · exact ⟨b,List.mem_cons_self,xs,hr,List.subset_append_left xs ys,ht⟩
    · obtain ⟨c,hc,zs,hrz,hz,ht⟩ := ih hf hr
      have hsub := List.Subset.trans hz (List.subset_append_right xs ys)
      exact ⟨c,List.mem_cons_of_mem b hc,zs,hrz,hsub,ht⟩

theorem Chain.inside (h : Chain env bs head live) (hr : r ∈ live) :
    ∃ blk ∈ head, r.Within (memStart env blk) blk.memPtr ∧ blk.memPtr ≤ blk.memEnd := by
  obtain ⟨blk,hb,xs,hx,_,ht⟩ := h.fills.owner hr
  exact ⟨blk,hb,ht.within hx,h.bounded blk hb⟩

theorem Chain.aligned (h : Chain env bs head live) (hr : r ∈ live) :
    env.ptrAlignment ∣ r.addr := by
  obtain ⟨blk,hb,xs,hx,hsub,ht⟩ := h.fills.owner hr
  exact (ht.dvd (h.sound blk hb).dvd_memStart (fun s hs => h.units s (hsub hs))).2 r hx

/-- The part of a block in use lies in its allocation. -/
theorem Block.Sound.within (h : blk.Sound env bs) (hp : blk.memPtr ≤ blk.memEnd)
    (hr : r.Within (memStart env blk) blk.memPtr) :
    r.Within blk.region.addr blk.region.limit :=
  hr.mono (Nat.le_add_right _ _) (h.memEnd ▸ hp)

theorem Chain.apart_live (h : Chain env bs head live) : live.Pairwise Region.Apart := by
  obtain ⟨hsound,hbound,hapart,hfills,-⟩ := h
  induction head generalizing live with
  | nil =>
    obtain rfl := hfills
    exact .nil
  | cons b head ih =>
    obtain ⟨xs,ys,rfl,ht,hf⟩ := hfills
    obtain ⟨hb,hsound⟩ := List.forall_mem_cons.mp hsound
    obtain ⟨hbb,hbound⟩ := List.forall_mem_cons.mp hbound
    obtain ⟨hnew,hapart⟩ := List.pairwise_cons.mp hapart
    refine List.pairwise_append.mpr ⟨ht.apart,ih hsound hbound hapart hf,?_⟩
    intro r hr s hs
    obtain ⟨c,hc,zs,hsz,_,hz⟩ := hf.owner hs
    have hrb := hb.within hbb (ht.within hr)
    have hsc := (hsound c hc).within (hbound c hc) (hz.within hsz)
    exact (hnew c.region (List.mem_map_of_mem hc)).within hrb hsc

/-- The bytes of a block below `mem_ptr`, and no others, belong to an allocation in use. -/
theorem Chain.used (h : Chain env bs head live) (hb : blk ∈ head) {x : ℕ}
    (hlo : memStart env blk ≤ x) (hhi : x < blk.memEnd) :
    x < blk.memPtr ↔ ∃ r ∈ live, r.Contains x := by
  obtain ⟨xs,hsub,ht⟩ := h.fills.segment hb
  constructor
  · intro hx
    obtain ⟨r,hr,hc⟩ := (ht.contains_iff hlo).mp hx
    exact ⟨r,hsub hr,hc⟩
  · rintro ⟨r,hr,hc⟩
    obtain ⟨c,hcm,hrc,hcb⟩ := h.inside hr
    by_cases hcb' : c = blk
    · subst hcb'
      exact Nat.lt_of_lt_of_le hc.2 hrc.2
    · have hsymm : Std.Symm (α := Block) (fun a b => a.region.Apart b.region) :=
        ⟨fun _ _ => Region.Apart.symm⟩
      have hapart := (List.pairwise_map.mp h.apart).forall hcm hb hcb'
      have hin := (h.sound c hcm).within hcb hrc
      have hend := (h.sound blk hb).memEnd
      simp only [Region.Apart, Region.Within, Region.Contains, memStart] at *
      omega

end Chains

end Kaplar.Arena
