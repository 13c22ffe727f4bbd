import Kaplar.Arena.MemArenaLive

/-! # Arenas over any sequence of calls -/
namespace Kaplar.Arena
open CompilerEnv Execution
variable {env : CompilerEnv}

/-- A rollback may give back the last allocation, which then is one of the head block, or
nothing since it has been done already. -/
def Undo (env : CompilerEnv) : List Block → Ledger → Prop
  | [], l => l.recent = 0
  | blk :: blks, l => (l.recent = 0 → blk.memPrev = 0) ∧
      (0 < l.recent → 0 < blk.memPrev ∧ ∃ n xs ys, l.live = ⟨blk.memPrev,n⟩ :: (xs ++ ys) ∧
        Tiles (memStart env blk) xs blk.memPrev ∧ blk.memPtr = blk.memPrev + n ∧
        Fills env blks ys)

structure Kept (bs : SizeT env) (arena : MemArena env) (l : Ledger) : Prop where
  blockSize : arena.blockSize = bs
  chain : Chain env bs.toNat arena.head l.live
  undo : Undo env arena.head l

/-- What the callers of an arena rely on. -/
structure Serves (arena : MemArena env) (l : Ledger) : Prop where
  inside : ∀ r ∈ l.live, ∃ blk ∈ arena.head, r.Within (memStart env blk) blk.memEnd
  aligned : ∀ r ∈ l.live, env.ptrAlignment ∣ r.addr
  apart : l.live.Pairwise Region.Apart
  used : ∀ blk ∈ arena.head, ∀ x, memStart env blk ≤ x → x < blk.memEnd →
    (x < blk.memPtr ↔ ∃ r ∈ l.live, r.Contains x)
  asserts : ∀ m size, memArenaAlloc m arena size ≠ .error .assertion
  undoes_nothing : l.recent = 0 → memArenaRollback arena = arena
  undoes : 0 < l.recent → ∃ r rs blk blks, l.live = r :: rs ∧ arena.head = blk :: blks ∧
    blk.memPtr = r.limit ∧
    memArenaRollback arena =
      { arena with head := { blk with memPtr := r.addr, memPrev := 0 } :: blks }

section Calls
variable {blockSize size : SizeT env} {arena : MemArena env} {l : Ledger} {m : Malloc env}
  {blk : Block} {blks : List Block}

/-- The sizes for which the claim of a block to the memory behind it does not wrap. -/
def Fits (blockSize : SizeT env) : Prop :=
  1 ≤ blockSize.toNat ∧
    env.sizeofBlock + roundUp env.ptrAlignment blockSize.toNat < 2 ^ env.bits

theorem Kept.init : Kept blockSize (memArenaInit blockSize) ⟨[],0⟩ :=
  ⟨rfl,Chain.nil,rfl⟩

theorem memArenaHead_error {f : Fault} (h : memArenaHead m arena = .error f) :
    f = .outOfMemory := by
  unfold memArenaHead at h
  split at h
  case h_1 =>
    cases hc : memArenaBlockCreate m [] arena.blockSize with
    | error g =>
      rw [hc] at h
      cases h
      exact memArenaBlockCreate_error hc
    | ok blk =>
      rw [hc] at h
      cases h
  case h_2 => cases h

theorem Kept.head (h : Kept blockSize arena l) (hfit : Fits blockSize)
    (he : memArenaHead m arena = .ok (blk,blks)) :
    Chain env blockSize.toNat (blk :: blks) l.live := by
  obtain ⟨bs,head⟩ := arena
  obtain ⟨rfl,hchain,-⟩ := h
  cases head with
  | nil =>
    simp only [memArenaHead] at he
    cases hc : memArenaBlockCreate m [] bs with
    | error f =>
      rw [hc] at he
      cases he
    | ok b =>
      rw [hc] at he
      cases he
      obtain ⟨hs,_,hp,ha⟩ := memArenaBlockCreate_ok hfit.2 hc
      exact hchain.push hs hfit.1 hp ha
  | cons b bs =>
    cases he
    exact hchain

/-- The first bytes of the head that are still free are handed out. -/
theorem Kept.cut {n : ℕ} (h : Chain env blockSize.toNat (blk :: blks) l.live)
    (hn : env.ptrAlignment ∣ n) (hlt : blk.memPtr + n < blk.memEnd) :
    Kept blockSize ⟨blockSize,{ blk with memPrev := blk.memPtr, memPtr := blk.memPtr + n } :: blks⟩
      (l.record (.allocated ⟨blk.memPtr,n⟩)) := by
  obtain ⟨xs,ys,hl,ht,hf⟩ := h.fills
  have hpos := (h.sound blk List.mem_cons_self).nonnull
  have hlo := ht.le
  have hprev : 0 < blk.memPtr := by
    unfold memStart at hlo
    omega
  have hlive : (l.record (.allocated ⟨blk.memPtr,n⟩)).live = ⟨blk.memPtr,n⟩ :: (xs ++ ys) :=
    congrArg _ hl
  exact ⟨rfl,h.cut hn hlt,fun h0 => absurd h0 (Nat.succ_ne_zero _),
    fun _ => ⟨hprev,n,xs,ys,hlive,ht,rfl,hf⟩⟩

/-- A request runs out of memory, or keeps the invariant with what it returns. -/
theorem Kept.alloc (h : Kept blockSize arena l) (hfit : Fits blockSize) (m : Malloc env)
    (size : SizeT env) :
    memArenaAlloc m arena size = .error .outOfMemory ∨
    ∃ ptr arena', memArenaAlloc m arena size = .ok (ptr,arena') ∧
      Kept blockSize arena' (l.record (allocEvent size ptr)) := by
  have hdvd := dvd_ptrAlign size
  obtain rfl := h.blockSize
  by_cases hlarge : ptrAlign size > arena.blockSize / 2
  · refine .inr ⟨none,arena,?_,h⟩
    rw [memArenaAlloc, if_pos hlarge]
    rfl
  have hhalf : (ptrAlign size).toNat ≤ arena.blockSize.toNat / 2 := by
    have htwo : (2 : SizeT env).toNat = 2 := by cases env <;> rfl
    have hle := BitVec.le_def.mp (BitVec.not_lt.mp hlarge)
    rwa [BitVec.toNat_udiv, htwo] at hle
  cases hh : memArenaHead m arena with
  | error f =>
    obtain rfl := memArenaHead_error hh
    left
    rw [memArenaAlloc, if_neg hlarge, hh]
    rfl
  | ok p =>
    obtain ⟨blk,blks⟩ := p
    have hchain := h.head hfit hh
    cases ha : memArenaBlockAlloc blk (ptrAlign size) with
    | some q =>
      obtain ⟨ptr,blk'⟩ := q
      obtain ⟨rfl,hlt,rfl⟩ := memArenaBlockAlloc_some ha
      refine .inr ⟨some blk.memPtr,_,?_,Kept.cut hchain hdvd hlt⟩
      simp only [memArenaAlloc, if_neg hlarge, hh, bind, Except.bind, ha]
      rfl
    | none =>
      cases hc : memArenaBlockCreate m ((blk :: blks).map Block.region) arena.blockSize with
      | error f =>
        obtain rfl := memArenaBlockCreate_error hc
        left
        simp only [memArenaAlloc, if_neg hlarge, hh, bind, Except.bind, ha, hc]
      | ok new =>
        -- the new block is empty and larger than any request that comes this far
        obtain ⟨hs,_,hp,hapart⟩ := memArenaBlockCreate_ok hfit.2 hc
        have hroom := hs.memStart_lt hfit.1
        have hlt : new.memPtr + (ptrAlign size).toNat < new.memEnd := by omega
        refine .inr ⟨some new.memPtr,_,?_,Kept.cut (hchain.push hs hfit.1 hp hapart) hdvd hlt⟩
        have hnew := memArenaBlockAlloc_of_lt hlt
        simp only [memArenaAlloc, if_neg hlarge, hh, bind, Except.bind, ha, hc, hnew]
        rfl

theorem Kept.undoes_nothing (h : Kept blockSize arena l) (h0 : l.recent = 0) :
    memArenaRollback arena = arena := by
  obtain ⟨bs,head⟩ := arena
  cases head with
  | nil => rfl
  | cons blk blks =>
    have hprev : blk.memPrev = 0 := h.undo.1 h0
    simp [memArenaRollback,hprev]

theorem Kept.undoes (h : Kept blockSize arena l) (hpos : 0 < l.recent) :
    ∃ r xs ys blk blks, l.live = r :: (xs ++ ys) ∧ arena.head = blk :: blks ∧
      blk.memPtr = r.limit ∧ Tiles (memStart env blk) xs r.addr ∧ Fills env blks ys ∧
      memArenaRollback arena =
        { arena with head := { blk with memPtr := r.addr, memPrev := 0 } :: blks } := by
  obtain ⟨bs,head⟩ := arena
  cases head with
  | nil => exact absurd h.undo (Nat.ne_of_gt hpos)
  | cons blk blks =>
    obtain ⟨hprev,n,xs,ys,hl,ht,hp,hf⟩ := h.undo.2 hpos
    refine ⟨⟨blk.memPrev,n⟩,xs,ys,blk,blks,hl,rfl,hp,ht,hf,?_⟩
    simp [memArenaRollback,Nat.ne_of_gt hprev]

theorem Kept.rollback (h : Kept blockSize arena l) :
    Kept blockSize (memArenaRollback arena) (l.record .rolledBack) := by
  rcases Nat.eq_zero_or_pos l.recent with h0 | hpos
  · have hl : l.record .rolledBack = l := if_pos h0
    rw [hl, h.undoes_nothing h0]
    exact h
  · obtain ⟨r,xs,ys,blk,blks,hlive,hhead,hp,ht,hf,he⟩ := h.undoes hpos
    have hl : l.record .rolledBack = ⟨xs ++ ys,0⟩ := by
      rw [Ledger.record, if_neg (Nat.ne_of_gt hpos), hlive, List.tail_cons]
    have hchain := h.chain
    rw [hhead, hlive] at hchain
    rw [hl, he]
    exact ⟨h.blockSize,hchain.rewind ht (hp ▸ r.addr_le_limit) (List.Sublist.refl _) hf
      (List.subset_cons_self _ _),fun _ => rfl,fun hlt => absurd hlt (Nat.lt_irrefl 0)⟩

theorem Kept.reset (h : Kept blockSize arena l) :
    Kept blockSize (memArenaReset arena) (l.record .wasReset) := by
  obtain ⟨bs,head⟩ := arena
  obtain ⟨rfl,hchain,hundo⟩ := h
  cases head with
  | nil => exact ⟨rfl,Chain.nil,rfl⟩
  | cons blk blks =>
    obtain ⟨xs,ys,-,ht,-⟩ := hchain.fills
    have hempty : Fills env [] [] := rfl
    exact ⟨rfl,hchain.rewind Tiles.nil ht.le (List.nil_sublist blks) hempty (List.nil_subset _),
      fun _ => rfl,fun hlt => absurd hlt (Nat.lt_irrefl 0)⟩

theorem Kept.step {arena' : MemArena env} {c : Call env} {es : List Event}
    (h : Kept blockSize arena l) (hfit : Fits blockSize) (hs : step arena c = some (arena',es)) :
    Kept blockSize arena' (es.foldl Ledger.record l) := by
  cases c with
  | alloc m size =>
    simp only [Arena.step] at hs
    rcases h.alloc hfit m size with he | ⟨ptr,arena₁,he,hk⟩
    · rw [he] at hs
      cases hs
    · rw [he] at hs
      cases hs
      exact hk
  | rollback =>
    cases hs
    exact h.rollback
  | reset =>
    cases hs
    exact h.reset

theorem Kept.serves (h : Kept blockSize arena l) (hfit : Fits blockSize) : Serves arena l where
  inside r hr := by
    obtain ⟨blk,hb,hw,hle⟩ := h.chain.inside hr
    exact ⟨blk,hb,hw.mono le_rfl hle⟩
  aligned _ := h.chain.aligned
  apart := h.chain.apart_live
  used _ hb _ := h.chain.used hb
  asserts m size := by
    rcases h.alloc hfit m size with he | ⟨_,_,he,_⟩ <;> rw [he] <;> simp
  undoes_nothing := h.undoes_nothing
  undoes hpos := by
    obtain ⟨r,xs,ys,blk,blks,hlive,hhead,hp,_,_,he⟩ := h.undoes hpos
    exact ⟨r,xs ++ ys,blk,blks,hlive,hhead,hp,he⟩

end Calls

theorem kept_run {blockSize : SizeT env} (hfit : Fits blockSize) {es : List Event}
    {arena : MemArena env} (hr : Run (Fires step) (memArenaInit blockSize) es arena) :
    Kept blockSize arena (ledger es) := by
  refine hr.traced (I := fun es arena => Kept blockSize arena (ledger es)) Kept.init ?_
  intro es s fs t hk ⟨c,hc⟩
  have hl : ledger (es ++ fs) = fs.foldl Ledger.record (ledger es) := List.foldl_append
  rw [hl]
  exact hk.step hfit hc

end Kaplar.Arena
