import Kaplar.Arena.MemArenaRun

/-! # The limit on the size of an allocation

Two sums may wrap before they are compared: the size of a request when it is rounded up, and
the size of a block with its header when it is claimed. What holds of the blocks of an arena
in either case is enough to tell when the limit is kept.
-/
namespace Kaplar.Arena
open CompilerEnv Execution
variable {env : CompilerEnv} {size blockSize : SizeT env} {arena arena' : MemArena env}
  {m : Malloc env} {blk : Block} {blks : List Block} {ptr : Option ℕ}

/-- A request that is too large is refused, and another one gets a place in a block. -/
structure Limits (m : Malloc env) (arena : MemArena env) (size : SizeT env) : Prop where
  refused : arena.blockSize.toNat / 2 < roundUp env.ptrAlignment size.toNat →
    memArenaAlloc m arena size = .ok (none,arena)
  served : roundUp env.ptrAlignment size.toNat ≤ arena.blockSize.toNat / 2 →
    ∃ p arena', memArenaAlloc m arena size = .ok (some p,arena') ∧ ∃ blk ∈ arena'.head,
      Region.Within ⟨p,size.toNat⟩ (memStart env blk) blk.region.limit

/-! ## One request -/

theorem lt_ptrAlign_iff : ptrAlign size > arena.blockSize / 2 ↔
    arena.blockSize.toNat / 2 < (ptrAlign size).toNat := by
  have htwo : (2 : SizeT env).toNat = 2 := by cases env <;> rfl
  rw [gt_iff_lt, BitVec.lt_def, BitVec.toNat_udiv, htwo]

theorem memArenaHead_ok (h : memArenaHead m arena = .ok (blk,blks)) :
    ∀ b ∈ blk :: blks, b ∈ arena.head ∨
      ∃ live, memArenaBlockCreate m live arena.blockSize = .ok b := by
  unfold memArenaHead at h
  split at h
  case h_1 =>
    cases hc : memArenaBlockCreate m [] arena.blockSize with
    | error f =>
      rw [hc] at h
      cases h
    | ok b =>
      rw [hc] at h
      cases h
      intro b' hb'
      obtain rfl := List.mem_singleton.mp hb'
      exact .inr ⟨[],hc⟩
  case h_2 hhead =>
    cases h
    intro b hb
    left
    rwa [hhead]

/-- A request that returns was refused, or has cut off the next bytes of a block that was
there or is new. -/
theorem memArenaAlloc_ok (h : memArenaAlloc m arena size = .ok (ptr,arena')) :
    (arena.blockSize.toNat / 2 < (ptrAlign size).toNat ∧ ptr = none ∧ arena' = arena) ∨
    ((ptrAlign size).toNat ≤ arena.blockSize.toNat / 2 ∧ ∃ blk blks,
      (∀ b ∈ blk :: blks, b ∈ arena.head ∨
        ∃ live, memArenaBlockCreate m live arena.blockSize = .ok b) ∧
      blk.memPtr + (ptrAlign size).toNat < blk.memEnd ∧ ptr = some blk.memPtr ∧
      arena' = { arena with head := { blk with
        memPrev := blk.memPtr, memPtr := blk.memPtr + (ptrAlign size).toNat } :: blks }) := by
  by_cases hlarge : ptrAlign size > arena.blockSize / 2
  · rw [memArenaAlloc, if_pos hlarge] at h
    cases h
    exact .inl ⟨lt_ptrAlign_iff.mp hlarge,rfl,rfl⟩
  · refine .inr ⟨Nat.le_of_not_lt (fun hlt => hlarge (lt_ptrAlign_iff.mpr hlt)),?_⟩
    cases hh : memArenaHead m arena with
    | error f =>
      rw [memArenaAlloc, if_neg hlarge, hh] at h
      cases h
    | ok p =>
      obtain ⟨blk,blks⟩ := p
      have hfrom := memArenaHead_ok hh
      simp only [memArenaAlloc, if_neg hlarge, hh, bind, Except.bind] at h
      cases ha : memArenaBlockAlloc blk (ptrAlign size) with
      | some q =>
        obtain ⟨p,blk'⟩ := q
        obtain ⟨rfl,hlt,rfl⟩ := memArenaBlockAlloc_some ha
        rw [ha] at h
        cases h
        exact ⟨blk,blks,hfrom,hlt,rfl,rfl⟩
      | none =>
        rw [ha] at h
        cases hc : memArenaBlockCreate m ((blk :: blks).map Block.region) arena.blockSize with
        | error f =>
          simp only [hc] at h
          cases h
        | ok new =>
          simp only [hc] at h
          cases hn : memArenaBlockAlloc new (ptrAlign size) with
          | none =>
            rw [hn] at h
            cases h
          | some q =>
            obtain ⟨p,new'⟩ := q
            obtain ⟨rfl,hlt,rfl⟩ := memArenaBlockAlloc_some hn
            rw [hn] at h
            cases h
            exact ⟨new,blk :: blks,List.forall_mem_cons.mpr ⟨.inr ⟨_,hc⟩,hfrom⟩,hlt,rfl,rfl⟩

/-! ## Blocks of any size -/

/-- What holds of a block also when the size of its allocation has wrapped. -/
structure Block.Made (bs : SizeT env) (blk : Block) : Prop where
  size : blk.region.size = (env.sizeofBlock + (ptrAlign bs).toNat) % 2 ^ env.bits
  memEnd : blk.memEnd = memStart env blk + (ptrAlign bs).toNat
  memPtr : memStart env blk ≤ blk.memPtr
  memPrev : blk.memPrev ≠ 0 → memStart env blk ≤ blk.memPrev

/-- All blocks of an arena were made with its block size. -/
structure Built (bs : SizeT env) (arena : MemArena env) : Prop where
  blockSize : arena.blockSize = bs
  made : ∀ blk ∈ arena.head, blk.Made bs

theorem memArenaBlockCreate_made {live : List Region}
    (h : memArenaBlockCreate m live blockSize = .ok blk) : blk.Made blockSize := by
  simp only [memArenaBlockCreate, kplMalloc] at h
  split at h
  case h_1 => cases h
  case h_2 a ha =>
    cases h
    refine ⟨?_,rfl,Nat.le_refl _,fun hne => absurd rfl hne⟩
    change (BitVec.ofNat env.bits env.sizeofBlock + ptrAlign blockSize).toNat = _
    rw [BitVec.toNat_add, BitVec.toNat_ofNat, Nat.mod_add_mod]

theorem Built.alloc (h : Built blockSize arena)
    (ha : memArenaAlloc m arena size = .ok (ptr,arena')) : Built blockSize arena' := by
  obtain rfl := h.blockSize
  rcases memArenaAlloc_ok ha with ⟨_,_,rfl⟩ | ⟨_,blk,blks,hfrom,_,_,rfl⟩
  · exact h
  · have hmade : ∀ b ∈ blk :: blks, b.Made arena.blockSize := by
      intro b hb
      rcases hfrom b hb with hold | ⟨live,hnew⟩
      · exact h.made b hold
      · exact memArenaBlockCreate_made hnew
    obtain ⟨hblk,hblks⟩ := List.forall_mem_cons.mp hmade
    refine ⟨rfl,List.forall_mem_cons.mpr ⟨⟨hblk.size,hblk.memEnd,?_,fun _ => hblk.memPtr⟩,hblks⟩⟩
    exact Nat.le_trans hblk.memPtr (Nat.le_add_right _ _)

theorem Built.rollback (h : Built blockSize arena) :
    Built blockSize (memArenaRollback arena) := by
  obtain ⟨bs,head⟩ := arena
  cases head with
  | nil => exact h
  | cons blk blks =>
    obtain ⟨hblk,hblks⟩ := List.forall_mem_cons.mp h.made
    unfold memArenaRollback
    split
    case h_1 => exact h
    case h_2 heq =>
      cases heq
      split
      case isTrue hprev =>
        exact ⟨h.blockSize,List.forall_mem_cons.mpr
          ⟨⟨hblk.size,hblk.memEnd,hblk.memPrev hprev,fun hne => absurd rfl hne⟩,hblks⟩⟩
      case isFalse => exact h

theorem Built.reset (h : Built blockSize arena) : Built blockSize (memArenaReset arena) := by
  obtain ⟨bs,head⟩ := arena
  cases head with
  | nil => exact h
  | cons blk blks =>
    have hblk := h.made blk List.mem_cons_self
    exact ⟨h.blockSize,List.forall_mem_singleton.mpr
      ⟨hblk.size,hblk.memEnd,Nat.le_refl _,fun hne => absurd rfl hne⟩⟩

theorem built_run {es : List Event} (hr : Run (Fires step) (memArenaInit blockSize) es arena) :
    Built blockSize arena := by
  refine hr.invariant ⟨rfl,by simp [memArenaInit]⟩ ?_
  rintro s es t h ⟨c,hc⟩
  cases c with
  | alloc m size =>
    simp only [step] at hc
    cases ha : memArenaAlloc m s size with
    | error f =>
      rw [ha] at hc
      cases hc
    | ok p =>
      rw [ha] at hc
      cases hc
      exact h.alloc ha
  | rollback =>
    cases hc
    exact h.rollback
  | reset =>
    cases hc
    exact h.reset

/-! ## When the limit is kept -/

theorem roundUp_le (env : CompilerEnv) (x : SizeT env) :
    roundUp env.ptrAlignment x.toNat ≤ 2 ^ env.bits := by
  have hx := x.isLt
  cases env <;> simp only [roundUp, ptrAlignment, bits] at hx ⊢ <;> omega

/-- A block whose allocation has wrapped has no place at all. -/
theorem Block.Made.not_within {bs : SizeT env} {p n : ℕ} (h : blk.Made bs)
    (hroom : 0 < (ptrAlign bs).toNat)
    (hwrap : 2 ^ env.bits ≤ env.sizeofBlock + roundUp env.ptrAlignment bs.toNat) :
    ¬ Region.Within ⟨p,n⟩ (memStart env blk) blk.region.limit := by
  have hsize := h.size
  have hend := h.memEnd
  have hle := roundUp_le env bs
  have halign := toNat_ptrAlign bs
  intro ⟨hlo,hhi⟩
  rcases Nat.lt_or_eq_of_le hle with hlt | heq
  · rw [Nat.mod_eq_of_lt hlt] at halign
    have hhead : env.sizeofBlock < 2 ^ env.bits := by cases env <;> decide
    rw [halign, Nat.mod_eq_sub_mod hwrap, Nat.mod_eq_of_lt (by omega)] at hsize
    simp only [Region.limit, memStart] at hlo hhi
    omega
  · rw [heq, Nat.mod_self] at halign
    omega

theorem Built.limits_wrap (h : Built blockSize arena) (hl : Limits m arena size) :
    roundUp env.ptrAlignment size.toNat < 2 ^ env.bits ∧
      (roundUp env.ptrAlignment size.toNat ≤ blockSize.toNat / 2 →
        env.sizeofBlock + roundUp env.ptrAlignment blockSize.toNat < 2 ^ env.bits) := by
  obtain rfl := h.blockSize
  have halign := toNat_ptrAlign size
  constructor
  · apply Nat.lt_of_not_le
    intro hwrap
    have hzero : roundUp env.ptrAlignment size.toNat = 2 ^ env.bits :=
      Nat.le_antisymm (roundUp_le env size) hwrap
    have hbs := arena.blockSize.isLt
    rw [hzero, Nat.mod_self] at halign
    rcases memArenaAlloc_ok (hl.refused (by omega)) with ⟨hlarge,_⟩ | ⟨_,_,_,_,_,hsome,_⟩
    · omega
    · cases hsome
  · intro hsmall
    apply Nat.lt_of_not_le
    intro hwrap
    obtain ⟨p,arena',ha,blk,hblk,hin⟩ := hl.served hsmall
    have hmade := (h.alloc ha).made
    rcases memArenaAlloc_ok ha with ⟨_,hnone,_⟩ | ⟨_,new,blks,_,hlt,_,rfl⟩
    · cases hnone
    · have hnew := hmade _ List.mem_cons_self
      have hend := hnew.memEnd
      have hptr := hnew.memPtr
      refine (hmade blk hblk).not_within ?_ hwrap hin
      dsimp only at hend hptr
      omega

end Kaplar.Arena
