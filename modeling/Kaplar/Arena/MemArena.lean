import Kaplar.Foundation.Execution
import Kaplar.Foundation.Regions
import Mathlib.Data.Nat.Bitwise

/-! # Memory arenas

Sizes are `size_t` and wrap; addresses are integers, and arithmetic on a pointer is exact.
Every request may see another allocator; all that is known of one is what `kpl_malloc`
promises.
-/
namespace Kaplar.Arena
open Execution

inductive CompilerEnv where
  | env32
  | env64
  deriving DecidableEq, Repr

namespace CompilerEnv

/-- `sizeof(void*)` -/
def ptrAlignment : CompilerEnv → ℕ
  | env32 => 4
  | env64 => 8

def bits : CompilerEnv → ℕ
  | env32 => 32
  | env64 => 64

/-- `sizeof(struct mem_arena_block)`: four pointers before `mem_start`. -/
def sizeofBlock (env : CompilerEnv) : ℕ := 4 * env.ptrAlignment

abbrev SizeT (env : CompilerEnv) := BitVec env.bits

def ptrAlignmentMask (env : CompilerEnv) : SizeT env := BitVec.ofNat _ env.ptrAlignment - 1

end CompilerEnv

open CompilerEnv
variable {env : CompilerEnv}

def ptrAlign (x : SizeT env) : SizeT env :=
  if x &&& env.ptrAlignmentMask ≠ 0 then
    (x + BitVec.ofNat _ env.ptrAlignment) &&& ~~~ env.ptrAlignmentMask
  else x

/-- Answers of `kpl_malloc`, given what is allocated already; without one it aborts. -/
structure Malloc (env : CompilerEnv) where
  answer : List Region → ℕ → Option ℕ
  sound : ∀ live n a, answer live n = some a →
    0 < a ∧ env.ptrAlignment ∣ a ∧ ∀ r ∈ live, r.Apart ⟨a,n⟩

/-- An allocator that tries one address, whatever is asked for. -/
def Malloc.trying (a : ℕ) : Malloc env where
  answer live n :=
    if 0 < a ∧ env.ptrAlignment ∣ a ∧ ∀ r ∈ live, r.Apart ⟨a,n⟩ then some a else none
  sound live n b h := by
    obtain ⟨hok,hb⟩ := Option.ite_none_right_eq_some.mp h
    obtain rfl := Option.some.inj hb
    exact hok

inductive Fault where
  | outOfMemory
  | assertion
  deriving DecidableEq, Repr

/-- A block with the allocation that holds it. NULL is address zero. -/
structure Block where
  region : Region
  memPrev : ℕ
  memPtr : ℕ
  memEnd : ℕ
  deriving DecidableEq, Repr

def memStart (env : CompilerEnv) (blk : Block) : ℕ := blk.region.addr + env.sizeofBlock

/-- An arena with its chain of blocks from `head` on. -/
structure MemArena (env : CompilerEnv) where
  blockSize : SizeT env
  head : List Block
  deriving DecidableEq

def memArenaInit (s : SizeT env) : MemArena env := ⟨s,[]⟩

def kplMalloc (m : Malloc env) (live : List Region) (size : SizeT env) : Except Fault Region :=
  match m.answer live size.toNat with
  | none => .error .outOfMemory
  | some a => .ok ⟨a,size.toNat⟩

def memArenaBlockCreate (m : Malloc env) (live : List Region) (blockSize : SizeT env) :
    Except Fault Block := do
  let blockSize := ptrAlign blockSize
  let region ← kplMalloc m live (BitVec.ofNat _ env.sizeofBlock + blockSize)
  let start := region.addr + env.sizeofBlock
  pure {
    region := region
    memPrev := 0
    memPtr := start
    memEnd := start + blockSize.toNat }

def memArenaBlockAlloc (blk : Block) (size : SizeT env) : Option (ℕ × Block) :=
  let ptr := blk.memPtr
  let nextptr := blk.memPtr + size.toNat
  if nextptr ≥ blk.memEnd then none
  else some (ptr,{ blk with memPrev := ptr, memPtr := nextptr })

/-- The head block, which is created if there is none, and the blocks after it. -/
def memArenaHead (m : Malloc env) (arena : MemArena env) : Except Fault (Block × List Block) :=
  match arena.head with
  | [] => do
    let blk ← memArenaBlockCreate m [] arena.blockSize
    pure (blk,[])
  | blk :: blks => pure (blk,blks)

def memArenaAlloc (m : Malloc env) (arena : MemArena env) (size : SizeT env) :
    Except Fault (Option ℕ × MemArena env) := do
  let size := ptrAlign size
  -- disallow allocations larger than half the block's size
  if size > arena.blockSize / 2 then pure (none,arena)
  else
    let (blk,blks) ← memArenaHead m arena
    match memArenaBlockAlloc blk size with
    | some (ptr,blk) => pure (some ptr,{ arena with head := blk :: blks })
    | none =>
      let new ← memArenaBlockCreate m ((blk :: blks).map Block.region) arena.blockSize
      match memArenaBlockAlloc new size with
      | none => throw .assertion
      | some (ptr,new) => pure (some ptr,{ arena with head := new :: blk :: blks })

def memArenaRollback (arena : MemArena env) : MemArena env :=
  match arena.head with
  | [] => arena
  | blk :: blks =>
    if blk.memPrev ≠ 0 then
      { arena with head := { blk with memPtr := blk.memPrev, memPrev := 0 } :: blks }
    else arena

def memArenaReset (arena : MemArena env) : MemArena env :=
  match arena.head with
  | [] => arena
  | head :: _ => { arena with head := [{ head with memPrev := 0, memPtr := memStart env head }] }

/-! ## Runs of calls -/

inductive Call (env : CompilerEnv) where
  | alloc (m : Malloc env) (size : SizeT env)
  | rollback
  | reset

/-- What a call did; an allocation is listed with its aligned size. -/
inductive Event where
  | allocated (r : Region)
  | refused
  | rolledBack
  | wasReset
  deriving DecidableEq, Repr

def allocEvent (size : SizeT env) : Option ℕ → Event
  | none => .refused
  | some ptr => .allocated ⟨ptr,(ptrAlign size).toNat⟩

/-- One call; a call that does not return ends the run before it. -/
def step (arena : MemArena env) : Call env → Option (MemArena env × List Event)
  | .alloc m size => match memArenaAlloc m arena size with
    | .error _ => none
    | .ok (ptr,arena) => some (arena,[allocEvent size ptr])
  | .rollback => some (memArenaRollback arena,[.rolledBack])
  | .reset => some (memArenaReset arena,[.wasReset])

/-- The allocations a caller may still use, the last one first, and how many of them it
has made since it last rolled back or reset. -/
structure Ledger where
  live : List Region
  recent : ℕ
  deriving DecidableEq, Repr

def Ledger.record (l : Ledger) : Event → Ledger
  | .allocated r => ⟨r :: l.live,l.recent + 1⟩
  | .refused => l
  | .rolledBack => if l.recent = 0 then l else ⟨l.live.tail,0⟩
  | .wasReset => ⟨[],0⟩

def ledger (es : List Event) : Ledger := es.foldl Ledger.record ⟨[],0⟩

end Kaplar.Arena
