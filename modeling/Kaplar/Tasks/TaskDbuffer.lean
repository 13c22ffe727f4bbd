import Kaplar.Foundation.Condvar
import Kaplar.Tasks.Task
import Mathlib.Data.Fin.Basic

/-! # The double-buffered task queue

Adders fill the write half of one allocation under the mutex; the single runner
swaps the halves under the mutex and runs the outgoing half outside of it. Every
critical section is one action. A call that blocks in `condvar_wait` ends its
action there and continues with a `wake` action, which the scheduler may take at
any later moment, signalled or not.
-/
namespace Kaplar.TaskDbuffer

/-- An adder inside `condvar_wait`, with the locals it keeps across the wait. -/
structure Sleeper where
  thread : ℕ
  idx : Fin 2
  task : Task
  deriving DecidableEq, Repr

structure Dbuffer where
  bufferFull : Condvar Sleeper
  active : Bool
  writeIdx : Fin 2
  maxTasks : ℕ
  count : Fin 2 → ℕ
  slots : ℕ → Task

/-- `buffer[0]` is the allocation itself and `buffer[1]` starts `max_tasks` behind it. -/
def buffer (maxTasks : ℕ) (idx : Fin 2) : ℕ := if idx = 0 then 0 else maxTasks

theorem other_half (idx : Fin 2) : 1 - (1 - idx) = idx := by
  revert idx
  decide

theorem rev_half (idx : Fin 2) : idx.rev = 1 - idx := by
  revert idx
  decide

/-- The two halves of the allocation do not overlap. -/
theorem buffer_disjoint (maxTasks : ℕ) (idx : Fin 2) :
    buffer maxTasks idx + maxTasks ≤ buffer maxTasks (1 - idx) ∨
      buffer maxTasks (1 - idx) + maxTasks ≤ buffer maxTasks idx := by
  unfold buffer
  rcases Fin.exists_fin_two.mp ⟨idx,rfl⟩ with h | h <;> subst h <;> simp

/-- The runner's locals: the next slot to run and how many are left. -/
structure Runner where
  task : ℕ
  count : ℕ
  deriving DecidableEq, Repr

structure State where
  db : Dbuffer
  runner : Runner

inductive Event where
  | added (thread : ℕ) (task : Task)
  | refused (thread : ℕ) (task : Task)
  | swapped
  | executed (task : Task)
  deriving DecidableEq, Repr

inductive Action where
  | add (thread : ℕ) (task : Task)
  | wake (k : Sleeper)
  | swap
  | execute
  | setInactive
  deriving DecidableEq, Repr

/-- A fresh queue; the contents of the allocation are whatever was there. -/
def taskDbufferCreate (maxTasks : ℕ) (slots : ℕ → Task) : Dbuffer where
  bufferFull := .init
  active := true
  writeIdx := 0
  maxTasks := maxTasks
  count := fun _ => 0
  slots := slots

def initial (maxTasks : ℕ) (slots : ℕ → Task) : State :=
  ⟨taskDbufferCreate maxTasks slots,⟨0,0⟩⟩

/-- An adder that read the index of the first half before it went to sleep. -/
def secondAdder : Sleeper := ⟨1,0,⟨2,2⟩⟩

/-- From the test of the wait loop to the next wait or to the end of the call. -/
def addLoop (db : Dbuffer) (k : Sleeper) : Dbuffer × List Event :=
  if db.count k.idx ≥ db.maxTasks ∧ db.active = true then
    ({ db with bufferFull := db.bufferFull.wait k },[])
  else if db.active = false then
    (db,[.refused k.thread k.task])
  else
    ({ db with
        slots := Function.update db.slots (buffer db.maxTasks k.idx + db.count k.idx) k.task
        count := Function.update db.count k.idx (db.count k.idx + 1) },
      [.added k.thread k.task])

/-- The whole first critical section of an add: the index is read before the loop. -/
def taskDbufferAdd (db : Dbuffer) (thread : ℕ) (task : Task) : Dbuffer × List Event :=
  addLoop db ⟨thread,db.writeIdx,task⟩

/-- The critical section of a swap, and the locals the run loop starts with. -/
def taskDbufferSwap (db : Dbuffer) : Dbuffer × Runner :=
  let idx := db.writeIdx
  let count := db.count idx
  let writeIdx := 1 - db.writeIdx
  ({ db with
      writeIdx := writeIdx
      count := Function.update db.count writeIdx 0
      bufferFull := if count ≥ db.maxTasks then db.bufferFull.broadcast else db.bufferFull },
    ⟨buffer db.maxTasks idx,count⟩)

def taskDbufferSetInactive (db : Dbuffer) : Dbuffer :=
  { db with active := false, bufferFull := db.bufferFull.broadcast }

/-- One critical section, or one iteration of the run loop. -/
def step (s : State) : Action → Option (State × List Event)
  | .add thread task =>
    if ∀ k ∈ s.db.bufferFull.sleepers, k.thread ≠ thread then
      let (db,es) := taskDbufferAdd s.db thread task
      some ({ s with db := db },es)
    else none
  | .wake k => do
    let cv ← s.db.bufferFull.resume k
    let (db,es) := addLoop { s.db with bufferFull := cv } k
    some ({ s with db := db },es)
  | .swap =>
    -- a single thread swaps, so its previous run loop has ended
    if s.runner.count = 0 then
      let (db,runner) := taskDbufferSwap s.db
      some (⟨db,runner⟩,[.swapped])
    else none
  | .execute =>
    if s.runner.count > 0 then
      some ({ s with runner := ⟨s.runner.task + 1,s.runner.count - 1⟩ },
        [.executed (s.db.slots s.runner.task)])
    else none
  | .setInactive => some ({ s with db := taskDbufferSetInactive s.db },[])

/-- What one pass of the wait loop can do, guards included. -/
theorem addLoop_cases (db : Dbuffer) (k : Sleeper) :
    (db.maxTasks ≤ db.count k.idx ∧ db.active = true ∧
      addLoop db k = ({ db with bufferFull := db.bufferFull.wait k },[])) ∨
    (db.active = false ∧ addLoop db k = (db,[.refused k.thread k.task])) ∨
    (db.count k.idx < db.maxTasks ∧ db.active = true ∧
      addLoop db k = ({ db with
        slots := Function.update db.slots (buffer db.maxTasks k.idx + db.count k.idx) k.task
        count := Function.update db.count k.idx (db.count k.idx + 1) },
        [.added k.thread k.task])) := by
  unfold addLoop
  split
  case isTrue h => exact .inl ⟨h.1,h.2,rfl⟩
  case isFalse h =>
    split
    case isTrue ha => exact .inr (.inl ⟨ha,rfl⟩)
    case isFalse ha =>
      have ha' : db.active = true := by simpa using ha
      have hc : db.count k.idx < db.maxTasks := by
        by_contra hc
        exact h ⟨by omega,ha'⟩
      exact .inr (.inr ⟨hc,ha',rfl⟩)

/-- What one action can do, guards included. -/
theorem step_cases {s t : State} {a : Action} {es : List Event} (h : step s a = some (t,es)) :
    (∃ thread task, a = .add thread task ∧
      (∀ k ∈ s.db.bufferFull.sleepers, k.thread ≠ thread) ∧
      t = { s with db := (addLoop s.db ⟨thread,s.db.writeIdx,task⟩).1 } ∧
      es = (addLoop s.db ⟨thread,s.db.writeIdx,task⟩).2) ∨
    (∃ k cv, a = .wake k ∧ s.db.bufferFull.resume k = some cv ∧
      t = { s with db := (addLoop { s.db with bufferFull := cv } k).1 } ∧
      es = (addLoop { s.db with bufferFull := cv } k).2) ∨
    (a = .swap ∧ s.runner.count = 0 ∧
      t = ⟨(taskDbufferSwap s.db).1,(taskDbufferSwap s.db).2⟩ ∧ es = [.swapped]) ∨
    (a = .execute ∧ 0 < s.runner.count ∧
      t = { s with runner := ⟨s.runner.task + 1,s.runner.count - 1⟩ } ∧
      es = [.executed (s.db.slots s.runner.task)]) ∨
    (a = .setInactive ∧ t = { s with db := taskDbufferSetInactive s.db } ∧ es = []) := by
  cases a with
  | add thread task =>
    simp only [step, Option.ite_none_right_eq_some, Option.some.injEq, Prod.mk.injEq] at h
    obtain ⟨hs,rfl,rfl⟩ := h
    exact .inl ⟨thread,task,rfl,hs,rfl,rfl⟩
  | wake k =>
    simp only [step, Option.bind_eq_bind, Option.bind_eq_some_iff, Option.some.injEq,
      Prod.mk.injEq] at h
    obtain ⟨cv,hcv,rfl,rfl⟩ := h
    exact .inr (.inl ⟨k,cv,rfl,hcv,rfl,rfl⟩)
  | swap =>
    simp only [step, Option.ite_none_right_eq_some, Option.some.injEq, Prod.mk.injEq] at h
    obtain ⟨hs,rfl,rfl⟩ := h
    exact .inr (.inr (.inl ⟨rfl,hs,rfl,rfl⟩))
  | execute =>
    simp only [step, Option.ite_none_right_eq_some, Option.some.injEq, Prod.mk.injEq] at h
    obtain ⟨hs,rfl,rfl⟩ := h
    exact .inr (.inr (.inr (.inl ⟨rfl,hs,rfl,rfl⟩)))
  | setInactive =>
    simp only [step, Option.some.injEq, Prod.mk.injEq] at h
    obtain ⟨rfl,rfl⟩ := h
    exact .inr (.inr (.inr (.inr ⟨rfl,rfl,rfl⟩)))

end Kaplar.TaskDbuffer
