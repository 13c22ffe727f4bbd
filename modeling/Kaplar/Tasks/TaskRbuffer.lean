import Kaplar.Foundation.Condvar
import Kaplar.Tasks.Task

/-! # The bounded task ring

Producers push under the mutex and sleep on `rb_full`; the single consumer pops
under the mutex, sleeps on `rb_empty` and runs the popped task outside of it. The
positions are the 32-bit counters of the source, which wrap.
-/
namespace Kaplar.TaskRbuffer

/-- A producer inside `condvar_wait`, with the arguments of its push. -/
structure Producer where
  thread : ℕ
  task : Task
  deriving DecidableEq, Repr

structure Rbuffer where
  rbFull : Condvar Producer
  rbEmpty : Condvar Unit
  active : Bool
  indexMask : UInt32
  readpos : UInt32
  writepos : UInt32
  buffer : UInt32 → Task

inductive Consumer where
  | idle
  | running (task : Task)
  deriving DecidableEq, Repr

structure State where
  rb : Rbuffer
  consumer : Consumer

inductive Event where
  | pushed (thread : ℕ) (task : Task)
  | refused (thread : ℕ) (task : Task)
  | popped (task : Task)
  | executed (task : Task)
  | stopped
  deriving DecidableEq, Repr

/-- The optional sleeper of an action is the one its signal wakes, if it signals. -/
inductive Action where
  | push (thread : ℕ) (task : Task) (wakes : Option Unit)
  | wakeProducer (k : Producer)
  | runOne (wakes : Option Producer)
  | wakeConsumer
  | execute
  | setInactive
  deriving DecidableEq, Repr

def isPowerOfTwo (x : UInt32) : Bool := x != 0 && (x &&& (x - 1)) == 0

def fresh (maxTasks : UInt32) (buffer : UInt32 → Task) : Rbuffer where
  rbFull := .init
  rbEmpty := .init
  active := true
  indexMask := maxTasks - 1
  readpos := 0
  writepos := 0
  buffer := buffer

/-- A fresh ring, unless the assertion on the capacity fails. -/
def taskRbufferCreate (maxTasks : UInt32) (buffer : UInt32 → Task) : Option Rbuffer :=
  if isPowerOfTwo maxTasks then some (fresh maxTasks buffer) else none

def initial (maxTasks : UInt32) (buffer : UInt32 → Task) : Option State :=
  (taskRbufferCreate maxTasks buffer).map (fun rb => ⟨rb,.idle⟩)

def taskRbufferEmpty (rb : Rbuffer) : Bool := rb.readpos == rb.writepos
def taskRbufferFull (rb : Rbuffer) : Bool := decide (rb.writepos - rb.readpos > rb.indexMask)

/-- The common tail of a push: the task goes to the slot `writepos++` selects. -/
def store (rb : Rbuffer) (task : Task) : Rbuffer :=
  { rb with
    buffer := Function.update rb.buffer (rb.writepos &&& rb.indexMask) task
    writepos := rb.writepos + 1 }

/-- The common tail of a pop: the task in the slot `readpos++` selects. -/
def load (rb : Rbuffer) : Rbuffer × Task :=
  ({ rb with readpos := rb.readpos + 1 },rb.buffer (rb.readpos &&& rb.indexMask))

/-- A push up to its first wait or its return. -/
def taskRbufferPush (rb : Rbuffer) (thread : ℕ) (task : Task) (wakes : Option Unit) :
    Option (Rbuffer × List Event) :=
  if rb.active = false then some (rb,[.refused thread task])
  else if taskRbufferFull rb then some ({ rb with rbFull := rb.rbFull.wait ⟨thread,task⟩ },[])
  else if taskRbufferEmpty rb then do
    let cv ← rb.rbEmpty.signal wakes
    pure (store { rb with rbEmpty := cv } task,[.pushed thread task])
  else some (store rb task,[.pushed thread task])

/-- A push from the end of one wait to the next wait or its return. -/
def pushWoken (rb : Rbuffer) (k : Producer) : Rbuffer × List Event :=
  if taskRbufferFull rb ∧ rb.active = true then ({ rb with rbFull := rb.rbFull.wait k },[])
  else if rb.active = false then (rb,[.refused k.thread k.task])
  else (store rb k.task,[.pushed k.thread k.task])

def pop (rb : Rbuffer) : State × List Event :=
  (⟨(load rb).1,.running (load rb).2⟩,[.popped (load rb).2])

/-- A `run_one` up to its first wait, its return, or the call of the task. -/
def taskRbufferRunOne (rb : Rbuffer) (wakes : Option Producer) : Option (State × List Event) :=
  if rb.active = false then some (⟨rb,.idle⟩,[.stopped])
  else if taskRbufferEmpty rb then some (⟨{ rb with rbEmpty := rb.rbEmpty.wait () },.idle⟩,[])
  else if taskRbufferFull rb then do
    let cv ← rb.rbFull.signal wakes
    pure (pop { rb with rbFull := cv })
  else some (pop rb)

/-- A `run_one` from the end of one wait to the next wait, its return, or the call. -/
def runOneWoken (rb : Rbuffer) : State × List Event :=
  if taskRbufferEmpty rb ∧ rb.active = true then
    (⟨{ rb with rbEmpty := rb.rbEmpty.wait () },.idle⟩,[])
  else if rb.active = false then (⟨rb,.idle⟩,[.stopped])
  else pop rb

def taskRbufferSetInactive (rb : Rbuffer) : Rbuffer :=
  { rb with
    active := false
    rbFull := rb.rbFull.broadcast
    rbEmpty := rb.rbEmpty.broadcast }

/-- One critical section, or the call of a popped task. -/
def step (s : State) : Action → Option (State × List Event)
  | .push thread task wakes =>
    if ∀ k ∈ s.rb.rbFull.sleepers, k.thread ≠ thread then do
      let (rb,es) ← taskRbufferPush s.rb thread task wakes
      pure ({ s with rb := rb },es)
    else none
  | .wakeProducer k => do
    let cv ← s.rb.rbFull.resume k
    let (rb,es) := pushWoken { s.rb with rbFull := cv } k
    pure ({ s with rb := rb },es)
  | .runOne wakes =>
    -- a single thread consumes: it is neither asleep nor inside a task
    if s.consumer = .idle ∧ s.rb.rbEmpty.sleepers = [] then taskRbufferRunOne s.rb wakes
    else none
  | .wakeConsumer => do
    let cv ← s.rb.rbEmpty.resume ()
    pure (runOneWoken { s.rb with rbEmpty := cv })
  | .execute => match s.consumer with
    | .idle => none
    | .running task => some ({ s with consumer := .idle },[.executed task])
  | .setInactive => some ({ s with rb := taskRbufferSetInactive s.rb },[])

theorem taskRbufferEmpty_iff {rb : Rbuffer} :
    taskRbufferEmpty rb = true ↔ rb.readpos = rb.writepos := by
  simp [taskRbufferEmpty]

/-- An empty ring is never full, whatever its mask. -/
theorem not_full_of_empty {rb : Rbuffer} (h : taskRbufferEmpty rb = true) :
    taskRbufferFull rb = false := by
  have hp := taskRbufferEmpty_iff.mp h
  simp [taskRbufferFull,hp]

/-- What a push can do, guards included. -/
theorem push_cases {rb rb' : Rbuffer} {thread : ℕ} {task : Task} {wakes : Option Unit}
    {es : List Event} (h : taskRbufferPush rb thread task wakes = some (rb',es)) :
    (rb.active = false ∧ rb' = rb ∧ es = [.refused thread task]) ∨
    (rb.active = true ∧ taskRbufferFull rb = true ∧
      rb' = { rb with rbFull := rb.rbFull.wait ⟨thread,task⟩ } ∧ es = []) ∨
    (rb.active = true ∧ taskRbufferFull rb = false ∧ es = [.pushed thread task] ∧
      ((taskRbufferEmpty rb = true ∧ ∃ cv, rb.rbEmpty.signal wakes = some cv ∧
          rb' = store { rb with rbEmpty := cv } task) ∨
        (taskRbufferEmpty rb = false ∧ rb' = store rb task))) := by
  unfold taskRbufferPush at h
  split at h
  case isTrue ha =>
    cases h
    exact .inl ⟨ha,rfl,rfl⟩
  case isFalse ha =>
    have ha : rb.active = true := by simpa using ha
    split at h
    case isTrue hf =>
      cases h
      exact .inr (.inl ⟨ha,hf,rfl,rfl⟩)
    case isFalse hf =>
      have hf : taskRbufferFull rb = false := by simpa using hf
      split at h
      case isTrue he =>
        simp only [Option.bind_eq_bind, Option.bind_eq_some_iff, Option.pure_def,
          Option.some.injEq, Prod.mk.injEq] at h
        obtain ⟨cv,hcv,rfl,rfl⟩ := h
        exact .inr (.inr ⟨ha,hf,rfl,.inl ⟨he,cv,hcv,rfl⟩⟩)
      case isFalse he =>
        cases h
        exact .inr (.inr ⟨ha,hf,rfl,.inr ⟨by simpa using he,rfl⟩⟩)

theorem pushWoken_cases (rb : Rbuffer) (k : Producer) :
    (taskRbufferFull rb = true ∧ rb.active = true ∧
      pushWoken rb k = ({ rb with rbFull := rb.rbFull.wait k },[])) ∨
    (rb.active = false ∧ pushWoken rb k = (rb,[.refused k.thread k.task])) ∨
    (taskRbufferFull rb = false ∧ rb.active = true ∧
      pushWoken rb k = (store rb k.task,[.pushed k.thread k.task])) := by
  unfold pushWoken
  cases hf : taskRbufferFull rb <;> cases ha : rb.active <;> simp

/-- What a `run_one` can do, guards included. -/
theorem runOne_cases {rb : Rbuffer} {wakes : Option Producer} {t : State} {es : List Event}
    (h : taskRbufferRunOne rb wakes = some (t,es)) :
    (rb.active = false ∧ t = ⟨rb,.idle⟩ ∧ es = [.stopped]) ∨
    (rb.active = true ∧ taskRbufferEmpty rb = true ∧
      t = ⟨{ rb with rbEmpty := rb.rbEmpty.wait () },.idle⟩ ∧ es = []) ∨
    (rb.active = true ∧ taskRbufferEmpty rb = false ∧ ∃ cv,
      ((taskRbufferFull rb = true ∧ rb.rbFull.signal wakes = some cv) ∨
        (taskRbufferFull rb = false ∧ cv = rb.rbFull)) ∧
      t = (pop { rb with rbFull := cv }).1 ∧ es = (pop { rb with rbFull := cv }).2) := by
  unfold taskRbufferRunOne at h
  split at h
  case isTrue ha =>
    cases h
    exact .inl ⟨ha,rfl,rfl⟩
  case isFalse ha =>
    have ha : rb.active = true := by simpa using ha
    split at h
    case isTrue he =>
      cases h
      exact .inr (.inl ⟨ha,he,rfl,rfl⟩)
    case isFalse he =>
      have he : taskRbufferEmpty rb = false := by simpa using he
      split at h
      case isTrue hf =>
        simp only [Option.bind_eq_bind, Option.bind_eq_some_iff, Option.pure_def,
          Option.some.injEq] at h
        obtain ⟨cv,hcv,h⟩ := h
        exact .inr (.inr ⟨ha,he,cv,.inl ⟨hf,hcv⟩,by rw [h],by rw [h]⟩)
      case isFalse hf =>
        cases h
        exact .inr (.inr ⟨ha,he,_,.inr ⟨by simpa using hf,rfl⟩,rfl,rfl⟩)

theorem runOneWoken_cases (rb : Rbuffer) :
    (taskRbufferEmpty rb = true ∧ rb.active = true ∧
      runOneWoken rb = (⟨{ rb with rbEmpty := rb.rbEmpty.wait () },.idle⟩,[])) ∨
    (rb.active = false ∧ runOneWoken rb = (⟨rb,.idle⟩,[.stopped])) ∨
    (taskRbufferEmpty rb = false ∧ rb.active = true ∧ runOneWoken rb = pop rb) := by
  unfold runOneWoken
  cases he : taskRbufferEmpty rb <;> cases ha : rb.active <;> simp

/-- What one action can do, guards included. -/
theorem step_cases {s t : State} {a : Action} {es : List Event} (h : step s a = some (t,es)) :
    (∃ thread task wakes rb, a = .push thread task wakes ∧
      (∀ k ∈ s.rb.rbFull.sleepers, k.thread ≠ thread) ∧
      taskRbufferPush s.rb thread task wakes = some (rb,es) ∧ t = { s with rb := rb }) ∨
    (∃ k cv, a = .wakeProducer k ∧ s.rb.rbFull.resume k = some cv ∧
      t = { s with rb := (pushWoken { s.rb with rbFull := cv } k).1 } ∧
      es = (pushWoken { s.rb with rbFull := cv } k).2) ∨
    (∃ wakes, a = .runOne wakes ∧ s.consumer = .idle ∧ s.rb.rbEmpty.sleepers = [] ∧
      taskRbufferRunOne s.rb wakes = some (t,es)) ∨
    (∃ cv, a = .wakeConsumer ∧ s.rb.rbEmpty.resume () = some cv ∧
      (t,es) = runOneWoken { s.rb with rbEmpty := cv }) ∨
    (∃ task, a = .execute ∧ s.consumer = .running task ∧ t = { s with consumer := .idle } ∧
      es = [.executed task]) ∨
    (a = .setInactive ∧ t = { s with rb := taskRbufferSetInactive s.rb } ∧ es = []) := by
  cases a with
  | push thread task wakes =>
    simp only [step, Option.ite_none_right_eq_some, Option.bind_eq_bind, Option.bind_eq_some_iff,
      Option.pure_def, Option.some.injEq, Prod.mk.injEq, Prod.exists] at h
    obtain ⟨hs,rb,fs,hp,rfl,rfl⟩ := h
    exact .inl ⟨thread,task,wakes,rb,rfl,hs,hp,rfl⟩
  | wakeProducer k =>
    simp only [step, Option.bind_eq_bind, Option.bind_eq_some_iff, Option.pure_def,
      Option.some.injEq, Prod.mk.injEq] at h
    obtain ⟨cv,hcv,rfl,rfl⟩ := h
    exact .inr (.inl ⟨k,cv,rfl,hcv,rfl,rfl⟩)
  | runOne wakes =>
    simp only [step, Option.ite_none_right_eq_some] at h
    exact .inr (.inr (.inl ⟨wakes,rfl,h.1.1,h.1.2,h.2⟩))
  | wakeConsumer =>
    simp only [step, Option.bind_eq_bind, Option.bind_eq_some_iff, Option.pure_def,
      Option.some.injEq] at h
    obtain ⟨cv,hcv,h⟩ := h
    exact .inr (.inr (.inr (.inl ⟨cv,rfl,hcv,h.symm⟩)))
  | execute =>
    simp only [step] at h
    split at h
    case h_1 => cases h
    case h_2 task hc =>
      cases h
      exact .inr (.inr (.inr (.inr (.inl ⟨task,rfl,hc,rfl,rfl⟩))))
  | setInactive =>
    simp only [step, Option.some.injEq, Prod.mk.injEq] at h
    obtain ⟨rfl,rfl⟩ := h
    exact .inr (.inr (.inr (.inr (.inr ⟨rfl,rfl,rfl⟩))))

end Kaplar.TaskRbuffer
