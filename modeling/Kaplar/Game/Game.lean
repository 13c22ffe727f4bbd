import Kaplar.Server.ServerExec
import Kaplar.Tasks.TaskDbufferDelivery
import Kaplar.Tasks.TaskRbufferQueue

/-! # The threads and the queues between them

In each frame the game thread asks the server thread for its maintenance, in which it runs the
queued server tasks, and runs the queued game tasks itself. The database thread runs the
database tasks. Each of these is a login and ends with a server task that sends the answer.
-/
namespace Kaplar.Game
open Execution Server

/-- Where the game thread is in its frame. -/
inductive Frame where
  | start
  /-- between `server_exec` and the swap of the game tasks -/
  | asked
  | running
  deriving DecidableEq

def serverMaintenanceRoutine : Task := ⟨0,0⟩
def databaseResolveLogin (login : ℕ) : Task := ⟨1,login⟩
def internalResolveLogin (login : ℕ) : Task := ⟨2,login⟩

/-- The task sends the answer to a login. -/
def isResolve (task : Task) : Bool := task.fp = (internalResolveLogin task.arg).fp

def maxGameTasks : ℕ := 1024
def maxServerTasks : ℕ := 1024
def maxDbTasks : UInt32 := 1024

def dbThread : ℕ := 0

structure State where
  server : ExecState
  /-- the routine on the server thread has swapped the buffers -/
  swapped : Bool
  serverTasks : TaskDbuffer.State
  frame : Frame
  gameTasks : TaskDbuffer.State
  dbTasks : TaskRbuffer.State
  /-- the login on the database thread has its answer queued -/
  answered : Bool

inductive Event where
  | server (e : ExecEvent)
  | serverTask (e : TaskDbuffer.Event)
  | gameTask (e : TaskDbuffer.Event)
  | dbTask (e : TaskRbuffer.Event)
  deriving DecidableEq

inductive Action where
  | server (a : ExecAction)
  | serverTask (a : TaskDbuffer.Action)
  | gameTask (a : TaskDbuffer.Action)
  | dbTask (a : TaskRbuffer.Action)
  | frameEnd

/-- The state after all `init` functions, whatever was in the memory of the queues. -/
def gameInit (slots slots' : ℕ → Task) (buffer : UInt32 → Task) : State where
  server := serverInit
  swapped := false
  serverTasks := TaskDbuffer.initial maxServerTasks slots
  frame := .start
  gameTasks := TaskDbuffer.initial maxGameTasks slots'
  dbTasks := ⟨TaskRbuffer.fresh maxDbTasks buffer,.idle⟩
  answered := false

def inRoutine : Thread → Bool
  | .running _ => true
  | _ => false

/-- `server_exec` is called by the game thread alone, and the routine returns when the batch
is done. -/
def serverMay (s : State) : ExecAction → Bool
  | .serverExec task => s.frame = .start ∧ task = serverMaintenanceRoutine
  | .runTask => s.swapped = true ∧ s.serverTasks.runner.count = 0
  | _ => true

/-- The database thread adds the answer to its login, other threads add other tasks. Nobody
sets the queue inactive. -/
def serverTaskMay (s : State) : TaskDbuffer.Action → Bool
  | .add thread task =>
    if thread = dbThread then
      task = internalResolveLogin task.arg ∧ s.answered = false ∧
        s.dbTasks.consumer = .running (databaseResolveLogin task.arg)
    else isResolve task = false
  | .swap => inRoutine s.server.thread = true ∧ s.swapped = false
  | .setInactive => false
  | _ => true

def gameTaskMay (s : State) : TaskDbuffer.Action → Bool
  | .swap => s.frame = .asked
  | .setInactive => false
  | _ => true

/-- The tasks are logins, each of which returns after it has added its answer. -/
def dbTaskMay (s : State) : TaskRbuffer.Action → Bool
  | .push _ task _ => task = databaseResolveLogin task.arg
  | .execute => s.answered
  | _ => true

def addsAnswer : TaskDbuffer.Event → Bool
  | .added thread _ => thread = dbThread
  | _ => false

def afterServer (s : State) : ExecAction → State
  | .serverExec _ => { s with frame := .asked }
  | .runTask => { s with swapped := false }
  | _ => s

def step (s : State) : Action → Option (State × List Event)
  | .server a => if serverMay s a then (execStep s.server a).map (fun p =>
      ({ afterServer s a with server := p.1 },p.2.map .server)) else none
  | .serverTask a => if serverTaskMay s a then (TaskDbuffer.step s.serverTasks a).map (fun p =>
      ({ s with
          serverTasks := p.1
          swapped := s.swapped || decide (a = .swap)
          answered := s.answered || p.2.any addsAnswer },p.2.map .serverTask)) else none
  | .gameTask a => if gameTaskMay s a then (TaskDbuffer.step s.gameTasks a).map (fun p =>
      ({ s with
          gameTasks := p.1
          frame := if a = .swap then .running else s.frame },p.2.map .gameTask)) else none
  | .dbTask a => if dbTaskMay s a then (TaskRbuffer.step s.dbTasks a).map (fun p =>
      ({ s with
          dbTasks := p.1
          answered := s.answered && !decide (a = .execute) },p.2.map .dbTask)) else none
  | .frameEnd =>
    if s.frame = .running ∧ s.gameTasks.runner.count = 0 then some ({ s with frame := .start },[])
    else none

/-- No adder of a buffer that was woken stores out of turn. -/
def InTurn (s : State) : Action → Prop
  | .serverTask a => TaskDbuffer.InTurn s.serverTasks a
  | .gameTask a => TaskDbuffer.InTurn s.gameTasks a
  | _ => True

instance (s : State) (a : Action) : Decidable (InTurn s a) :=
  match a with
  | .serverTask a => inferInstanceAs (Decidable (TaskDbuffer.InTurn s.serverTasks a))
  | .gameTask a => inferInstanceAs (Decidable (TaskDbuffer.InTurn s.gameTasks a))
  | .server _ => isTrue trivial
  | .dbTask _ => isTrue trivial
  | .frameEnd => isTrue trivial

/-! ## What the parts see -/

def Event.server? : Event → Option ExecEvent
  | .server e => some e
  | _ => none

def Event.serverTask? : Event → Option TaskDbuffer.Event
  | .serverTask e => some e
  | _ => none

def Event.gameTask? : Event → Option TaskDbuffer.Event
  | .gameTask e => some e
  | _ => none

def Event.dbTask? : Event → Option TaskRbuffer.Event
  | .dbTask e => some e
  | _ => none

variable {s t : State} {a : Action} {es fs : List Event}

/-- What one action can do, guards included. -/
theorem step_cases (h : step s a = some (t,fs)) :
    (∃ b u gs, a = .server b ∧ serverMay s b = true ∧ execStep s.server b = some (u,gs) ∧
      t = { afterServer s b with server := u } ∧ fs = gs.map .server) ∨
    (∃ b u gs, a = .serverTask b ∧ serverTaskMay s b = true ∧
      TaskDbuffer.step s.serverTasks b = some (u,gs) ∧
      t = { s with
        serverTasks := u
        swapped := s.swapped || decide (b = .swap)
        answered := s.answered || gs.any addsAnswer } ∧ fs = gs.map .serverTask) ∨
    (∃ b u gs, a = .gameTask b ∧ gameTaskMay s b = true ∧
      TaskDbuffer.step s.gameTasks b = some (u,gs) ∧
      t = { s with gameTasks := u, frame := if b = .swap then .running else s.frame } ∧
      fs = gs.map .gameTask) ∨
    (∃ b u gs, a = .dbTask b ∧ dbTaskMay s b = true ∧ TaskRbuffer.step s.dbTasks b = some (u,gs) ∧
      t = { s with dbTasks := u, answered := s.answered && !decide (b = .execute) } ∧
      fs = gs.map .dbTask) ∨
    (a = .frameEnd ∧ s.frame = .running ∧ s.gameTasks.runner.count = 0 ∧
      t = { s with frame := .start } ∧ fs = []) := by
  cases a with
  | server b =>
    simp only [step, Option.ite_none_right_eq_some, Option.map_eq_some_iff, Prod.mk.injEq,
      Prod.exists] at h
    obtain ⟨hmay,u,gs,hstep,rfl,rfl⟩ := h
    exact .inl ⟨b,u,gs,rfl,hmay,hstep,rfl,rfl⟩
  | serverTask b =>
    simp only [step, Option.ite_none_right_eq_some, Option.map_eq_some_iff, Prod.mk.injEq,
      Prod.exists] at h
    obtain ⟨hmay,u,gs,hstep,rfl,rfl⟩ := h
    exact .inr (.inl ⟨b,u,gs,rfl,hmay,hstep,rfl,rfl⟩)
  | gameTask b =>
    simp only [step, Option.ite_none_right_eq_some, Option.map_eq_some_iff, Prod.mk.injEq,
      Prod.exists] at h
    obtain ⟨hmay,u,gs,hstep,rfl,rfl⟩ := h
    exact .inr (.inr (.inl ⟨b,u,gs,rfl,hmay,hstep,rfl,rfl⟩))
  | dbTask b =>
    simp only [step, Option.ite_none_right_eq_some, Option.map_eq_some_iff, Prod.mk.injEq,
      Prod.exists] at h
    obtain ⟨hmay,u,gs,hstep,rfl,rfl⟩ := h
    exact .inr (.inr (.inr (.inl ⟨b,u,gs,rfl,hmay,hstep,rfl,rfl⟩)))
  | frameEnd =>
    simp only [step, Option.ite_none_right_eq_some, Option.some.injEq, Prod.mk.injEq] at h
    obtain ⟨⟨hframe,hcount⟩,rfl,rfl⟩ := h
    exact .inr (.inr (.inr (.inr ⟨rfl,hframe,hcount,rfl,rfl⟩)))

/-! ## The parts of a run -/

variable {s₀ : State}

theorem run_server (hr : Run (FiresWhen InTurn step) s₀ es t) :
    Run (Fires execStep) s₀.server (es.filterMap Event.server?) t.server := by
  refine hr.project State.server Event.server? ?_
  rintro s fs t ⟨a,-,ha⟩
  obtain ⟨b,u,gs,rfl,_,hb,rfl,rfl⟩ | ⟨b,u,gs,rfl,_,hb,rfl,rfl⟩ | ⟨b,u,gs,rfl,_,hb,rfl,rfl⟩ |
    ⟨b,u,gs,rfl,_,hb,rfl,rfl⟩ | ⟨rfl,_,_,rfl,rfl⟩ := step_cases ha
  · left
    refine ⟨b,?_⟩
    simpa [Event.server?,List.filterMap_map,Function.comp_def] using hb
  all_goals exact .inr ⟨by simp [Event.server?,List.filterMap_map,Function.comp_def],rfl⟩

theorem run_serverTasks (hr : Run (FiresWhen InTurn step) s₀ es t) :
    Run (FiresWhen TaskDbuffer.InTurn TaskDbuffer.step) s₀.serverTasks
      (es.filterMap Event.serverTask?) t.serverTasks := by
  refine hr.project State.serverTasks Event.serverTask? ?_
  rintro s fs t ⟨a,hturn,ha⟩
  obtain ⟨b,u,gs,rfl,_,hb,rfl,rfl⟩ | ⟨b,u,gs,rfl,_,hb,rfl,rfl⟩ | ⟨b,u,gs,rfl,_,hb,rfl,rfl⟩ |
    ⟨b,u,gs,rfl,_,hb,rfl,rfl⟩ | ⟨rfl,_,_,rfl,rfl⟩ := step_cases ha
  · refine .inr ⟨by simp [Event.serverTask?,List.filterMap_map,Function.comp_def],?_⟩
    cases b <;> rfl
  · left
    refine ⟨b,hturn,?_⟩
    simpa [Event.serverTask?,List.filterMap_map,Function.comp_def] using hb
  all_goals exact .inr ⟨by simp [Event.serverTask?,List.filterMap_map,Function.comp_def],rfl⟩

theorem run_gameTasks (hr : Run (FiresWhen InTurn step) s₀ es t) :
    Run (FiresWhen TaskDbuffer.InTurn TaskDbuffer.step) s₀.gameTasks
      (es.filterMap Event.gameTask?) t.gameTasks := by
  refine hr.project State.gameTasks Event.gameTask? ?_
  rintro s fs t ⟨a,hturn,ha⟩
  obtain ⟨b,u,gs,rfl,_,hb,rfl,rfl⟩ | ⟨b,u,gs,rfl,_,hb,rfl,rfl⟩ | ⟨b,u,gs,rfl,_,hb,rfl,rfl⟩ |
    ⟨b,u,gs,rfl,_,hb,rfl,rfl⟩ | ⟨rfl,_,_,rfl,rfl⟩ := step_cases ha
  · refine .inr ⟨by simp [Event.gameTask?,List.filterMap_map,Function.comp_def],?_⟩
    cases b <;> rfl
  · exact .inr ⟨by simp [Event.gameTask?,List.filterMap_map,Function.comp_def],rfl⟩
  · left
    refine ⟨b,hturn,?_⟩
    simpa [Event.gameTask?,List.filterMap_map,Function.comp_def] using hb
  all_goals exact .inr ⟨by simp [Event.gameTask?,List.filterMap_map,Function.comp_def],rfl⟩

theorem run_dbTasks (hr : Run (FiresWhen InTurn step) s₀ es t) :
    Run (Fires TaskRbuffer.step) s₀.dbTasks (es.filterMap Event.dbTask?) t.dbTasks := by
  refine hr.project State.dbTasks Event.dbTask? ?_
  rintro s fs t ⟨a,-,ha⟩
  obtain ⟨b,u,gs,rfl,_,hb,rfl,rfl⟩ | ⟨b,u,gs,rfl,_,hb,rfl,rfl⟩ | ⟨b,u,gs,rfl,_,hb,rfl,rfl⟩ |
    ⟨b,u,gs,rfl,_,hb,rfl,rfl⟩ | ⟨rfl,_,_,rfl,rfl⟩ := step_cases ha
  · refine .inr ⟨by simp [Event.dbTask?,List.filterMap_map,Function.comp_def],?_⟩
    cases b <;> rfl
  · exact .inr ⟨by simp [Event.dbTask?,List.filterMap_map,Function.comp_def],rfl⟩
  · exact .inr ⟨by simp [Event.dbTask?,List.filterMap_map,Function.comp_def],rfl⟩
  · left
    refine ⟨b,?_⟩
    simpa [Event.dbTask?,List.filterMap_map,Function.comp_def] using hb
  · exact .inr ⟨rfl,rfl⟩

/-! ## Accepted and executed tasks -/

/-- The tasks a buffer has accepted, in the order of the adds. -/
def accepted (es : List TaskDbuffer.Event) : List Task := Batch.puts (TaskDbuffer.batchEvents es)

def executed (es : List TaskDbuffer.Event) : List Task := Batch.takes (TaskDbuffer.batchEvents es)

theorem accepted_append (es fs : List TaskDbuffer.Event) :
    accepted (es ++ fs) = accepted es ++ accepted fs := by
  rw [accepted, TaskDbuffer.batchEvents_append, Batch.puts_append]
  rfl

@[simp] theorem accepted_nil : accepted [] = [] := rfl
@[simp] theorem executed_nil : executed [] = [] := rfl

/-- What is left of the batch, and what the next swap will hand over. -/
def batch (s : TaskDbuffer.State) : List Task :=
  slotsFrom s.db.slots s.runner.task s.runner.count

def pending (s : TaskDbuffer.State) : List Task :=
  slotsFrom s.db.slots (TaskDbuffer.buffer s.db.maxTasks s.db.writeIdx)
    (s.db.count s.db.writeIdx)

section Buffers
variable {n : ℕ} {slots : ℕ → Task} {b : TaskDbuffer.State} {gs hs : List TaskDbuffer.Event}

theorem accepted_eq (hr : Run (FiresWhen TaskDbuffer.InTurn TaskDbuffer.step)
    (TaskDbuffer.initial n slots) gs b) : accepted gs = executed gs ++ batch b ++ pending b := by
  obtain ⟨l,hl,ho⟩ := TaskDbuffer.run_owes hr
  have hall := Batch.Ledger.run_conserves hl
  rw [ho.batch, ho.pending] at hall
  exact hall

/-- Once the batch is done, what was accepted before its swap has been executed. -/
theorem accepted_before (hr : Run (FiresWhen TaskDbuffer.InTurn TaskDbuffer.step)
    (TaskDbuffer.initial n slots) (gs ++ hs) b) (hswap : .swapped ∈ hs)
    (hdone : ¬ 0 < b.runner.count) : accepted gs <+: executed (gs ++ hs) := by
  obtain ⟨l,hl,ho⟩ := TaskDbuffer.run_owes hr
  have hmem : Batch.Event.swap ∈ TaskDbuffer.batchEvents hs :=
    List.mem_filterMap.mpr ⟨.swapped,hswap,rfl⟩
  have hbatch : l.batch = [] := by
    rw [ho.batch, Nat.eq_zero_of_not_pos hdone, slotsFrom_zero]
  rw [TaskDbuffer.batchEvents_append] at hl
  have hall := Batch.Ledger.handed_over hl hmem
  rw [hbatch, List.append_nil, ← TaskDbuffer.batchEvents_append] at hall
  exact hall

end Buffers

end Kaplar.Game
