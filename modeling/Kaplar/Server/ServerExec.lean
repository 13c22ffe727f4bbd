import Kaplar.Foundation.Execution
import Kaplar.Foundation.Mailbox
import Kaplar.Tasks.Task

/-! # Tasks for the server thread

`server_exec` puts a task into the slot that the server thread empties at the top of
its loop, and interrupts the thread's wait for completions. Critical sections are
single actions; a task and a batch of completions take as long as they take. The
completion port keeps every interrupt until it is dequeued.
-/
namespace Kaplar.Server
open Execution

/-- Where the server thread is. -/
inductive Thread where
  | top
  | running (task : Task)
  /-- inside `server_internal_work`, before the wait for completions -/
  | working
  /-- the completions of one wait, and whether an interrupt was among them -/
  | batch (interrupt : Bool)
  | stopped

/-- From the top of the loop the thread goes on with the task it has taken, if any. -/
def afterTop : Option Task → Thread
  | none => .working
  | some task => .running task

structure ExecState where
  running : Bool
  /-- `task_fp` and `task_arg` -/
  task : Option Task
  interrupts : ℕ
  thread : Thread

inductive ExecEvent where
  /-- a call while running, and whether its assertion `task_fp == NULL` held -/
  | exec (task : Task) (clear : Bool)
  | dropped (task : Task)
  | taken (task : Option Task)
  | executed (task : Task)
  deriving DecidableEq

inductive ExecAction where
  | serverExec (task : Task)
  | top
  | runTask
  | dequeue (interrupts : ℕ)
  | complete
  | expire
  | serverShutdown

def serverInit : ExecState := ⟨true,none,0,.top⟩

def serverExec (s : ExecState) (task : Task) : ExecState × List ExecEvent :=
  if s.running = false then (s,[.dropped task])
  else ({ s with task := some task, interrupts := s.interrupts + 1 },[.exec task s.task.isNone])

/-- The top of the loop of `server_thread`. -/
def loopTop (s : ExecState) : ExecState × List ExecEvent :=
  if s.running = false then ({ s with thread := .stopped },[])
  else ({ s with task := none, thread := afterTop s.task },[.taken s.task])

def execStep (s : ExecState) : ExecAction → Option (ExecState × List ExecEvent)
  | .serverExec task => some (serverExec s task)
  | .top => match s.thread with
    | .top => some (loopTop s)
    | _ => none
  | .runTask => match s.thread with
    | .running task => some ({ s with thread := .working },[.executed task])
    | _ => none
  | .dequeue n => match s.thread with
    | .working =>
      if n ≤ s.interrupts then
        some ({ s with interrupts := s.interrupts - n, thread := .batch (decide (0 < n)) },[])
      else none
    | _ => none
  | .complete => match s.thread with
    | .batch interrupt => some ({ s with thread := if interrupt then .top else .working },[])
    | _ => none
  | .expire => match s.thread with
    | .working => some ({ s with thread := .top },[])
    | _ => none
  | .serverShutdown => some ({ s with running := false, interrupts := s.interrupts + 1 },[])

/-- What one action can do, guards included. -/
theorem execStep_cases {s t : ExecState} {a : ExecAction} {es : List ExecEvent}
    (h : execStep s a = some (t,es)) :
    (∃ task, s.running = true ∧ es = [.exec task s.task.isNone] ∧
      t = { s with task := some task, interrupts := s.interrupts + 1 }) ∨
    (∃ task, s.running = false ∧ es = [.dropped task] ∧ t = s) ∨
    (s.thread = .top ∧ s.running = true ∧ es = [.taken s.task] ∧
      t = { s with task := none, thread := afterTop s.task }) ∨
    (s.thread = .top ∧ s.running = false ∧ es = [] ∧ t = { s with thread := .stopped }) ∨
    (∃ task, s.thread = .running task ∧ es = [.executed task] ∧
      t = { s with thread := .working }) ∨
    (∃ n, s.thread = .working ∧ n ≤ s.interrupts ∧ es = [] ∧
      t = { s with interrupts := s.interrupts - n, thread := .batch (decide (0 < n)) }) ∨
    (∃ interrupt, s.thread = .batch interrupt ∧ es = [] ∧
      t = { s with thread := if interrupt then .top else .working }) ∨
    (s.thread = .working ∧ es = [] ∧ t = { s with thread := .top }) ∨
    (es = [] ∧ t = { s with running := false, interrupts := s.interrupts + 1 }) := by
  cases a with
  | serverExec task =>
    have he : serverExec s task = (t,es) := Option.some.inj h
    unfold serverExec at he
    split at he
    case isTrue hr =>
      obtain ⟨rfl,rfl⟩ := Prod.mk.inj he
      exact .inr (.inl ⟨task,hr,rfl,rfl⟩)
    case isFalse hr =>
      obtain ⟨rfl,rfl⟩ := Prod.mk.inj he
      exact .inl ⟨task,by simpa using hr,rfl,rfl⟩
  | top =>
    simp only [execStep] at h
    split at h
    case h_1 ht =>
      have he : loopTop s = (t,es) := Option.some.inj h
      unfold loopTop at he
      split at he
      case isTrue hr =>
        obtain ⟨rfl,rfl⟩ := Prod.mk.inj he
        exact .inr (.inr (.inr (.inl ⟨ht,hr,rfl,rfl⟩)))
      case isFalse hr =>
        obtain ⟨rfl,rfl⟩ := Prod.mk.inj he
        exact .inr (.inr (.inl ⟨ht,by simpa using hr,rfl,rfl⟩))
    case h_2 => cases h
  | runTask =>
    simp only [execStep] at h
    split at h
    case h_1 task ht =>
      cases h
      exact .inr (.inr (.inr (.inr (.inl ⟨task,ht,rfl,rfl⟩))))
    case h_2 => cases h
  | dequeue n =>
    simp only [execStep] at h
    split at h
    case h_1 ht =>
      rw [Option.ite_none_right_eq_some] at h
      obtain ⟨hn,h⟩ := h
      cases h
      exact .inr (.inr (.inr (.inr (.inr (.inl ⟨n,ht,hn,rfl,rfl⟩)))))
    case h_2 => cases h
  | complete =>
    simp only [execStep] at h
    split at h
    case h_1 interrupt ht =>
      cases h
      exact .inr (.inr (.inr (.inr (.inr (.inr (.inl ⟨interrupt,ht,rfl,rfl⟩))))))
    case h_2 => cases h
  | expire =>
    simp only [execStep] at h
    split at h
    case h_1 ht =>
      cases h
      exact .inr (.inr (.inr (.inr (.inr (.inr (.inr (.inl ⟨ht,rfl,rfl⟩)))))))
    case h_2 => cases h
  | serverShutdown =>
    cases h
    exact .inr (.inr (.inr (.inr (.inr (.inr (.inr (.inr ⟨rfl,rfl⟩)))))))

/-- The history of the slot. -/
def slotEvent : ExecEvent → Option (Mailbox.Event Task)
  | .exec task clear => some (.put task clear)
  | .taken _ => some .read
  | _ => none

/-- Between any two calls of `server_exec` the server thread passes the top of its loop. -/
def Paced (es : List ExecEvent) : Prop := Mailbox.Paced (es.filterMap slotEvent)

/-- The tasks given to `server_exec` while running, in the order of the calls. -/
def given : List ExecEvent → List Task := List.filterMap fun
  | .exec task _ => some task
  | _ => none

def executed : List ExecEvent → List Task := List.filterMap fun
  | .executed task => some task
  | _ => none

/-- The task the thread has taken and is about to call. -/
def Thread.taken : Thread → List Task
  | .running task => [task]
  | _ => []

/-- The thread is at the top of its loop or gets there after the batch at hand. -/
def Thread.returns : Thread → Prop
  | .top => True
  | .batch interrupt => interrupt = true
  | _ => False

/-- Nothing given to the server thread is lost: the slot is clear at every call, every
task given was called once, is being called or is in the slot, and a task in the slot
has the thread on its way to it. -/
structure Served (es : List ExecEvent) (s : ExecState) : Prop where
  clear : ∀ task clear, .exec task clear ∈ es → clear = true
  once : given es = executed es ++ (s.thread.taken ++ s.task.toList)
  signalled : s.running = true → s.task ≠ none → 0 < s.interrupts ∨ s.thread.returns

/-! ## The slot is a mailbox -/

/-- The history of the slot is noted, and ends with what is in the slot. -/
structure Tracks (es : List ExecEvent) (s : ExecState) : Prop where
  noted : Mailbox.Noted (es.filterMap slotEvent)
  slot : Mailbox.contents (es.filterMap slotEvent) = s.task

section Runs
variable {s t : ExecState} {a : ExecAction} {es fs : List ExecEvent}

theorem Tracks.put (h : Tracks es s) (task : Task) (t : ExecState) (ht : t.task = some task) :
    Tracks (es ++ [.exec task s.task.isNone]) t := by
  have he : (es ++ [ExecEvent.exec task s.task.isNone]).filterMap slotEvent =
      es.filterMap slotEvent ++ [.put task s.task.isNone] := by
    rw [List.filterMap_append]
    rfl
  constructor
  · rw [he]
    refine Mailbox.noted_concat h.noted ?_
    intro a clear hput
    cases hput
    rw [h.slot]
  · rw [he, Mailbox.contents_append, ht]
    rfl

theorem Tracks.read (h : Tracks es s) (o : Option Task) (t : ExecState) (ht : t.task = none) :
    Tracks (es ++ [.taken o]) t := by
  have he : (es ++ [ExecEvent.taken o]).filterMap slotEvent = es.filterMap slotEvent ++ [.read] := by
    rw [List.filterMap_append]
    rfl
  constructor
  · rw [he]
    refine Mailbox.noted_concat h.noted ?_
    intro a clear hput
    cases hput
  · rw [he, Mailbox.contents_append, ht]
    rfl

theorem Tracks.silent (h : Tracks es s) (hfs : fs.filterMap slotEvent = []) (ht : t.task = s.task) :
    Tracks (es ++ fs) t := by
  have he : (es ++ fs).filterMap slotEvent = es.filterMap slotEvent := by
    rw [List.filterMap_append, hfs, List.append_nil]
  exact ⟨he ▸ h.noted,by rw [he, h.slot, ht]⟩

theorem step_tracks (hi : Tracks es s) (h : execStep s a = some (t,fs)) : Tracks (es ++ fs) t := by
  obtain ⟨task,_,rfl,rfl⟩ | ⟨task,_,rfl,rfl⟩ | ⟨_,_,rfl,rfl⟩ | ⟨_,_,rfl,rfl⟩ | ⟨task,_,rfl,rfl⟩ |
    ⟨n,_,_,rfl,rfl⟩ | ⟨interrupt,_,rfl,rfl⟩ | ⟨_,rfl,rfl⟩ | ⟨rfl,rfl⟩ := execStep_cases h
  · exact hi.put task _ rfl
  · exact hi.silent rfl rfl
  · exact hi.read _ _ rfl
  · exact hi.silent rfl rfl
  · exact hi.silent rfl rfl
  · exact hi.silent rfl rfl
  · exact hi.silent rfl rfl
  · exact hi.silent rfl rfl
  · exact hi.silent rfl rfl

theorem run_tracks (hr : Run (Fires execStep) serverInit es t) : Tracks es t := by
  refine hr.traced (I := Tracks) ⟨Mailbox.noted_nil,rfl⟩ ?_
  intro es s fs t hi ⟨a,ha⟩
  exact step_tracks hi ha

/-! ## Nothing is lost -/

theorem given_append (es fs : List ExecEvent) : given (es ++ fs) = given es ++ given fs :=
  List.filterMap_append

theorem executed_append (es fs : List ExecEvent) : executed (es ++ fs) = executed es ++ executed fs :=
  List.filterMap_append

theorem taken_afterTop (o : Option Task) : (afterTop o).taken = o.toList := by
  cases o <;> rfl

/-- A step adds to what was given what it adds to what was called, is being called or is
in the slot, unless it puts a task over another one. -/
theorem step_once (h : execStep s a = some (t,fs))
    (hc : ∀ task clear, .exec task clear ∈ fs → clear = true) :
    s.thread.taken ++ s.task.toList ++ given fs =
      executed fs ++ (t.thread.taken ++ t.task.toList) := by
  obtain ⟨task,_,rfl,rfl⟩ | ⟨task,_,rfl,rfl⟩ | ⟨ht,_,rfl,rfl⟩ | ⟨ht,_,rfl,rfl⟩ |
    ⟨task,ht,rfl,rfl⟩ | ⟨n,ht,_,rfl,rfl⟩ | ⟨interrupt,ht,rfl,rfl⟩ | ⟨ht,rfl,rfl⟩ |
    ⟨rfl,rfl⟩ := execStep_cases h
  · have hnone : s.task = none := by
      have hn := hc task _ List.mem_cons_self
      simpa using hn
    rw [hnone, Option.toList_none, List.append_nil]
    rfl
  · exact List.append_nil _
  · rw [ht, taken_afterTop]
    exact (List.append_nil _).trans (List.append_nil _).symm
  · rw [ht]
    exact List.append_nil _
  · rw [ht]
    exact List.append_nil _
  · rw [ht]
    exact List.append_nil _
  · rw [ht]
    cases interrupt <;> exact List.append_nil _
  · rw [ht]
    exact List.append_nil _
  · exact List.append_nil _

theorem run_once (hr : Run (Fires execStep) serverInit es t) :
    (∀ task clear, .exec task clear ∈ es → clear = true) →
      given es = executed es ++ (t.thread.taken ++ t.task.toList) := by
  refine hr.traced (I := fun es t => (∀ task clear, .exec task clear ∈ es → clear = true) →
    given es = executed es ++ (t.thread.taken ++ t.task.toList)) (fun _ => rfl) ?_
  intro es s fs t hi ⟨a,ha⟩ hc
  have hes := hi (fun task clear hm => hc task clear (List.mem_append_left _ hm))
  have hfs := step_once ha (fun task clear hm => hc task clear (List.mem_append_right _ hm))
  rw [given_append, hes, List.append_assoc, hfs, executed_append, List.append_assoc]

/-- A task in the slot has an interrupt behind it, or the thread on its way. -/
theorem run_signalled (hr : Run (Fires execStep) serverInit es t) :
    t.running = true → t.task ≠ none → 0 < t.interrupts ∨ t.thread.returns := by
  refine hr.invariant (I := fun t => t.running = true → t.task ≠ none →
    0 < t.interrupts ∨ t.thread.returns) (fun _ h => absurd rfl h) ?_
  intro s fs t hi ⟨a,ha⟩
  obtain ⟨task,_,rfl,rfl⟩ | ⟨task,_,rfl,rfl⟩ | ⟨ht,_,rfl,rfl⟩ | ⟨_,hr,rfl,rfl⟩ |
    ⟨task,ht,rfl,rfl⟩ | ⟨n,ht,_,rfl,rfl⟩ | ⟨interrupt,ht,rfl,rfl⟩ | ⟨ht,rfl,rfl⟩ |
    ⟨rfl,rfl⟩ := execStep_cases ha
  · exact fun _ _ => .inl (Nat.succ_pos _)
  · exact hi
  · exact fun _ h => absurd rfl h
  · exact fun h => absurd (hr.symm.trans h) (by decide)
  · intro hr htask
    rcases hi hr htask with h | h
    · exact .inl h
    · rw [ht] at h
      exact absurd h id
  · intro hr htask
    by_cases hn : 0 < n
    · exact .inr (decide_eq_true hn)
    · rcases hi hr htask with h | h
      · exact .inl (by change 0 < s.interrupts - n; omega)
      · rw [ht] at h
        exact absurd h id
  · intro hr htask
    rcases hi hr htask with h | h
    · exact .inl h
    · rw [ht] at h
      have hint : interrupt = true := h
      rw [hint]
      exact .inr trivial
  · exact fun _ _ => .inr trivial
  · exact fun h => absurd h Bool.false_ne_true

theorem mem_slotEvents {task : Task} {clear : Bool} :
    .put task clear ∈ es.filterMap slotEvent ↔ .exec task clear ∈ es := by
  rw [List.mem_filterMap]
  constructor
  · intro ⟨e,he,hs⟩
    cases e <;> cases hs
    exact he
  · exact fun h => ⟨_,h,rfl⟩

/-- Along a run nothing is lost exactly if the calls are paced by the loop of the thread. -/
theorem serverExec_served_iff (hr : Run (Fires execStep) serverInit es t) :
    Served es t ↔ Paced es := by
  have hclear := Mailbox.clear_iff_paced (run_tracks hr).noted
  simp only [mem_slotEvents] at hclear
  constructor
  · exact fun h => hclear.mp h.clear
  · intro h
    have hc := hclear.mpr h
    exact ⟨hc,run_once hr hc,run_signalled hr⟩

/-- Two frames, the first of which is interrupted in time. -/
theorem serverExec_served_two :
    ∃ es t, given es = [⟨1,1⟩,⟨2,2⟩] ∧ executed es = [⟨1,1⟩] ∧ Served es t := by
  have hreplay : replay execStep serverInit [.top,.serverExec ⟨1,1⟩,.dequeue 1,.complete,.top,
      .runTask,.serverExec ⟨2,2⟩] = some (⟨true,some ⟨2,2⟩,1,.working⟩,[.taken none,
        .exec ⟨1,1⟩ true,.taken (some ⟨1,1⟩),.executed ⟨1,1⟩,.exec ⟨2,2⟩ true]) := rfl
  have hrun := replay_run hreplay
  have hpaced := Mailbox.clear_iff_paced (run_tracks hrun).noted
  simp only [mem_slotEvents] at hpaced
  refine ⟨_,_,rfl,rfl,(serverExec_served_iff hrun).mpr (hpaced.mp ?_)⟩
  intro task clear hm
  have hx : task = ⟨1,1⟩ ∧ clear = true ∨ task = ⟨2,2⟩ ∧ clear = true := by simpa using hm
  exact hx.elim And.right And.right

/-- A batch of completions outlasts a frame: the second task is put over the first. -/
theorem serverExec_not_served :
    ¬ ∀ (es : List ExecEvent) (t : ExecState), Run (Fires execStep) serverInit es t →
      Served es t := by
  intro h
  have hreplay : replay execStep serverInit [.top,.dequeue 0,.serverExec ⟨1,1⟩,
      .serverExec ⟨2,2⟩] = some (⟨true,some ⟨2,2⟩,2,.batch false⟩,
        [.taken none,.exec ⟨1,1⟩ true,.exec ⟨2,2⟩ false]) := rfl
  exact absurd ((h _ _ (replay_run hreplay)).clear ⟨2,2⟩ false (by decide)) (by decide)

end Runs

end Kaplar.Server
