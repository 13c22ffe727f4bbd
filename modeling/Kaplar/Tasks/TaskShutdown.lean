import Kaplar.Foundation.Execution
import Kaplar.Tasks.TaskDbuffer
import Kaplar.Tasks.TaskRbuffer

/-! # Shutting the task queues down

Every wait loop tests the active flag before it blocks, and the flag is cleared in the
critical section that wakes everybody. From then on nobody is blocked, and whoever is
still on the way out of a wait, or comes later, leaves with `false`.
-/
namespace Kaplar
open Execution

namespace TaskRbuffer

/-- The end of a push or of a `run_one` that will return `true`. -/
def Event.accepts : Event → Bool
  | .pushed _ _ => true
  | .popped _ => true
  | _ => false

/-- Nobody is blocked in the ring, and everybody in it is about to return `false`. -/
structure ShutDown (s : State) : Prop where
  producers_awake : s.rb.rbFull.waiting = []
  consumer_awake : s.rb.rbEmpty.waiting = []
  producers_leave : ∀ k ∈ s.rb.rbFull.sleepers,
    ∃ t, step s (.wakeProducer k) = some (t,[.refused k.thread k.task])
  consumer_leaves : () ∈ s.rb.rbEmpty.sleepers → ∃ t, step s .wakeConsumer = some (t,[.stopped])

/-- The ring is closed and its waiting lists are empty. -/
structure Closed (s : State) : Prop where
  inactive : s.rb.active = false
  producers : s.rb.rbFull.waiting = []
  consumer : s.rb.rbEmpty.waiting = []

section Closing
variable {s t : State} {a : Action} {es : List Event}

theorem closed_setInactive (s : State) : Closed { s with rb := taskRbufferSetInactive s.rb } :=
  ⟨rfl,rfl,rfl⟩

theorem pushWoken_closed (rb : Rbuffer) (h : rb.active = false) (k : Producer) :
    pushWoken rb k = (rb,[.refused k.thread k.task]) := by simp [pushWoken,h]

theorem runOneWoken_closed (rb : Rbuffer) (h : rb.active = false) :
    runOneWoken rb = (⟨rb,.idle⟩,[.stopped]) := by simp [runOneWoken,h]

/-- No action reopens the ring, blocks, or returns `true`. -/
theorem Closed.fires (hc : Closed s) (h : step s a = some (t,es)) :
    Closed t ∧ ∀ e ∈ es, e.accepts = false := by
  obtain ⟨hi,hp,hw⟩ := hc
  obtain ⟨thread,task,wakes,rb,rfl,_,hpush,rfl⟩ | ⟨k,cv,rfl,hcv,rfl,rfl⟩ | ⟨wakes,rfl,_,_,hrun⟩ |
    ⟨cv,rfl,hcv,he⟩ | ⟨task,rfl,_,rfl,rfl⟩ | ⟨rfl,rfl,rfl⟩ := step_cases h
  · rw [taskRbufferPush, if_pos hi] at hpush
    cases hpush
    exact ⟨⟨hi,hp,hw⟩,by simp [Event.accepts]⟩
  · rw [pushWoken_closed { s.rb with rbFull := cv } hi]
    exact ⟨⟨hi,Condvar.resume_waiting_nil hcv hp,hw⟩,by simp [Event.accepts]⟩
  · rw [taskRbufferRunOne, if_pos hi] at hrun
    cases hrun
    exact ⟨⟨hi,hp,hw⟩,by simp [Event.accepts]⟩
  · rw [runOneWoken_closed { s.rb with rbEmpty := cv } hi] at he
    cases he
    exact ⟨⟨hi,hp,Condvar.resume_waiting_nil hcv hw⟩,by simp [Event.accepts]⟩
  · exact ⟨⟨hi,hp,hw⟩,by simp [Event.accepts]⟩
  · exact ⟨closed_setInactive s,by simp⟩

theorem Closed.shutDown (hc : Closed s) : ShutDown s where
  producers_awake := hc.producers
  consumer_awake := hc.consumer
  producers_leave k hk := by
    obtain ⟨cv,hcv⟩ := Condvar.exists_resume hk
    simp [step,hcv,pushWoken_closed,hc.inactive]
  consumer_leaves hk := by
    obtain ⟨cv,hcv⟩ := Condvar.exists_resume hk
    simp [step,hcv,runOneWoken_closed,hc.inactive]

theorem Closed.run (hc : Closed s) (hr : Run (Fires step) s es t) :
    Closed t ∧ ∀ e ∈ es, e.accepts = false := by
  refine hr.emits hc ?_
  rintro s fs t hc ⟨a,ha⟩
  exact hc.fires ha

end Closing
end TaskRbuffer

namespace TaskDbuffer

/-- The end of an add that returns `true`. -/
def Event.accepts : Event → Bool
  | .added _ _ => true
  | _ => false

/-- Nobody is blocked in the queue, and everybody in it is about to return `false`. -/
structure ShutDown (s : State) : Prop where
  adders_awake : s.db.bufferFull.waiting = []
  adders_leave : ∀ k ∈ s.db.bufferFull.sleepers,
    ∃ t, step s (.wake k) = some (t,[.refused k.thread k.task])

structure Closed (s : State) : Prop where
  inactive : s.db.active = false
  adders : s.db.bufferFull.waiting = []

section Closing
variable {s t : State} {a : Action} {es : List Event}

theorem closed_setInactive (s : State) : Closed { s with db := taskDbufferSetInactive s.db } :=
  ⟨rfl,rfl⟩

theorem addLoop_closed (db : Dbuffer) (h : db.active = false) (k : Sleeper) :
    addLoop db k = (db,[.refused k.thread k.task]) := by simp [addLoop,h]

theorem Closed.fires (hc : Closed s) (h : step s a = some (t,es)) :
    Closed t ∧ ∀ e ∈ es, e.accepts = false := by
  obtain ⟨hi,hw⟩ := hc
  obtain ⟨thread,task,rfl,_,rfl,rfl⟩ | ⟨k,cv,rfl,hcv,rfl,rfl⟩ | ⟨rfl,_,rfl,rfl⟩ |
    ⟨rfl,_,rfl,rfl⟩ | ⟨rfl,rfl,rfl⟩ := step_cases h
  · rw [addLoop_closed s.db hi]
    exact ⟨⟨hi,hw⟩,by simp [Event.accepts]⟩
  · rw [addLoop_closed { s.db with bufferFull := cv } hi]
    exact ⟨⟨hi,Condvar.resume_waiting_nil hcv hw⟩,by simp [Event.accepts]⟩
  · refine ⟨⟨hi,?_⟩,by simp [Event.accepts]⟩
    simp only [taskDbufferSwap]
    split
    case isTrue => rfl
    case isFalse => exact hw
  · exact ⟨⟨hi,hw⟩,by simp [Event.accepts]⟩
  · exact ⟨closed_setInactive s,by simp⟩

theorem Closed.shutDown (hc : Closed s) : ShutDown s where
  adders_awake := hc.adders
  adders_leave k hk := by
    obtain ⟨cv,hcv⟩ := Condvar.exists_resume hk
    simp [step,hcv,addLoop_closed,hc.inactive]

theorem Closed.run (hc : Closed s) (hr : Run (Fires step) s es t) :
    Closed t ∧ ∀ e ∈ es, e.accepts = false := by
  refine hr.emits hc ?_
  rintro s fs t hc ⟨a,ha⟩
  exact hc.fires ha

end Closing
end TaskDbuffer

/-- Whatever happened before `set_inactive` and whatever happens after it, nobody is left
blocked and nothing is accepted any more. -/
theorem setInactive_strands_nobody :
    (∀ (maxTasks : UInt32) (buffer : UInt32 → Task) (s₀ s s' t : TaskRbuffer.State)
      (es fs gs : List TaskRbuffer.Event), TaskRbuffer.initial maxTasks buffer = some s₀ →
      Run (Fires TaskRbuffer.step) s₀ es s → TaskRbuffer.step s .setInactive = some (s',fs) →
      Run (Fires TaskRbuffer.step) s' gs t →
      TaskRbuffer.ShutDown t ∧ ∀ e ∈ gs, e.accepts = false) ∧
    (∀ (maxTasks : ℕ) (slots : ℕ → Task) (s s' t : TaskDbuffer.State)
      (es fs gs : List TaskDbuffer.Event),
      Run (Fires TaskDbuffer.step) (TaskDbuffer.initial maxTasks slots) es s →
      TaskDbuffer.step s .setInactive = some (s',fs) → Run (Fires TaskDbuffer.step) s' gs t →
      TaskDbuffer.ShutDown t ∧ ∀ e ∈ gs, e.accepts = false) := by
  constructor
  · rintro _ _ _ s s' t es fs gs _ _ hs hr
    cases hs
    obtain ⟨hc,he⟩ := (TaskRbuffer.closed_setInactive s).run hr
    exact ⟨hc.shutDown,he⟩
  · rintro _ _ s s' t es fs gs _ hs hr
    cases hs
    obtain ⟨hc,he⟩ := (TaskDbuffer.closed_setInactive s).run hr
    exact ⟨hc.shutDown,he⟩

/-- A producer asleep on a full ring and an adder asleep on a full half are refused. -/
theorem setInactive_strands_nobody_asleep :
    (∃ t : TaskRbuffer.State, t.rb.rbFull.sleepers = [] ∧ TaskRbuffer.ShutDown t) ∧
    ∃ t : TaskDbuffer.State, t.db.bufferFull.sleepers = [] ∧ TaskDbuffer.ShutDown t := by
  constructor
  · have hs := replay_run (show replay TaskRbuffer.step
      ⟨TaskRbuffer.fresh 1 (fun _ => ⟨0,0⟩),.idle⟩
      [.push 0 ⟨1,1⟩ none,.push 1 ⟨2,2⟩ none] = some (_,_) from rfl)
    obtain ⟨hsd,_⟩ := setInactive_strands_nobody.1 1 _ _ _ _ _ _ _ _ rfl hs rfl
      (replay_run (show replay _ _ [.wakeProducer ⟨1,⟨2,2⟩⟩] = some (_,_) from rfl))
    exact ⟨_,rfl,hsd⟩
  · have hs := replay_run (show replay TaskDbuffer.step (TaskDbuffer.initial 1 (fun _ => ⟨0,0⟩))
      [.add 0 ⟨1,1⟩,.add 1 ⟨2,2⟩] = some (_,_) from rfl)
    obtain ⟨hsd,_⟩ := setInactive_strands_nobody.2 1 _ _ _ _ _ _ _ hs rfl
      (replay_run (show replay _ _ [.wake ⟨1,0,⟨2,2⟩⟩] = some (_,_) from rfl))
    exact ⟨_,rfl,hsd⟩

end Kaplar
