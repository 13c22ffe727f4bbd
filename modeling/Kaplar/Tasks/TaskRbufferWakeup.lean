import Kaplar.Foundation.Execution
import Kaplar.Tasks.TaskRbuffer
import Mathlib.Tactic.Common

/-! # Who wakes the consumer of the ring

A push signals `rb_empty` only when it did not sleep. A producer that slept on a
full ring therefore stores without a signal, which is harmless as long as the
ring it returns to is not empty, or the consumer has not gone to sleep by then.
-/
namespace Kaplar.TaskRbuffer
open Execution

/-- The consumer is blocked, nobody has signalled it, and there is work. -/
def ConsumerStranded (s : State) : Prop :=
  s.rb.active = true ∧ () ∈ s.rb.rbEmpty.waiting ∧ s.rb.readpos ≠ s.rb.writepos

/-- A producer that returns from its wait to an empty ring does not find the
consumer blocked there. -/
def Announced (s : State) : Action → Prop
  | .wakeProducer _ => s.rb.active = true → taskRbufferFull s.rb = false →
      taskRbufferEmpty s.rb = true → () ∉ s.rb.rbEmpty.waiting
  | _ => True

instance (s : State) (a : Action) : Decidable (Announced s a) :=
  match a with
  | .wakeProducer _ => inferInstanceAs (Decidable (_ → _ → _ → ¬ _))
  | .push _ _ _ => isTrue trivial
  | .runOne _ => isTrue trivial
  | .wakeConsumer => isTrue trivial
  | .execute => isTrue trivial
  | .setInactive => isTrue trivial

/-- There is one consumer, and it stays blocked without a signal only on an empty ring. -/
structure ConsumerWatched (s : State) : Prop where
  single : s.rb.rbEmpty.sleepers.length ≤ 1
  empty : s.rb.active = true → () ∈ s.rb.rbEmpty.waiting → taskRbufferEmpty s.rb = true

theorem ConsumerWatched.not_stranded {s : State} (h : ConsumerWatched s) :
    ¬ ConsumerStranded s := fun ⟨ha,hw,hp⟩ => hp (taskRbufferEmpty_iff.mp (h.empty ha hw))

/-- A store needs the consumer to be awake or signalled. -/
theorem ConsumerWatched.store {rb : Rbuffer} {task : Task} {c : Consumer}
    (hs : rb.rbEmpty.sleepers.length ≤ 1) (hw : () ∉ rb.rbEmpty.waiting) :
    ConsumerWatched ⟨store rb task,c⟩ :=
  ⟨hs,fun _ h => absurd h hw⟩

theorem ConsumerWatched.push {s : State} (hi : ConsumerWatched s) {thread : ℕ} {task : Task}
    {wakes : Option Unit} {rb : Rbuffer} {es : List Event}
    (h : taskRbufferPush s.rb thread task wakes = some (rb,es)) :
    ConsumerWatched { s with rb := rb } := by
  obtain ⟨_,rfl,_⟩ | ⟨_,_,rfl,_⟩ | ⟨ha,hf,_,⟨he,cv,hcv,rfl⟩ | ⟨he,rfl⟩⟩ := push_cases h
  · exact hi
  · exact ⟨hi.single,hi.empty⟩
  · have hl := Condvar.signal_sleepers_length hcv
    have hw := Condvar.signal_waiting_of_single hcv hi.single
    exact .store (hl ▸ hi.single) (by simp [hw])
  · refine ConsumerWatched.store hi.single ?_
    intro hw
    simp [hi.empty ha hw] at he

theorem ConsumerWatched.wakeProducer {s : State} (hi : ConsumerWatched s) {k : Producer}
    (hc : Announced s (.wakeProducer k)) (cv : Condvar Producer) :
    ConsumerWatched { s with rb := (pushWoken { s.rb with rbFull := cv } k).1 } := by
  obtain ⟨_,_,he⟩ | ⟨_,he⟩ | ⟨hf,ha,he⟩ := pushWoken_cases { s.rb with rbFull := cv } k
  · rw [he]
    exact ⟨hi.single,hi.empty⟩
  · rw [he]
    exact ⟨hi.single,hi.empty⟩
  · rw [he]
    refine ConsumerWatched.store hi.single ?_
    intro hw
    exact hc ha hf (hi.empty ha hw) hw

/-- Only the consumer leaves the ring emptier, and it is awake while it pops. -/
theorem ConsumerWatched.pop {r : Rbuffer} (hs : r.rbEmpty.sleepers = []) :
    ConsumerWatched (pop r).1 := by
  have hw : r.rbEmpty.waiting = [] := (List.append_eq_nil_iff.mp hs).1
  constructor
  · simp [TaskRbuffer.pop,load,hs]
  · simp [TaskRbuffer.pop,load,hw]

/-- The consumer goes back to sleep only on an empty ring. -/
theorem ConsumerWatched.sleep {r : Rbuffer} (hs : r.rbEmpty.sleepers = [])
    (he : taskRbufferEmpty r = true) :
    ConsumerWatched ⟨{ r with rbEmpty := r.rbEmpty.wait () },.idle⟩ := by
  obtain ⟨hw,hk⟩ := List.append_eq_nil_iff.mp hs
  refine ⟨?_,fun _ _ => he⟩
  simp [Condvar.sleepers,Condvar.wait,hw,hk]

theorem ConsumerWatched.runOne {s t : State} {wakes : Option Producer} {es : List Event}
    (hs : s.rb.rbEmpty.sleepers = []) (h : taskRbufferRunOne s.rb wakes = some (t,es)) :
    ConsumerWatched t := by
  obtain ⟨_,rfl,_⟩ | ⟨_,he,rfl,_⟩ | ⟨_,_,cv,_,rfl,_⟩ := runOne_cases h
  · have hw : s.rb.rbEmpty.waiting = [] := (List.append_eq_nil_iff.mp hs).1
    exact ⟨by simp [hs],by simp [hw]⟩
  · exact .sleep hs he
  · exact .pop (r := { s.rb with rbFull := cv }) hs

theorem ConsumerWatched.wakeConsumer {s : State} (hi : ConsumerWatched s) {cv : Condvar Unit}
    (hcv : s.rb.rbEmpty.resume () = some cv) :
    ConsumerWatched (runOneWoken { s.rb with rbEmpty := cv }).1 := by
  have hl := Condvar.resume_sleepers_length hcv
  have hs : cv.sleepers = [] := List.length_eq_zero_iff.mp (by have := hi.single; omega)
  obtain ⟨he,_,hr⟩ | ⟨_,hr⟩ | ⟨_,_,hr⟩ := runOneWoken_cases { s.rb with rbEmpty := cv }
  · rw [hr]
    exact .sleep (r := { s.rb with rbEmpty := cv }) hs he
  · rw [hr]
    have hw : cv.waiting = [] := (List.append_eq_nil_iff.mp hs).1
    exact ⟨by simp [hs],by simp [hw]⟩
  · rw [hr]
    exact .pop (r := { s.rb with rbEmpty := cv }) hs

/-- Every announced action keeps the consumer watched. -/
theorem step_consumerWatched {s t : State} {a : Action} {es : List Event}
    (hi : ConsumerWatched s) (hc : Announced s a) (h : step s a = some (t,es)) :
    ConsumerWatched t := by
  obtain ⟨thread,task,wakes,rb,rfl,_,hp,rfl⟩ | ⟨k,cv,rfl,_,rfl,_⟩ | ⟨wakes,rfl,_,hs,hr⟩ |
    ⟨cv,rfl,hcv,he⟩ | ⟨task,rfl,_,rfl,_⟩ | ⟨rfl,rfl,_⟩ := step_cases h
  · exact hi.push hp
  · exact hi.wakeProducer hc cv
  · exact .runOne hs hr
  · have ht : t = (runOneWoken { s.rb with rbEmpty := cv }).1 := congrArg Prod.fst he
    exact ht ▸ hi.wakeConsumer hcv
  · exact ⟨hi.single,hi.empty⟩
  · refine ⟨?_,fun ha => by simp [taskRbufferSetInactive] at ha⟩
    have hs := hi.single
    simp only [Condvar.sleepers, List.length_append] at hs
    simp only [taskRbufferSetInactive, Condvar.sleepers, Condvar.broadcast, List.length_append,
      List.length_nil]
    omega

theorem initial_consumerWatched {maxTasks : UInt32} {buffer : UInt32 → Task} {s : State}
    (h : initial maxTasks buffer = some s) : ConsumerWatched s := by
  simp only [initial, taskRbufferCreate, Option.map_eq_some_iff, Option.ite_none_right_eq_some,
    Option.some.injEq] at h
  obtain ⟨rb,⟨_,rfl⟩,rfl⟩ := h
  exact ⟨Nat.zero_le _,by simp [fresh]⟩

/-- No run strands the consumer whose woken producers are all announced. -/
theorem consumer_never_stranded {maxTasks : UInt32} {buffer : UInt32 → Task} {s t : State}
    {es : List Event} (h : initial maxTasks buffer = some s)
    (hr : Run (FiresWhen Announced step) s es t) : ¬ ConsumerStranded t := by
  refine (hr.invariant (I := ConsumerWatched) (initial_consumerWatched h) ?_).not_stranded
  rintro s fs t hi ⟨a,hc,ha⟩
  exact step_consumerWatched hi hc ha

/-- A producer sleeps on a ring of two slots and is woken while a task is left. -/
theorem consumer_never_stranded_woken :
    ∃ t : State, t.rb.writepos = 3 ∧ ¬ ConsumerStranded t := by
  obtain ⟨t,ht,hw⟩ := replay_view (fun t : State => t.rb.writepos) 3
    [.pushed 0 ⟨1,1⟩,.pushed 1 ⟨2,2⟩,.popped ⟨1,1⟩,.executed ⟨1,1⟩,.pushed 2 ⟨3,3⟩]
    (show (replay (fun s a => if Announced s a then step s a else none)
      ⟨fresh 2 (fun _ => ⟨0,0⟩),.idle⟩ [.push 0 ⟨1,1⟩ none,.push 1 ⟨2,2⟩ none,
        .push 2 ⟨3,3⟩ none,.runOne (some ⟨2,⟨3,3⟩⟩),.execute,.wakeProducer ⟨2,⟨3,3⟩⟩]).map
          (fun p => (p.1.rb.writepos,p.2)) = some (3,_) by decide)
  have h : initial 2 (fun _ => ⟨0,0⟩) = some ⟨fresh 2 (fun _ => ⟨0,0⟩),.idle⟩ := rfl
  exact ⟨t,hw,consumer_never_stranded h (replay_runWhen ht)⟩

/-- On a ring of one slot the producer of the second task sleeps, the consumer
empties the ring and blocks, and the producer then stores without a signal. -/
def unannounced : List Action :=
  [.push 0 ⟨1,1⟩ none,.push 1 ⟨2,2⟩ none,.runOne (some ⟨1,⟨2,2⟩⟩),.execute,.runOne none,
    .wakeProducer ⟨1,⟨2,2⟩⟩]

theorem consumer_stranded : ¬ ∀ (maxTasks : UInt32) (buffer : UInt32 → Task) (s t : State)
    (es : List Event), initial maxTasks buffer = some s → Run (Fires step) s es t →
    ¬ ConsumerStranded t := by
  intro h
  obtain ⟨t,ht,hv⟩ := replay_view
    (fun t : State => (t.rb.active,t.rb.rbEmpty,t.rb.readpos,t.rb.writepos))
    (true,⟨[()],[]⟩,1,2)
    [.pushed 0 ⟨1,1⟩,.popped ⟨1,1⟩,.executed ⟨1,1⟩,.pushed 1 ⟨2,2⟩]
    (show (replay step ⟨fresh 1 (fun _ => ⟨0,0⟩),.idle⟩ unannounced).map
      (fun p => ((p.1.rb.active,p.1.rb.rbEmpty,p.1.rb.readpos,p.1.rb.writepos),p.2)) =
        some ((true,⟨[()],[]⟩,1,2),_) by decide)
  simp only [Prod.mk.injEq] at hv
  obtain ⟨ha,he,hp,hq⟩ := hv
  have hs : initial 1 (fun _ => ⟨0,0⟩) = some ⟨fresh 1 (fun _ => ⟨0,0⟩),.idle⟩ := rfl
  refine h 1 _ _ t _ hs (replay_run ht) ⟨ha,by rw [he]; decide,?_⟩
  rw [hp, hq]
  decide

end Kaplar.TaskRbuffer
