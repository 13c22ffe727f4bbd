import Kaplar.Tasks.TaskRbufferQueue

/-! # Who wakes the producers of the ring

A `run_one` signals `rb_full` once, and only where it finds the ring full without
having slept. A producer that returns from its wait passes the signal on to nobody,
so a second blocked producer depends on the ring being full again.
-/
namespace Kaplar.TaskRbuffer
open Execution

/-- A producer is blocked, no producer is signalled, and there is room. -/
def ProducerStranded (s : State) : Prop :=
  s.rb.active = true ∧ s.rb.rbFull.waiting ≠ [] ∧ s.rb.rbFull.woken = [] ∧
    taskRbufferFull s.rb = false

/-- A producer that returns from its wait and leaves others blocked, none of them
signalled, takes the last free slot; a consumer that returns from its wait to a full
ring leaves no producer blocked without another one signalled. -/
def Relayed (s : State) : Action → Prop
  | .wakeProducer k => s.rb.active = true → taskRbufferFull s.rb = false →
      ∀ cv ∈ s.rb.rbFull.resume k, cv.waiting ≠ [] → cv.woken = [] →
        s.rb.writepos - s.rb.readpos = s.rb.indexMask
  | .wakeConsumer => s.rb.active = true → taskRbufferFull s.rb = true →
      s.rb.rbFull.waiting ≠ [] → s.rb.rbFull.woken ≠ []
  | _ => True

instance (s : State) (a : Action) : Decidable (Relayed s a) :=
  match a with
  | .wakeProducer _ => inferInstanceAs (Decidable (_ → _ → _))
  | .push _ _ _ => isTrue trivial
  | .runOne _ => isTrue trivial
  | .wakeConsumer => inferInstanceAs (Decidable (_ → _ → _ → ¬ _))
  | .execute => isTrue trivial
  | .setInactive => isTrue trivial

section Steps
variable {k : ℕ} {rb : Rbuffer}

theorem not_stranded_of_full {c : Consumer} (h : taskRbufferFull rb = true) :
    ¬ ProducerStranded ⟨rb,c⟩ :=
  fun ⟨_,_,_,hf⟩ => absurd (h.symm.trans hf) (by decide)

theorem not_stranded_of_inactive {c : Consumer} (h : rb.active = false) :
    ¬ ProducerStranded ⟨rb,c⟩ :=
  fun ⟨ha,_⟩ => absurd (h.symm.trans ha) (by decide)

/-- A store fills the ring exactly if it takes the last free slot. -/
theorem Ring.full_store_iff (h : Ring k rb) (hf : taskRbufferFull rb = false) (task : Task) :
    taskRbufferFull (TaskRbuffer.store rb task) = true ↔
      rb.writepos - rb.readpos = rb.indexMask := by
  obtain ⟨hr,_⟩ := h.store hf task
  obtain ⟨hl,hc⟩ := h.count_store hf task
  have hm := h.mask
  rw [hr.full_iff, hc, ← UInt32.toNat_inj, hm]
  omega

/-- A ring with something stored is not full once a task is taken. -/
theorem Ring.not_full_load (h : Ring k rb) (he : taskRbufferEmpty rb = false) :
    taskRbufferFull (TaskRbuffer.load rb).1 = false := by
  obtain ⟨hr,hs⟩ := h.load he
  have hl := congrArg List.length hs
  rw [List.length_cons, length_stored, length_stored] at hl
  have hlap := h.lap
  by_contra hf
  have hc := hr.full_iff.mp (by simpa using hf)
  omega

/-- After a pop the blocked producers must have been signalled or be none. -/
theorem stranded_pop_iff (h : Ring k rb) (ha : rb.active = true)
    (he : taskRbufferEmpty rb = false) :
    ProducerStranded (pop rb).1 ↔ rb.rbFull.waiting ≠ [] ∧ rb.rbFull.woken = [] := by
  constructor
  · intro ⟨_,hw,hk,_⟩
    exact ⟨hw,hk⟩
  · intro ⟨hw,hk⟩
    exact ⟨ha,hw,hk,h.not_full_load he⟩

end Steps

section Invariant
variable {k : ℕ} {s t : State} {a : Action} {es : List Event}

theorem push_not_stranded (hi : ¬ ProducerStranded s) {thread : ℕ} {task : Task}
    {wakes : Option Unit} {rb : Rbuffer}
    (h : taskRbufferPush s.rb thread task wakes = some (rb,es)) :
    ¬ ProducerStranded { s with rb := rb } := by
  obtain ⟨ha,rfl,_⟩ | ⟨_,hf,rfl,_⟩ | ⟨ha,hf,_,⟨_,cv,_,rfl⟩ | ⟨_,rfl⟩⟩ := push_cases h
  · exact hi
  · exact not_stranded_of_full hf
  · intro ⟨_,hw,hk,_⟩
    exact hi ⟨ha,hw,hk,hf⟩
  · intro ⟨_,hw,hk,_⟩
    exact hi ⟨ha,hw,hk,hf⟩

theorem runOne_not_stranded (hr : Ring k s.rb) (hi : ¬ ProducerStranded s)
    {wakes : Option Producer} (h : taskRbufferRunOne s.rb wakes = some (t,es)) :
    ¬ ProducerStranded t := by
  obtain ⟨ha,rfl,_⟩ | ⟨ha,he,rfl,_⟩ | ⟨ha,he,cv,hcv,rfl,_⟩ := runOne_cases h
  · exact not_stranded_of_inactive ha
  · intro ⟨_,hw,hk,hf⟩
    exact hi ⟨ha,hw,hk,hf⟩
  · have hr' : Ring k { s.rb with rbFull := cv } := ⟨hr.small,hr.mask,hr.lap⟩
    rw [stranded_pop_iff hr' ha he]
    intro ⟨hw,hk⟩
    rcases hcv with ⟨_,hcv⟩ | ⟨hf,rfl⟩
    · -- the signal of a full ring leaves a producer signalled, if one was blocked
      obtain ⟨hn,rfl⟩ | ⟨p,_,rfl⟩ := Condvar.signal_cases hcv
      · exact hw hn
      · exact absurd hk (List.append_ne_nil_of_right_ne_nil _ (List.cons_ne_nil _ _))
    · exact hi ⟨ha,hw,hk,hf⟩

/-- One action strands a producer exactly where it does not relay. -/
theorem step_stranded_iff (hr : Ring k s.rb) (hi : ¬ ProducerStranded s)
    (h : step s a = some (t,es)) : ¬ ProducerStranded t ↔ Relayed s a := by
  obtain ⟨thread,task,wakes,rb,rfl,_,hp,rfl⟩ | ⟨p,cv,rfl,hcv,rfl,_⟩ | ⟨wakes,rfl,_,_,ho⟩ |
    ⟨cv,rfl,_,he⟩ | ⟨task,rfl,_,rfl,_⟩ | ⟨rfl,rfl,_⟩ := step_cases h
  · exact iff_of_true (push_not_stranded hi hp) trivial
  · have hr' : Ring k { s.rb with rbFull := cv } := ⟨hr.small,hr.mask,hr.lap⟩
    obtain ⟨hf,_,hq⟩ | ⟨ha,hq⟩ | ⟨hf,ha,hq⟩ := pushWoken_cases { s.rb with rbFull := cv } p
    · rw [hq]
      refine iff_of_true (not_stranded_of_full hf) ?_
      intro _ hn
      exact absurd (hn.symm.trans hf) (by decide)
    · rw [hq]
      refine iff_of_true (not_stranded_of_inactive ha) ?_
      intro hn
      exact absurd (hn.symm.trans ha) (by decide)
    · rw [hq]
      have hs := hr'.full_store_iff hf p.task
      constructor
      · intro hn _ _ cv' hcv' hw hk
        have he : cv' = cv := Option.some.inj (hcv'.symm.trans hcv)
        rw [he] at hw hk
        by_contra hd
        have hl : ¬ taskRbufferFull (store { s.rb with rbFull := cv } p.task) = true :=
          fun hl => hd (hs.mp hl)
        exact hn ⟨ha,hw,hk,by simpa using hl⟩
      · intro hc ⟨_,hw,hk,hn⟩
        have hl := hs.mpr (hc ha hf cv hcv hw hk)
        exact absurd (hl.symm.trans hn) (by decide)
  · exact iff_of_true (runOne_not_stranded hr hi ho) trivial
  · have hr' : Ring k { s.rb with rbEmpty := cv } := ⟨hr.small,hr.mask,hr.lap⟩
    obtain ⟨he',_,hq⟩ | ⟨ha,hq⟩ | ⟨he',ha,hq⟩ := runOneWoken_cases { s.rb with rbEmpty := cv }
    · obtain ⟨rfl,rfl⟩ := Prod.mk.inj (he.trans hq)
      have hf : taskRbufferFull s.rb = false := not_full_of_empty he'
      refine iff_of_true hi ?_
      intro _ hn
      exact absurd (hn.symm.trans hf) (by decide)
    · obtain ⟨rfl,rfl⟩ := Prod.mk.inj (he.trans hq)
      refine iff_of_true (not_stranded_of_inactive ha) ?_
      intro hn
      exact absurd (hn.symm.trans ha) (by decide)
    · have ht : t = (pop { s.rb with rbEmpty := cv }).1 := congrArg Prod.fst (he.trans hq)
      rw [ht, stranded_pop_iff hr' ha he']
      constructor
      · intro hn _ _ hw hk
        exact hn ⟨hw,hk⟩
      · intro hc ⟨hw,hk⟩
        by_cases hf : taskRbufferFull s.rb = true
        · exact hc ha hf hw hk
        · exact hi ⟨ha,hw,hk,by simpa using hf⟩
  · exact iff_of_true hi trivial
  · exact iff_of_true (not_stranded_of_inactive rfl) trivial

/-- No run strands a producer whose returns from a wait all relay. -/
theorem producer_never_stranded {maxTasks : UInt32} {buffer : UInt32 → Task}
    (h : initial maxTasks buffer = some s) (hr : Run (FiresWhen Relayed step) s es t) :
    ¬ ProducerStranded t := by
  simp only [initial, taskRbufferCreate, Option.map_eq_some_iff, Option.ite_none_right_eq_some,
    Option.some.injEq] at h
  obtain ⟨rb,⟨hp,rfl⟩,rfl⟩ := h
  obtain ⟨k,hk⟩ := isPowerOfTwo_iff.mp hp
  refine (hr.invariant (I := fun s => Ring k s.rb ∧ ¬ ProducerStranded s)
    ⟨fresh_ring buffer hk,fun hs => hs.2.1 rfl⟩ ?_).2
  rintro s fs t ⟨hi,hn⟩ ⟨a,hc,ha⟩
  exact ⟨(step_refines hi ha).1,(step_stranded_iff hi hn ha).mpr hc⟩

/-- A ring of one slot, where the second of two blocked producers waits its turn. -/
theorem producer_never_stranded_turns :
    ∃ t : State, t.rb.rbFull.waiting = [⟨2,⟨3,3⟩⟩] ∧ ¬ ProducerStranded t := by
  obtain ⟨t,ht,hw⟩ := replay_view (fun t : State => t.rb.rbFull.waiting) [⟨2,⟨3,3⟩⟩]
    [.pushed 0 ⟨1,1⟩,.popped ⟨1,1⟩,.executed ⟨1,1⟩,.pushed 1 ⟨2,2⟩]
    (show (replay (fun s a => if Relayed s a then step s a else none)
      ⟨fresh 1 (fun _ => ⟨0,0⟩),.idle⟩ [.push 0 ⟨1,1⟩ none,.push 1 ⟨2,2⟩ none,
        .push 2 ⟨3,3⟩ none,.runOne (some ⟨1,⟨2,2⟩⟩),.execute,.wakeProducer ⟨1,⟨2,2⟩⟩]).map
          (fun p => (p.1.rb.rbFull.waiting,p.2)) = some ([⟨2,⟨3,3⟩⟩],_) by decide)
  have h : initial 1 (fun _ => ⟨0,0⟩) = some ⟨fresh 1 (fun _ => ⟨0,0⟩),.idle⟩ := rfl
  exact ⟨t,hw,producer_never_stranded h (replay_runWhen ht)⟩

/-- Two producers sleep on a ring of two slots. The first pop signals one of them, the
second pop finds the ring no longer full, and the signalled one signals nobody. -/
def unrelayed : List Action :=
  [.push 0 ⟨1,1⟩ none,.push 1 ⟨2,2⟩ none,.push 2 ⟨3,3⟩ none,.push 3 ⟨4,4⟩ none,
    .runOne (some ⟨2,⟨3,3⟩⟩),.execute,.runOne none,.execute,.wakeProducer ⟨2,⟨3,3⟩⟩]

theorem producer_stranded : ¬ ∀ (maxTasks : UInt32) (buffer : UInt32 → Task) (s t : State)
    (es : List Event), initial maxTasks buffer = some s → Run (Fires step) s es t →
    ¬ ProducerStranded t := by
  intro h
  obtain ⟨t,ht,hv⟩ := replay_view
    (fun t : State => (t.rb.active,t.rb.rbFull,taskRbufferFull t.rb))
    (true,⟨[⟨3,⟨4,4⟩⟩],[]⟩,false)
    [.pushed 0 ⟨1,1⟩,.pushed 1 ⟨2,2⟩,.popped ⟨1,1⟩,.executed ⟨1,1⟩,.popped ⟨2,2⟩,
      .executed ⟨2,2⟩,.pushed 2 ⟨3,3⟩]
    (show (replay step ⟨fresh 2 (fun _ => ⟨0,0⟩),.idle⟩ unrelayed).map
      (fun p => ((p.1.rb.active,p.1.rb.rbFull,taskRbufferFull p.1.rb),p.2)) =
        some ((true,⟨[⟨3,⟨4,4⟩⟩],[]⟩,false),_) by decide)
  simp only [Prod.mk.injEq] at hv
  obtain ⟨ha,hw,hf⟩ := hv
  have hs : initial 2 (fun _ => ⟨0,0⟩) = some ⟨fresh 2 (fun _ => ⟨0,0⟩),.idle⟩ := rfl
  exact h 2 _ _ t _ hs (replay_run ht)
    ⟨ha,by rw [hw]; exact List.cons_ne_nil _ _,by rw [hw],hf⟩

end Invariant

end Kaplar.TaskRbuffer
