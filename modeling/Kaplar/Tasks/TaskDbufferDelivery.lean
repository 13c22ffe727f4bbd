import Kaplar.Foundation.Batch
import Kaplar.Foundation.Execution
import Kaplar.Tasks.TaskDbuffer

/-! # What the double buffer delivers

The queue is read as a ledger: the write half is what the next swap owes and the
unfinished part of the run loop is the batch. An adder that was put to sleep
keeps the index of the half it found full. When it finds room there although the
write half is the other one by now, the next swap clears the counter over its
task; every other action keeps the ledger.
-/
namespace Kaplar.TaskDbuffer
open Execution Batch

def batchEvent : Event → Option (Batch.Event Task)
  | .added _ task => some (.put task)
  | .refused _ _ => none
  | .swapped => some .swap
  | .executed task => some (.take task)

/-- The history of a queue as puts, swaps and takes. -/
def batchEvents (es : List Event) : List (Batch.Event Task) := es.filterMap batchEvent

@[simp] theorem batchEvents_append (es fs : List Event) :
    batchEvents (es ++ fs) = batchEvents es ++ batchEvents fs := List.filterMap_append

/-- The ledger a state stands for, and where its two parts lie in the allocation. -/
structure Owes (s : State) (l : Ledger Task) : Prop where
  pending : l.pending =
    slotsFrom s.db.slots (buffer s.db.maxTasks s.db.writeIdx) (s.db.count s.db.writeIdx)
  batch : l.batch = slotsFrom s.db.slots s.runner.task s.runner.count
  fits : ∀ idx, s.db.count idx ≤ s.db.maxTasks
  running : s.runner.count = 0 ∨ (buffer s.db.maxTasks (1 - s.db.writeIdx) ≤ s.runner.task ∧
    s.runner.task + s.runner.count ≤ buffer s.db.maxTasks (1 - s.db.writeIdx) + s.db.maxTasks)

/-- A woken adder that finds room has found it in the current write half. -/
def InTurn (s : State) : Action → Prop
  | .wake k => s.db.active = true → s.db.count k.idx < s.db.maxTasks → k.idx = s.db.writeIdx
  | _ => True

instance (s : State) (a : Action) : Decidable (InTurn s a) :=
  match a with
  | .wake _ => inferInstanceAs (Decidable (_ → _ → _))
  | .add _ _ => isTrue trivial
  | .swap => isTrue trivial
  | .execute => isTrue trivial
  | .setInactive => isTrue trivial

/-- A slot of the write half is never part of the batch being run. -/
theorem Owes.outside {s : State} {l : Ledger Task} (ho : Owes s l) {n : ℕ}
    (hn : n < s.db.maxTasks) : s.runner.count = 0 ∨
      (buffer s.db.maxTasks s.db.writeIdx + n < s.runner.task ∨
        s.runner.task + s.runner.count ≤ buffer s.db.maxTasks s.db.writeIdx + n) := by
  rcases ho.running with h | ⟨hl,hr⟩
  · exact .inl h
  · right
    have hd := buffer_disjoint s.db.maxTasks s.db.writeIdx
    omega

/-- A pass of the wait loop over the write half keeps the ledger, up to the put it reports. -/
theorem addLoop_owes {s : State} {l : Ledger Task} (ho : Owes s l) (cv : Condvar Sleeper)
    {k : Sleeper} (hk : s.db.active = true → s.db.count k.idx < s.db.maxTasks →
      k.idx = s.db.writeIdx) :
    ∃ m, l.run (batchEvents (addLoop { s.db with bufferFull := cv } k).2) = some m ∧
      Owes { s with db := (addLoop { s.db with bufferFull := cv } k).1 } m := by
  obtain ⟨_,_,he⟩ | ⟨_,he⟩ | ⟨hc,ha,he⟩ := addLoop_cases { s.db with bufferFull := cv } k
  · rw [he]
    exact ⟨l,rfl,ho.pending,ho.batch,ho.fits,ho.running⟩
  · rw [he]
    exact ⟨l,rfl,ho.pending,ho.batch,ho.fits,ho.running⟩
  · have hidx := hk ha hc
    rw [he]
    refine ⟨{ l with pending := l.pending ++ [k.task] },rfl,?_,?_,?_,ho.running⟩
    · simp only [hidx, Function.update_self, ho.pending]
      exact (slotsFrom_push _ _ _ _).symm
    · rw [ho.batch]
      rcases ho.outside (hidx ▸ hc) with h | h
      · simp [h]
      · exact (slotsFrom_update (by rwa [hidx])).symm
    · intro idx
      have hf := ho.fits idx
      simp only [Function.update_apply] at hc ⊢
      split
      case isTrue => omega
      case isFalse => exact hf

/-- One action in turn posts its events on the ledger. -/
theorem step_owes {s t : State} {a : Action} {es : List Event} {l : Ledger Task}
    (ho : Owes s l) (hc : InTurn s a) (h : step s a = some (t,es)) :
    ∃ m, l.run (batchEvents es) = some m ∧ Owes t m := by
  obtain ⟨thread,task,rfl,_,rfl,rfl⟩ | ⟨k,cv,rfl,_,rfl,rfl⟩ | ⟨rfl,h0,rfl,rfl⟩ |
    ⟨rfl,hp,rfl,rfl⟩ | ⟨rfl,rfl,rfl⟩ := step_cases h
  · exact addLoop_owes ho s.db.bufferFull (fun _ _ => rfl)
  · exact addLoop_owes ho cv hc
  · have hb : l.batch = [] := by rw [ho.batch, h0, slotsFrom_zero]
    refine ⟨⟨[],l.pending⟩,by simp [batchEvents,batchEvent,Ledger.run,Ledger.post,hb],?_,?_,?_,?_⟩
    · simp [taskDbufferSwap]
    · exact ho.pending
    · intro idx
      have hf := ho.fits idx
      simp only [taskDbufferSwap, Function.update_apply]
      split <;> omega
    · right
      have hf := ho.fits s.db.writeIdx
      simp only [taskDbufferSwap, other_half]
      omega
  · have hb : l.batch = s.db.slots s.runner.task ::
        slotsFrom s.db.slots (s.runner.task + 1) (s.runner.count - 1) := by
      rw [ho.batch, ← slotsFrom_succ_left, Nat.sub_add_cancel hp]
    refine ⟨{ l with batch := slotsFrom s.db.slots (s.runner.task + 1) (s.runner.count - 1) },
      by simp [batchEvents,batchEvent,Ledger.run,Ledger.post,hb],ho.pending,rfl,ho.fits,?_⟩
    rcases ho.running with h0 | ⟨hl,hr⟩
    · omega
    · exact .inr ⟨by dsimp only; omega,by dsimp only; omega⟩
  · exact ⟨l,rfl,ho.pending,ho.batch,ho.fits,ho.running⟩

theorem initial_owes (maxTasks : ℕ) (slots : ℕ → Task) :
    Owes (initial maxTasks slots) .empty :=
  ⟨rfl,rfl,fun _ => Nat.zero_le _,.inl rfl⟩

/-- Along a run in turn the history is a ledger that the state reached stands for. -/
theorem run_owes {maxTasks : ℕ} {slots : ℕ → Task} {t : State} {es : List Event}
    (hr : Run (FiresWhen InTurn step) (initial maxTasks slots) es t) :
    ∃ l, Ledger.empty.run (batchEvents es) = some l ∧ Owes t l := by
  refine hr.traced (I := fun es t => ∃ l, Ledger.empty.run (batchEvents es) = some l ∧ Owes t l)
    ⟨.empty,rfl,initial_owes maxTasks slots⟩ ?_
  rintro es s fs t ⟨l,hl,ho⟩ ⟨a,hc,ha⟩
  obtain ⟨m,hm,hom⟩ := step_owes ho hc ha
  exact ⟨m,by rw [batchEvents_append, Ledger.run_append, hl]; exact hm,hom⟩

/-- Every accepted task is run exactly once, by the first swap after its add, in
the order of the adds, as long as no woken adder stores out of turn. -/
theorem taskDbuffer_exactlyOnce {maxTasks : ℕ} {slots : ℕ → Task} {t : State} {es : List Event}
    (hr : Run (FiresWhen InTurn step) (initial maxTasks slots) es t) :
    ExactlyOnce (batchEvents es) (t.runner.count = 0) := by
  obtain ⟨l,hl,ho⟩ := run_owes hr
  exact Ledger.exactlyOnce hl (fun h0 => by rw [ho.batch, h0, slotsFrom_zero])

/-- The adder of the second task sleeps on a full half and is woken in its turn. -/
def wokenInTurn : List Event :=
  [.added 0 ⟨1,1⟩,.swapped,.executed ⟨1,1⟩,.swapped,.added 1 ⟨2,2⟩,.swapped,.executed ⟨2,2⟩]

theorem taskDbuffer_exactlyOnce_woken : ∃ t : State, t.runner = ⟨1,0⟩ ∧
    ExactlyOnce (batchEvents wokenInTurn) (t.runner.count = 0) := by
  obtain ⟨t,ht,h0⟩ := replay_view State.runner ⟨1,0⟩ wokenInTurn
    (show (replay (fun s a => if InTurn s a then step s a else none) (initial 1 (fun _ => ⟨0,0⟩))
      [.add 0 ⟨1,1⟩,.add 1 ⟨2,2⟩,.swap,.execute,.swap,.wake ⟨1,0,⟨2,2⟩⟩,.swap,.execute]).map
        (fun p => (p.1.runner,p.2)) = some (⟨1,0⟩,_) by decide)
  exact ⟨t,h0,taskDbuffer_exactlyOnce (replay_runWhen ht)⟩

/-- With one slot per half, an adder that sleeps through three swaps finds its half
empty, stores there, and the fourth swap forgets the task. -/
def sleptThrough : List Action :=
  [.add 0 ⟨1,1⟩,.add 1 ⟨2,2⟩,.swap,.execute,.swap,.swap,.wake secondAdder,.swap]

theorem taskDbuffer_not_exactlyOnce :
    ¬ ∀ (maxTasks : ℕ) (slots : ℕ → Task) (t : State) (es : List Event), 1 ≤ maxTasks →
      Run (Fires step) (initial maxTasks slots) es t →
      ExactlyOnce (batchEvents es) (t.runner.count = 0) := by
  intro h
  obtain ⟨t,ht,h0⟩ := replay_view State.runner ⟨1,0⟩
    [.added 0 ⟨1,1⟩,.swapped,.executed ⟨1,1⟩,.swapped,.swapped,.added 1 ⟨2,2⟩,.swapped]
    (show (replay step (initial 1 (fun _ => ⟨0,0⟩)) sleptThrough).map
      (fun p => (p.1.runner,p.2)) = some (⟨1,0⟩,_) by decide)
  have hx := h 1 _ t _ le_rfl (replay_run ht)
  have hround : Round (batchEvents [.added 0 ⟨1,1⟩,.swapped,.executed ⟨1,1⟩,.swapped,.swapped,
      .added 1 ⟨2,2⟩,.swapped]) [.put ⟨2,2⟩] [] [] :=
    ⟨[.put ⟨1,1⟩,.swap,.take ⟨1,1⟩,.swap] ++ [.swap],.inr ⟨_,rfl⟩,rfl,by decide,by decide⟩
  exact absurd (hx.last _ _ hround (by rw [h0])) (by decide)

end Kaplar.TaskDbuffer
