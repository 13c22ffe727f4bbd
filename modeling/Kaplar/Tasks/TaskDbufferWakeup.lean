import Kaplar.Foundation.Execution
import Kaplar.Tasks.TaskDbuffer
import Mathlib.Tactic.Common

/-! # Who wakes the adders of the double buffer

A swap wakes everybody blocked when the outgoing half was full. An adder that wakes
up tests the half it found full before it slept. When that half is full again but
the write half is not, the adder blocks although it could be served.
-/
namespace Kaplar.TaskDbuffer
open Execution

/-- An adder is blocked with no wake-up pending, and the write half has room. -/
def AdderStranded (s : State) : Prop :=
  s.db.active = true ∧ s.db.bufferFull.waiting ≠ [] ∧
    s.db.count s.db.writeIdx < s.db.maxTasks

/-- A woken adder that finds its half full finds the write half full. -/
def SleepsOnFull (s : State) : Action → Prop
  | .wake k => s.db.active = true → s.db.maxTasks ≤ s.db.count k.idx →
      s.db.maxTasks ≤ s.db.count s.db.writeIdx
  | _ => True

instance (s : State) (a : Action) : Decidable (SleepsOnFull s a) :=
  match a with
  | .wake _ => inferInstanceAs (Decidable (_ → _ → _))
  | .add _ _ => isTrue trivial
  | .swap => isTrue trivial
  | .execute => isTrue trivial
  | .setInactive => isTrue trivial

section Steps
variable {s t : State} {a : Action} {es : List Event}

/-- A pass of the wait loop that does not block leaves no adder stranded. -/
theorem addLoop_not_stranded (hi : ¬ AdderStranded s) {cv : Condvar Sleeper} {k : Sleeper}
    (hcv : ∀ l ∈ cv.waiting, l ∈ s.db.bufferFull.waiting)
    (hk : ¬ (s.db.active = true ∧ s.db.maxTasks ≤ s.db.count k.idx)) :
    ¬ AdderStranded { s with db := (addLoop { s.db with bufferFull := cv } k).1 } := by
  obtain ⟨hc,ha,_⟩ | ⟨ha,he⟩ | ⟨_,ha,he⟩ := addLoop_cases { s.db with bufferFull := cv } k
  · exact absurd ⟨ha,hc⟩ hk
  · rw [he]
    exact fun ⟨ht,_⟩ => absurd (ht.symm.trans ha) (by decide)
  · rw [he]
    intro ⟨_,hw,hl⟩
    obtain ⟨l,hm⟩ := List.exists_mem_of_ne_nil _ hw
    have hn : s.db.bufferFull.waiting ≠ [] := List.ne_nil_of_mem (hcv l hm)
    have hf : ¬ s.db.count s.db.writeIdx < s.db.maxTasks := fun hl' => hi ⟨ha,hn,hl'⟩
    simp only [Function.update_apply] at hl
    split at hl
    case isTrue hw' =>
      rw [← hw'] at hl
      omega
    case isFalse => exact hf hl

/-- A pass that blocks strands its adder exactly if the write half has room. -/
theorem addLoop_stranded_iff (cv : Condvar Sleeper) (k : Sleeper) (ha : s.db.active = true)
    (hk : s.db.maxTasks ≤ s.db.count k.idx) :
    AdderStranded { s with db := (addLoop { s.db with bufferFull := cv } k).1 } ↔
      s.db.count s.db.writeIdx < s.db.maxTasks := by
  obtain ⟨_,_,he⟩ | ⟨hn,_⟩ | ⟨hc,_⟩ := addLoop_cases { s.db with bufferFull := cv } k
  · rw [he]
    constructor
    · exact fun ⟨_,_,hl⟩ => hl
    · intro hl
      exact ⟨ha,List.append_ne_nil_of_right_ne_nil _ (List.cons_ne_nil _ _),hl⟩
  · exact absurd (ha.symm.trans hn) (by decide)
  · exact absurd hk (Nat.not_le.mpr hc)

/-- The half a swap retires was full, and everybody is woken, or nobody was blocked. -/
theorem swap_not_stranded (hi : ¬ AdderStranded s) :
    ¬ AdderStranded ⟨(taskDbufferSwap s.db).1,(taskDbufferSwap s.db).2⟩ := by
  intro ⟨ha,hw,_⟩
  simp only [taskDbufferSwap] at ha hw
  split at hw
  case isTrue => exact hw rfl
  case isFalse hc => exact hi ⟨ha,hw,Nat.lt_of_not_le hc⟩

/-- One action strands an adder exactly where one goes back to sleep on the wrong half. -/
theorem step_adderStranded_iff (hi : ¬ AdderStranded s) (h : step s a = some (t,es)) :
    ¬ AdderStranded t ↔ SleepsOnFull s a := by
  obtain ⟨thread,task,rfl,_,rfl,_⟩ | ⟨k,cv,rfl,hcv,rfl,_⟩ | ⟨rfl,_,rfl,_⟩ | ⟨rfl,_,rfl,_⟩ |
    ⟨rfl,rfl,_⟩ := step_cases h
  · refine iff_of_true ?_ trivial
    by_cases hk : s.db.active = true ∧ s.db.maxTasks ≤ s.db.count s.db.writeIdx
    · have hs := addLoop_stranded_iff s.db.bufferFull ⟨thread,s.db.writeIdx,task⟩ hk.1 hk.2
      exact fun ht => Nat.not_le.mpr (hs.mp ht) hk.2
    · exact addLoop_not_stranded (k := ⟨thread,s.db.writeIdx,task⟩) hi (fun _ hl => hl) hk
  · by_cases hk : s.db.active = true ∧ s.db.maxTasks ≤ s.db.count k.idx
    · rw [addLoop_stranded_iff cv k hk.1 hk.2, Nat.not_lt]
      exact ⟨fun hf _ _ => hf,fun hc => hc hk.1 hk.2⟩
    · have hn := addLoop_not_stranded hi (Condvar.resume_waiting_subset hcv) hk
      exact iff_of_true hn (fun ha hc => absurd ⟨ha,hc⟩ hk)
  · exact iff_of_true (swap_not_stranded hi) trivial
  · exact iff_of_true hi trivial
  · exact iff_of_true (fun ⟨ha,_⟩ => by cases ha) trivial

/-- No run strands an adder whose woken adders all block on a full write half. -/
theorem adder_never_stranded {maxTasks : ℕ} {slots : ℕ → Task}
    (hr : Run (FiresWhen SleepsOnFull step) (initial maxTasks slots) es t) :
    ¬ AdderStranded t := by
  refine hr.invariant (I := fun s => ¬ AdderStranded s) (fun ⟨_,hw,_⟩ => hw rfl) ?_
  intro s fs t hi ⟨a,hc,ha⟩
  exact (step_adderStranded_iff hi ha).mpr hc

/-- With one slot per half, two adders sleep on the same half. The swap wakes both, and
the one that is late blocks again behind the other half, which is full by then. -/
theorem adder_never_stranded_woken :
    ∃ t : State, t.db.bufferFull.waiting = [⟨2,0,⟨3,3⟩⟩] ∧ ¬ AdderStranded t := by
  obtain ⟨t,ht,hw⟩ := replay_view (fun t : State => t.db.bufferFull.waiting) [⟨2,0,⟨3,3⟩⟩]
    [.added 0 ⟨1,1⟩,.swapped,.added 1 ⟨2,2⟩]
    (show (replay (fun s a => if SleepsOnFull s a then step s a else none)
      (initial 1 (fun _ => ⟨0,0⟩)) [.add 0 ⟨1,1⟩,.add 2 ⟨3,3⟩,.swap,.add 1 ⟨2,2⟩,
        .wake ⟨2,0,⟨3,3⟩⟩]).map
        (fun p => (p.1.db.bufferFull.waiting,p.2)) = some ([⟨2,0,⟨3,3⟩⟩],_) by decide)
  exact ⟨t,hw,adder_never_stranded (replay_runWhen ht)⟩

/-- With one slot per half, the adder of the second task is woken by the swap, finds the
retired half still full and blocks, while the write half is empty. -/
def sleepsBehind : List Action := [.add 0 ⟨1,1⟩,.add 1 ⟨2,2⟩,.swap,.wake secondAdder]

theorem adder_stranded : ¬ ∀ (maxTasks : ℕ) (slots : ℕ → Task) (t : State) (es : List Event),
    1 ≤ maxTasks → Run (Fires step) (initial maxTasks slots) es t → ¬ AdderStranded t := by
  intro h
  obtain ⟨t,ht,hv⟩ := replay_view
    (fun t : State => (t.db.active,t.db.bufferFull.waiting,t.db.count t.db.writeIdx,
      t.db.maxTasks)) (true,[⟨1,0,⟨2,2⟩⟩],0,1) [.added 0 ⟨1,1⟩,.swapped]
    (show (replay step (initial 1 (fun _ => ⟨0,0⟩)) sleepsBehind).map
      (fun p => ((p.1.db.active,p.1.db.bufferFull.waiting,p.1.db.count p.1.db.writeIdx,
        p.1.db.maxTasks),p.2)) = some ((true,[⟨1,0,⟨2,2⟩⟩],0,1),_) by decide)
  simp only [Prod.mk.injEq] at hv
  obtain ⟨ha,hw,hc,hm⟩ := hv
  exact h 1 _ t _ le_rfl (replay_run ht)
    ⟨ha,by rw [hw]; exact List.cons_ne_nil _ _,by rw [hc, hm]; decide⟩

end Steps

end Kaplar.TaskDbuffer
