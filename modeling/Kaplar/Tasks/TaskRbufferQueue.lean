import Kaplar.Foundation.BoundedQueue
import Kaplar.Tasks.TaskRbuffer
import Mathlib.Tactic.Common
import Mathlib.Data.Nat.ModEq

/-! # The task ring is a bounded queue

What is stored is the list of the tasks in the slots between the two positions,
which stay at most one lap apart. A store appends to that list and a load takes
its head, also where the positions wrap.
-/
namespace Kaplar.TaskRbuffer
open Execution

def stored (rb : Rbuffer) : List Task :=
  (List.range (rb.writepos - rb.readpos).toNat).map
    (fun i => rb.buffer ((rb.readpos + UInt32.ofNat i) &&& rb.indexMask))

/-- What the abstract queue sees of an event. -/
def queueEvent : Event → Option (BoundedQueue.Event Task)
  | .pushed _ task => some (.put task)
  | .popped task => some (.take task)
  | _ => none

/-- The tasks whose push returned true, in the order of their pushes. -/
def pushed : List Event → List Task := List.filterMap fun
  | .pushed _ task => some task
  | _ => none

def popped : List Event → List Task := List.filterMap fun
  | .popped task => some task
  | _ => none

/-- The tasks called, in the order of the calls. -/
def executed : List Event → List Task := List.filterMap fun
  | .executed task => some task
  | _ => none

/-- The task taken by the `run_one` in progress, whose call is still to come. -/
def Consumer.taken : Consumer → List Task
  | .idle => []
  | .running task => [task]

theorem puts_queueEvent (es : List Event) :
    BoundedQueue.puts (es.filterMap queueEvent) = pushed es := by
  rw [BoundedQueue.puts, List.filterMap_filterMap]
  apply List.filterMap_congr
  intro e _
  cases e <;> rfl

theorem takes_queueEvent (es : List Event) :
    BoundedQueue.takes (es.filterMap queueEvent) = popped es := by
  rw [BoundedQueue.takes, List.filterMap_filterMap]
  apply List.filterMap_congr
  intro e _
  cases e <;> rfl

/-- The capacities that pass the assertion are the powers of two. -/
theorem isPowerOfTwo_iff {x : UInt32} : isPowerOfTwo x = true ↔ ∃ k, x.toNat = 2 ^ k := by
  have hz : x = 0 ↔ x.toNat = 0 := UInt32.toNat_inj.symm
  have hs : x.toNat ≠ 0 → (x &&& (x - 1)).toNat = x.toNat &&& (x.toNat - 1) := by
    intro hx
    have hle : (1 : UInt32) ≤ x := UInt32.le_iff_toNat_le.mpr (Nat.pos_of_ne_zero hx)
    rw [UInt32.toNat_and, UInt32.toNat_sub_of_le _ _ hle]
    rfl
  simp only [isPowerOfTwo, Bool.and_eq_true, bne_iff_ne, ne_eq, beq_iff_eq]
  rw [← UInt32.toNat_inj (a := x &&& (x - 1)), hz]
  constructor
  · intro ⟨h₀,h₁⟩
    rw [hs h₀] at h₁
    exact (Nat.and_sub_one_eq_zero_iff_isPowerOfTwo h₀).mp h₁
  · intro ⟨k,hk⟩
    have h₀ : x.toNat ≠ 0 := by
      rw [hk]
      exact Nat.ne_of_gt (Nat.two_pow_pos k)
    rw [hs h₀]
    exact ⟨h₀,(Nat.and_sub_one_eq_zero_iff_isPowerOfTwo h₀).mpr ⟨k,hk⟩⟩

/-- The mask selects among `2 ^ k` slots, and no more tasks are stored. -/
structure Ring (k : ℕ) (rb : Rbuffer) : Prop where
  small : k < 32
  mask : rb.indexMask.toNat = 2 ^ k - 1
  lap : (rb.writepos - rb.readpos).toNat ≤ 2 ^ k

section Ring
variable {k : ℕ} {rb : Rbuffer}

theorem Ring.pow_lt (h : Ring k rb) : 2 ^ k < 2 ^ 32 := Nat.pow_lt_pow_right (by decide) h.small

theorem length_stored (rb : Rbuffer) : (stored rb).length = (rb.writepos - rb.readpos).toNat := by
  simp [stored]

theorem Ring.full_iff (h : Ring k rb) :
    taskRbufferFull rb = true ↔ (rb.writepos - rb.readpos).toNat = 2 ^ k := by
  have hp := Nat.two_pow_pos k
  have hl := h.lap
  have hm := h.mask
  have hd : taskRbufferFull rb = true ↔
      rb.indexMask.toNat < (rb.writepos - rb.readpos).toNat := by
    rw [taskRbufferFull, decide_eq_true_iff]
    exact UInt32.lt_iff_toNat_lt
  rw [hd]
  omega

/-- The slot at a distance from a position, whether or not the position wraps in between. -/
theorem Ring.slot (h : Ring k rb) (p : UInt32) {i : ℕ} (hi : i < 2 ^ k) :
    ((p + UInt32.ofNat i) &&& rb.indexMask).toNat = (p.toNat + i) % 2 ^ k := by
  have hp := h.pow_lt
  have hd : 2 ^ k ∣ 2 ^ 32 := Nat.pow_dvd_pow 2 (Nat.le_of_lt h.small)
  rw [UInt32.toNat_and, h.mask, Nat.and_two_pow_sub_one_eq_mod, UInt32.toNat_add,
    UInt32.toNat_ofNat', Nat.mod_eq_of_lt (Nat.lt_trans hi hp), Nat.mod_mod_of_dvd _ hd]

/-- Within one lap every position has a slot of its own. -/
theorem Ring.slot_ne (h : Ring k rb) (p : UInt32) {i j : ℕ} (hij : i < j) (hj : j < 2 ^ k) :
    (p + UInt32.ofNat i) &&& rb.indexMask ≠ (p + UInt32.ofNat j) &&& rb.indexMask := by
  intro he
  have hn := congrArg UInt32.toNat he
  rw [h.slot p (Nat.lt_trans hij hj), h.slot p hj] at hn
  have hc : i ≡ j [MOD 2 ^ k] := Nat.ModEq.add_left_cancel' p.toNat hn
  have hm := hc.eq_of_lt_of_lt (Nat.lt_trans hij hj) hj
  omega

theorem writepos_eq (rb : Rbuffer) :
    rb.writepos = rb.readpos + UInt32.ofNat (rb.writepos - rb.readpos).toNat := by
  rw [UInt32.ofNat_toNat]
  grind

theorem Ring.count_store (h : Ring k rb) (hf : taskRbufferFull rb = false) (task : Task) :
    (rb.writepos - rb.readpos).toNat < 2 ^ k ∧ ((store rb task).writepos -
      (store rb task).readpos).toNat = (rb.writepos - rb.readpos).toNat + 1 := by
  have hl : (rb.writepos - rb.readpos).toNat < 2 ^ k := by
    have hn : ¬ (rb.writepos - rb.readpos).toNat = 2 ^ k := by
      rw [← h.full_iff, hf]
      decide
    exact Nat.lt_of_le_of_ne h.lap hn
  refine ⟨hl,?_⟩
  have hp := h.pow_lt
  have hs : rb.writepos + 1 - rb.readpos = rb.writepos - rb.readpos + 1 := by grind
  change (rb.writepos + 1 - rb.readpos).toNat = _
  rw [hs, UInt32.toNat_add]
  exact Nat.mod_eq_of_lt (by change _ + 1 < _; omega)

/-- A store appends, and overwrites no stored task. -/
theorem Ring.store (h : Ring k rb) (hf : taskRbufferFull rb = false) (task : Task) :
    Ring k (TaskRbuffer.store rb task) ∧ stored (TaskRbuffer.store rb task) = stored rb ++ [task] := by
  obtain ⟨hl,hc⟩ := h.count_store hf task
  refine ⟨⟨h.small,h.mask,by rw [hc]; exact hl⟩,?_⟩
  rw [stored, hc, List.range_succ, List.map_append, List.map_singleton]
  congr 1
  · apply List.map_congr_left
    intro i hi
    have hn := h.slot_ne rb.readpos (List.mem_range.mp hi) hl
    rw [← writepos_eq] at hn
    exact Function.update_of_ne hn _ _
  · change [Function.update rb.buffer (rb.writepos &&& rb.indexMask) task
      ((rb.readpos + UInt32.ofNat (rb.writepos - rb.readpos).toNat) &&& rb.indexMask)] = [task]
    rw [← writepos_eq, Function.update_self]

/-- A load takes the head. -/
theorem Ring.load (h : Ring k rb) (he : taskRbufferEmpty rb = false) :
    Ring k (TaskRbuffer.load rb).1 ∧
      stored rb = (TaskRbuffer.load rb).2 :: stored (TaskRbuffer.load rb).1 := by
  have hn : (rb.writepos - rb.readpos).toNat ≠ 0 := by
    intro hz
    have hd : rb.writepos - rb.readpos = 0 := UInt32.toNat_inj.mp hz
    have hp : rb.readpos = rb.writepos := by grind
    rw [taskRbufferEmpty_iff.mpr hp] at he
    cases he
  obtain ⟨n,hn⟩ := Nat.exists_eq_succ_of_ne_zero hn
  have hs : rb.writepos - (rb.readpos + 1) = rb.writepos - rb.readpos - 1 := by grind
  have hle : (1 : UInt32) ≤ rb.writepos - rb.readpos :=
    UInt32.le_iff_toNat_le.mpr (by rw [hn]; exact Nat.succ_pos n)
  have hc : ((TaskRbuffer.load rb).1.writepos - (TaskRbuffer.load rb).1.readpos).toNat = n := by
    change (rb.writepos - (rb.readpos + 1)).toNat = n
    rw [hs, UInt32.toNat_sub_of_le _ _ hle, hn]
    rfl
  have hl := h.lap
  refine ⟨⟨h.small,h.mask,by rw [hc]; omega⟩,?_⟩
  rw [stored, stored, hn, hc, List.range_succ_eq_map, List.map_cons, List.map_map]
  congr 1
  · change rb.buffer ((rb.readpos + 0) &&& rb.indexMask) = _
    rw [UInt32.add_zero]
    rfl
  · apply List.map_congr_left
    intro i _
    change rb.buffer ((rb.readpos + UInt32.ofNat (i + 1)) &&& rb.indexMask) =
      rb.buffer ((rb.readpos + 1 + UInt32.ofNat i) &&& rb.indexMask)
    rw [UInt32.ofNat_add, UInt32.add_assoc, UInt32.add_comm 1]
    rfl

theorem Ring.put (h : Ring k rb) (hf : taskRbufferFull rb = false) (task : Task) :
    Ring k (TaskRbuffer.store rb task) ∧ BoundedQueue.Step (2 ^ k) (stored rb) [.put task]
      (stored (TaskRbuffer.store rb task)) := by
  obtain ⟨hr,hs⟩ := h.store hf task
  have hl : (stored rb).length < 2 ^ k := by
    rw [length_stored]
    exact (h.count_store hf task).1
  rw [hs]
  exact ⟨hr,.put hl⟩

theorem Ring.take (h : Ring k rb) (he : taskRbufferEmpty rb = false) :
    Ring k (pop rb).1.rb ∧ BoundedQueue.Step (2 ^ k) (stored rb)
      ((pop rb).2.filterMap queueEvent) (stored (pop rb).1.rb) := by
  obtain ⟨hr,hs⟩ := h.load he
  rw [hs]
  exact ⟨hr,.take⟩

end Ring

section Refinement
variable {k : ℕ} {s t u v : State} {a : Action} {es fs : List Event}

theorem push_refines {rb rb' : Rbuffer} (hi : Ring k rb) {thread : ℕ} {task : Task}
    {wakes : Option Unit} (h : taskRbufferPush rb thread task wakes = some (rb',es)) :
    Ring k rb' ∧
      BoundedQueue.Step (2 ^ k) (stored rb) (es.filterMap queueEvent) (stored rb') := by
  obtain ⟨_,rfl,rfl⟩ | ⟨_,_,rfl,rfl⟩ | ⟨_,hf,rfl,⟨_,cv,_,rfl⟩ | ⟨_,rfl⟩⟩ := push_cases h
  · exact ⟨hi,.stay⟩
  · exact ⟨⟨hi.small,hi.mask,hi.lap⟩,.stay⟩
  · have hi' : Ring k { rb with rbEmpty := cv } := ⟨hi.small,hi.mask,hi.lap⟩
    exact hi'.put hf task
  · exact hi.put hf task

theorem pushWoken_refines {rb : Rbuffer} (hi : Ring k rb) (p : Producer) :
    Ring k (pushWoken rb p).1 ∧ BoundedQueue.Step (2 ^ k) (stored rb)
      ((pushWoken rb p).2.filterMap queueEvent) (stored (pushWoken rb p).1) := by
  obtain ⟨_,_,he⟩ | ⟨_,he⟩ | ⟨hf,_,he⟩ := pushWoken_cases rb p
  · rw [he]
    exact ⟨⟨hi.small,hi.mask,hi.lap⟩,.stay⟩
  · rw [he]
    exact ⟨hi,.stay⟩
  · rw [he]
    exact hi.put hf p.task

theorem runOne_refines {rb : Rbuffer} (hi : Ring k rb) {wakes : Option Producer}
    (h : taskRbufferRunOne rb wakes = some (t,es)) :
    Ring k t.rb ∧
      BoundedQueue.Step (2 ^ k) (stored rb) (es.filterMap queueEvent) (stored t.rb) := by
  obtain ⟨_,rfl,rfl⟩ | ⟨_,_,rfl,rfl⟩ | ⟨_,he,cv,_,rfl,rfl⟩ := runOne_cases h
  · exact ⟨hi,.stay⟩
  · exact ⟨⟨hi.small,hi.mask,hi.lap⟩,.stay⟩
  · have hi' : Ring k { rb with rbFull := cv } := ⟨hi.small,hi.mask,hi.lap⟩
    exact hi'.take he

theorem runOneWoken_refines {rb : Rbuffer} (hi : Ring k rb) :
    Ring k (runOneWoken rb).1.rb ∧ BoundedQueue.Step (2 ^ k) (stored rb)
      ((runOneWoken rb).2.filterMap queueEvent) (stored (runOneWoken rb).1.rb) := by
  obtain ⟨_,_,hr⟩ | ⟨_,hr⟩ | ⟨he,_,hr⟩ := runOneWoken_cases rb
  · rw [hr]
    exact ⟨⟨hi.small,hi.mask,hi.lap⟩,.stay⟩
  · rw [hr]
    exact ⟨hi,.stay⟩
  · rw [hr]
    exact hi.take he

/-- Every action is an operation on the queue of the stored tasks, or none. -/
theorem step_refines (hi : Ring k s.rb) (h : step s a = some (t,es)) :
    Ring k t.rb ∧
      BoundedQueue.Step (2 ^ k) (stored s.rb) (es.filterMap queueEvent) (stored t.rb) := by
  obtain ⟨thread,task,wakes,rb,_,_,hp,rfl⟩ | ⟨p,cv,_,_,rfl,rfl⟩ | ⟨wakes,_,_,_,hr⟩ |
    ⟨cv,_,_,he⟩ | ⟨task,_,_,rfl,rfl⟩ | ⟨_,rfl,rfl⟩ := step_cases h
  · exact push_refines hi hp
  · have hi' : Ring k { s.rb with rbFull := cv } := ⟨hi.small,hi.mask,hi.lap⟩
    exact pushWoken_refines hi' p
  · exact runOne_refines hi hr
  · have hi' : Ring k { s.rb with rbEmpty := cv } := ⟨hi.small,hi.mask,hi.lap⟩
    have hq := runOneWoken_refines hi'
    rw [← he] at hq
    exact hq
  · exact ⟨hi,.stay⟩
  · exact ⟨⟨hi.small,hi.mask,hi.lap⟩,.stay⟩

theorem run_refines (hi : Ring k s.rb) (hr : Run (Fires step) s es t) :
    Ring k t.rb ∧
      Run (BoundedQueue.Step (2 ^ k)) (stored s.rb) (es.filterMap queueEvent) (stored t.rb) := by
  refine hr.simulate (I := fun s => Ring k s.rb) (fun s => stored s.rb) queueEvent hi ?_
  intro s fs t hi ⟨a,ha⟩
  exact step_refines hi ha

/-- The single consumer is asleep, or inside a task, or neither. -/
def OnePlace (s : State) : Prop := s.rb.rbEmpty.sleepers.length + s.consumer.taken.length ≤ 1

/-- What the consumer has taken and takes is what it calls and has still to call. -/
theorem step_calls (hi : OnePlace s) (h : step s a = some (t,es)) :
    OnePlace t ∧ s.consumer.taken ++ popped es = executed es ++ t.consumer.taken := by
  obtain ⟨thread,task,wakes,rb,_,_,hp,rfl⟩ | ⟨p,cv,_,_,rfl,rfl⟩ | ⟨wakes,_,hc,hs,hr⟩ |
    ⟨cv,_,hcv,he⟩ | ⟨task,_,hc,rfl,rfl⟩ | ⟨_,rfl,rfl⟩ := step_cases h
  · obtain ⟨_,rfl,rfl⟩ | ⟨_,_,rfl,rfl⟩ | ⟨_,_,rfl,⟨_,cv,hcv,rfl⟩ | ⟨_,rfl⟩⟩ := push_cases hp
    · exact ⟨hi,List.append_nil _⟩
    · exact ⟨hi,List.append_nil _⟩
    · have hl := Condvar.signal_sleepers_length hcv
      refine ⟨?_,List.append_nil _⟩
      change cv.sleepers.length + _ ≤ 1
      rw [hl]
      exact hi
    · exact ⟨hi,List.append_nil _⟩
  · obtain ⟨_,_,he⟩ | ⟨_,he⟩ | ⟨_,_,he⟩ := pushWoken_cases { s.rb with rbFull := cv } p
    · rw [he]
      exact ⟨hi,List.append_nil _⟩
    · rw [he]
      exact ⟨hi,List.append_nil _⟩
    · rw [he]
      exact ⟨hi,List.append_nil _⟩
  · have hw := (List.append_eq_nil_iff.mp hs).1
    have hk := (List.append_eq_nil_iff.mp hs).2
    rw [hc]
    obtain ⟨_,rfl,rfl⟩ | ⟨_,_,rfl,rfl⟩ | ⟨_,_,cv,_,rfl,rfl⟩ := runOne_cases hr
    · exact ⟨by simp [OnePlace,hs,Consumer.taken],rfl⟩
    · exact ⟨by simp [OnePlace,Consumer.taken,Condvar.sleepers,Condvar.wait,hw,hk],rfl⟩
    · exact ⟨by simp [OnePlace,pop,load,Consumer.taken,hs],rfl⟩
  · have hl := Condvar.resume_sleepers_length hcv
    have hlen : s.rb.rbEmpty.sleepers.length + s.consumer.taken.length ≤ 1 := hi
    have ht : s.consumer.taken = [] := List.length_eq_zero_iff.mp (by omega)
    have hs : cv.sleepers = [] := List.length_eq_zero_iff.mp (by omega)
    have hw := (List.append_eq_nil_iff.mp hs).1
    have hk := (List.append_eq_nil_iff.mp hs).2
    rw [ht]
    obtain ⟨_,_,hr⟩ | ⟨_,hr⟩ | ⟨_,_,hr⟩ := runOneWoken_cases { s.rb with rbEmpty := cv }
    · obtain ⟨rfl,rfl⟩ := Prod.mk.inj (he.trans hr)
      exact ⟨by simp [OnePlace,Consumer.taken,Condvar.sleepers,Condvar.wait,hw,hk],rfl⟩
    · obtain ⟨rfl,rfl⟩ := Prod.mk.inj (he.trans hr)
      exact ⟨by simp [OnePlace,hs,Consumer.taken],rfl⟩
    · obtain ⟨rfl,rfl⟩ := Prod.mk.inj (he.trans hr)
      exact ⟨by simp [OnePlace,load,Consumer.taken,hs],rfl⟩
  · have hlen : s.rb.rbEmpty.sleepers.length + s.consumer.taken.length ≤ 1 := hi
    rw [hc] at hlen ⊢
    exact ⟨Nat.le_trans (Nat.le_add_right _ _) hlen,rfl⟩
  · refine ⟨?_,List.append_nil _⟩
    have hlen : s.rb.rbEmpty.sleepers.length + s.consumer.taken.length ≤ 1 := hi
    simp only [Condvar.sleepers, List.length_append] at hlen
    simp only [OnePlace, taskRbufferSetInactive, Condvar.sleepers, Condvar.broadcast,
      List.length_append, List.length_nil]
    omega

theorem run_calls (hi : OnePlace s) (hr : Run (Fires step) s es t) :
    OnePlace t ∧ s.consumer.taken ++ popped es = executed es ++ t.consumer.taken := by
  refine hr.traced (I := fun es t => OnePlace t ∧
    s.consumer.taken ++ popped es = executed es ++ t.consumer.taken)
    ⟨hi,List.append_nil _⟩ ?_
  intro es t fs u ⟨hi,hc⟩ ⟨a,ha⟩
  obtain ⟨hi',hc'⟩ := step_calls hi ha
  have hp : popped (es ++ fs) = popped es ++ popped fs := List.filterMap_append
  have he : executed (es ++ fs) = executed es ++ executed fs := List.filterMap_append
  refine ⟨hi',?_⟩
  rw [hp, he, ← List.append_assoc, hc, List.append_assoc, hc', List.append_assoc]

/-- An inactive ring stays so, refuses every push and hands out no task. -/
theorem step_inactive (hi : s.rb.active = false) (h : step s a = some (t,es)) :
    t.rb.active = false ∧ pushed es = [] ∧ popped es = [] := by
  obtain ⟨thread,task,wakes,rb,_,_,hp,rfl⟩ | ⟨p,cv,_,_,rfl,rfl⟩ | ⟨wakes,_,_,_,hr⟩ |
    ⟨cv,_,_,he⟩ | ⟨task,_,_,rfl,rfl⟩ | ⟨_,rfl,rfl⟩ := step_cases h
  · obtain ⟨_,rfl,rfl⟩ | ⟨ha,_⟩ | ⟨ha,_⟩ := push_cases hp
    · exact ⟨hi,rfl,rfl⟩
    · exact absurd (hi.symm.trans ha) (by decide)
    · exact absurd (hi.symm.trans ha) (by decide)
  · obtain ⟨_,ha,_⟩ | ⟨_,he⟩ | ⟨_,ha,_⟩ := pushWoken_cases { s.rb with rbFull := cv } p
    · exact absurd (hi.symm.trans ha) (by decide)
    · rw [he]
      exact ⟨hi,rfl,rfl⟩
    · exact absurd (hi.symm.trans ha) (by decide)
  · obtain ⟨_,rfl,rfl⟩ | ⟨ha,_⟩ | ⟨ha,_⟩ := runOne_cases hr
    · exact ⟨hi,rfl,rfl⟩
    · exact absurd (hi.symm.trans ha) (by decide)
    · exact absurd (hi.symm.trans ha) (by decide)
  · obtain ⟨_,ha,_⟩ | ⟨_,hr⟩ | ⟨_,ha,_⟩ := runOneWoken_cases { s.rb with rbEmpty := cv }
    · exact absurd (hi.symm.trans ha) (by decide)
    · obtain ⟨rfl,rfl⟩ := Prod.mk.inj (he.trans hr)
      exact ⟨hi,rfl,rfl⟩
    · exact absurd (hi.symm.trans ha) (by decide)
  · exact ⟨hi,rfl,rfl⟩
  · exact ⟨rfl,rfl,rfl⟩

theorem run_inactive (hi : s.rb.active = false) (hr : Run (Fires step) s es t) :
    pushed es = [] ∧ popped es = [] := by
  refine (hr.traced (I := fun es t => t.rb.active = false ∧ pushed es = [] ∧ popped es = [])
    ⟨hi,rfl,rfl⟩ ?_).2
  intro es t fs u ⟨hi,hp,hq⟩ ⟨a,ha⟩
  obtain ⟨hi',hp',hq'⟩ := step_inactive hi ha
  have he : pushed (es ++ fs) = pushed es ++ pushed fs := List.filterMap_append
  have hf : popped (es ++ fs) = popped es ++ popped fs := List.filterMap_append
  rw [he, hf, hp, hp', hq, hq']
  exact ⟨hi',rfl,rfl⟩

theorem stored_fresh (maxTasks : UInt32) (buffer : UInt32 → Task) :
    stored (fresh maxTasks buffer) = [] := by
  apply List.eq_nil_of_length_eq_zero
  rw [length_stored]
  change (0 - 0 : UInt32).toNat = 0
  decide

theorem fresh_ring {maxTasks : UInt32} (buffer : UInt32 → Task)
    (h : maxTasks.toNat = 2 ^ k) : Ring k (fresh maxTasks buffer) := by
  have hp := Nat.two_pow_pos k
  have hle : (1 : UInt32) ≤ maxTasks := UInt32.le_iff_toNat_le.mpr (by rw [h]; exact hp)
  refine ⟨?_,?_,?_⟩
  · have hl := maxTasks.toNat_lt
    rw [h] at hl
    exact (Nat.pow_lt_pow_iff_right (by decide)).mp hl
  · change (maxTasks - 1).toNat = _
    rw [UInt32.toNat_sub_of_le _ _ hle, h]
    rfl
  · rw [← length_stored, stored_fresh]
    exact Nat.zero_le _

/-- From creation on the ring is a queue of the requested capacity, and it hands out
nothing and accepts nothing once it was set inactive, a task already taken apart. -/
theorem rbuffer_refines_queue (maxTasks : UInt32) (buffer : UInt32 → Task) (k : ℕ)
    (hk : maxTasks.toNat = 2 ^ k) :
    ∃ s, initial maxTasks buffer = some s ∧ ∀ es t, Run (Fires step) s es t →
      Run (BoundedQueue.Step maxTasks.toNat) [] (es.filterMap queueEvent) (stored t.rb) ∧
      (t.rb.writepos - t.rb.readpos).toNat ≤ maxTasks.toNat ∧
      pushed es = popped es ++ stored t.rb ∧
      executed es <+: pushed es ∧
      ∀ as u fs v, step t .setInactive = some (u,as) → Run (Fires step) u fs v →
        pushed fs = [] ∧ popped fs = [] ∧ executed fs <+: u.consumer.taken := by
  have hf := fresh_ring buffer hk
  have hs : initial maxTasks buffer = some ⟨fresh maxTasks buffer,.idle⟩ := by
    rw [initial, taskRbufferCreate, if_pos (isPowerOfTwo_iff.mpr ⟨k,hk⟩)]
    rfl
  refine ⟨_,hs,?_⟩
  intro es t hr
  have ho : OnePlace ⟨fresh maxTasks buffer,.idle⟩ := Nat.zero_le 1
  obtain ⟨hi,hq⟩ := run_refines (s := ⟨fresh maxTasks buffer,.idle⟩) hf hr
  obtain ⟨hp,hc⟩ := run_calls ho hr
  rw [stored_fresh] at hq
  have hl := BoundedQueue.run_conserves hq
  rw [List.nil_append, puts_queueEvent, takes_queueEvent] at hl
  rw [hk]
  refine ⟨hq,hi.lap,hl,?_,?_⟩
  · have hx : popped es = executed es ++ t.consumer.taken := hc
    rw [hl, hx, List.append_assoc]
    exact List.prefix_append _ _
  · intro as u fs v hu hv
    have hu' : u.rb.active = false ∧ OnePlace u := by
      have ha : u = { t with rb := taskRbufferSetInactive t.rb } :=
        (congrArg Prod.fst (Option.some.inj hu)).symm
      exact ⟨by rw [ha]; rfl,(step_calls hp hu).1⟩
    obtain ⟨hpu,hpo⟩ := run_inactive hu'.1 hv
    have hx := (run_calls hu'.2 hv).2
    rw [hpo, List.append_nil] at hx
    exact ⟨hpu,hpo,hx ▸ List.prefix_append _ _⟩

/-- A ring of two slots after three pushes and one finished task. -/
theorem rbuffer_refines_queue_two : ∃ t : State, t.rb.writepos = 3 ∧
    [⟨1,1⟩,⟨2,2⟩,⟨3,3⟩] = [⟨1,1⟩] ++ stored t.rb := by
  obtain ⟨s,hs,h⟩ := rbuffer_refines_queue 2 (fun _ => ⟨0,0⟩) 1 rfl
  obtain ⟨t,ht,hw⟩ := replay_view (fun t : State => t.rb.writepos) 3
    [.pushed 0 ⟨1,1⟩,.pushed 1 ⟨2,2⟩,.popped ⟨1,1⟩,.executed ⟨1,1⟩,.pushed 2 ⟨3,3⟩]
    (show (replay step ⟨fresh 2 (fun _ => ⟨0,0⟩),.idle⟩ [.push 0 ⟨1,1⟩ none,
      .push 1 ⟨2,2⟩ none,.runOne none,.execute,.push 2 ⟨3,3⟩ none]).map
        (fun p => (p.1.rb.writepos,p.2)) = some (3,_) by decide)
  have he : s = ⟨fresh 2 (fun _ => ⟨0,0⟩),.idle⟩ := (Option.some.inj hs).symm
  rw [he] at h
  exact ⟨t,hw,(h _ _ (replay_run ht)).2.2.1⟩

end Refinement

end Kaplar.TaskRbuffer
