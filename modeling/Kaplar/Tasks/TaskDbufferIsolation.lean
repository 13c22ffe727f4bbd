import Kaplar.Foundation.Batch
import Kaplar.Foundation.Execution
import Kaplar.Tasks.TaskDbuffer

/-! # Who touches which slot

An adder that slept may store in the half that is being run. It stores behind the batch
there: the counter of that half is not reset before the half is written again, so that until
then it never drops below the number of tasks the runner took over.
-/
namespace Kaplar.TaskDbuffer
open Execution Batch

/-- What is done to the slots: an add stores a task at an index of a half, a swap hands a half
with so many tasks over to the run loop, and the loop reads a slot. -/
inductive Access where
  | write (half : Fin 2) (index : ℕ) (task : Task)
  | swap (half : Fin 2) (count : ℕ)
  | read (slot : ℕ) (task : Task)
  deriving DecidableEq, Repr

def Access.isSwap : Access → Bool
  | .swap _ _ => true
  | _ => false

def addAccess (db : Dbuffer) (k : Sleeper) : List Access :=
  if db.count k.idx ≥ db.maxTasks ∧ db.active = true then []
  else if db.active = false then []
  else [.write k.idx (db.count k.idx) k.task]

/-- What an action does to the slots. -/
def accesses (s : State) : Action → List Access
  | .add thread task => addAccess s.db ⟨thread,s.db.writeIdx,task⟩
  | .wake k => addAccess s.db k
  | .swap => [.swap s.db.writeIdx (s.db.count s.db.writeIdx)]
  | .execute => [.read s.runner.task (s.db.slots s.runner.task)]
  | .setInactive => []

/-- An action of any thread, observed at the slots. -/
def observe (s : State) (a : Action) : Option (State × List Access) :=
  (step s a).map (fun p => (p.1,accesses s a))

/-- The effect on the allocation. -/
def Access.store (maxTasks : ℕ) (slots : ℕ → Task) : Access → ℕ → Task
  | .write half index task => Function.update slots (buffer maxTasks half + index) task
  | _ => slots

/-- The last swap so far. -/
def LastSwap (as : List Access) (half : Fin 2) (count : ℕ) : Prop :=
  ∃ pre mid, as = pre ++ .swap half count :: mid ∧ ∀ a ∈ mid, a.isSwap = false

/-- An access after a swap and before the next one. -/
def DuringRun (as : List Access) (half : Fin 2) (count : ℕ) (a : Access) : Prop :=
  ∃ pre post, as = pre ++ a :: post ∧ LastSwap pre half count

/-- The half that is written after these accesses. -/
def writtenHalf (w : Fin 2) : List Access → Fin 2
  | [] => w
  | .swap _ _ :: as => writtenHalf w.rev as
  | _ :: as => writtenHalf w as

/-- The accesses as a history of slots with their contents: one that is stored in the half
the next swap hands over is owed to its run loop. -/
def handedOver (maxTasks : ℕ) (w : Fin 2) : List Access → List (Batch.Event (ℕ × Task))
  | [] => []
  | .write half index task :: as =>
    if half = w then .put (buffer maxTasks half + index,task) :: handedOver maxTasks w as
    else handedOver maxTasks w as
  | .swap _ _ :: as => .swap :: handedOver maxTasks w.rev as
  | .read slot task :: as => .take (slot,task) :: handedOver maxTasks w as

/-- Every store stays within its half and away from the batch that is being run, and the run
loop within that batch. -/
structure Respected (maxTasks : ℕ) (slots : ℕ → Task) (as : List Access) (t : State) : Prop where
  memory : t.db.slots = as.foldl (Access.store maxTasks) slots
  within : ∀ half index task, .write half index task ∈ as → index < maxTasks
  apart : ∀ half count half' index task, DuringRun as half count (.write half' index task) →
    ∀ i < count, buffer maxTasks half' + index ≠ buffer maxTasks half + i
  reads : ∀ half count slot task, DuringRun as half count (.read slot task) →
    ∃ i < count, slot = buffer maxTasks half + i

/-- Besides, the run loop reads exactly the slots that were filled for it, with what was stored
in them. -/
structure Isolated (maxTasks : ℕ) (slots : ℕ → Task) (as : List Access) (t : State) : Prop
    extends Respected maxTasks slots as t where
  delivers : ExactlyOnce (handedOver maxTasks 0 as) (t.runner.count = 0)

section Histories
variable {as bs : List Access} {a b : Access} {half w : Fin 2} {count maxTasks : ℕ}

theorem not_lastSwap_nil : ¬ LastSwap [] half count := by
  rintro ⟨pre,mid,h,_⟩
  cases pre <;> cases h

theorem lastSwap_swap : LastSwap (as ++ [.swap half count]) half count :=
  ⟨as,[],rfl,by simp⟩

theorem LastSwap.concat (h : LastSwap as half count) (ha : a.isSwap = false) :
    LastSwap (as ++ [a]) half count := by
  obtain ⟨pre,mid,rfl,hmid⟩ := h
  refine ⟨pre,mid ++ [a],by simp,?_⟩
  exact List.forall_mem_append.mpr ⟨hmid,List.forall_mem_singleton.mpr ha⟩

theorem lastSwap_concat (h : LastSwap (as ++ [a]) half count) :
    a = .swap half count ∨ a.isSwap = false ∧ LastSwap as half count := by
  obtain ⟨pre,mid,heq,hmid⟩ := h
  rcases List.eq_nil_or_concat mid with rfl | ⟨mid,c,rfl⟩
  · left
    exact List.singleton_inj.mp (List.append_inj' heq rfl).2
  · right
    rw [List.concat_eq_append] at heq hmid
    rw [← List.cons_append, ← List.append_assoc] at heq
    obtain ⟨rfl,hlast⟩ := List.append_inj' heq rfl
    obtain rfl := List.singleton_inj.mp hlast
    obtain ⟨hmid,hc⟩ := List.forall_mem_append.mp hmid
    exact ⟨hc _ List.mem_cons_self,pre,mid,rfl,hmid⟩

theorem LastSwap.before (h : LastSwap (as ++ [a]) half count) (ha : a.isSwap = false) :
    LastSwap as half count := by
  rcases lastSwap_concat h with rfl | ⟨_,hlast⟩
  · cases ha
  · exact hlast

theorem duringRun_concat (h : DuringRun (as ++ [b]) half count a) :
    DuringRun as half count a ∨ a = b ∧ LastSwap as half count := by
  obtain ⟨pre,post,heq,hlast⟩ := h
  rcases List.eq_nil_or_concat post with rfl | ⟨post,c,rfl⟩
  · right
    obtain ⟨rfl,hb⟩ := List.append_inj' heq rfl
    exact ⟨(List.singleton_inj.mp hb).symm,hlast⟩
  · left
    rw [List.concat_eq_append, ← List.cons_append, ← List.append_assoc] at heq
    obtain ⟨rfl,_⟩ := List.append_inj' heq rfl
    exact ⟨pre,post,rfl,hlast⟩

theorem writtenHalf_append : writtenHalf w (as ++ bs) = writtenHalf (writtenHalf w as) bs := by
  induction as generalizing w with
  | nil => rfl
  | cons a as ih => cases a <;> exact ih

theorem handedOver_append : handedOver maxTasks w (as ++ bs) =
    handedOver maxTasks w as ++ handedOver maxTasks (writtenHalf w as) bs := by
  induction as generalizing w with
  | nil => rfl
  | cons a as ih =>
    cases a with
    | write half index task =>
      simp only [List.cons_append, handedOver, writtenHalf, ih]
      split <;> rfl
    | swap half count => simp only [List.cons_append, handedOver, writtenHalf, ih]
    | read slot task => simp only [List.cons_append, handedOver, writtenHalf, ih]

end Histories

/-- Slots with their contents. -/
def numbered (slots : ℕ → Task) (slot : ℕ) : ℕ × Task := (slot,slots slot)

theorem numbered_update (slots : ℕ → Task) (slot : ℕ) (task : Task) :
    numbered (Function.update slots slot task) =
      Function.update (numbered slots) slot (slot,task) := by
  funext i
  by_cases h : i = slot
  · subst h
    rw [numbered, Function.update_self, Function.update_self]
  · rw [numbered, Function.update_of_ne h, Function.update_of_ne h, numbered]

theorem eq_other {half half' : Fin 2} (h : half' ≠ half) : half' = 1 - half := by
  revert half half'
  decide

/-- The ledger of slots a state stands for. The counter of the half that was handed over by
the last swap has not dropped below what it was then. -/
structure Guarded (maxTasks : ℕ) (as : List Access) (s : State) (l : Ledger (ℕ × Task)) :
    Prop where
  size : s.db.maxTasks = maxTasks
  half : writtenHalf 0 as = s.db.writeIdx
  pending : l.pending = window (numbered s.db.slots) (buffer maxTasks s.db.writeIdx)
    (s.db.count s.db.writeIdx)
  batch : l.batch = window (numbered s.db.slots) s.runner.task s.runner.count
  fits : ∀ idx, s.db.count idx ≤ maxTasks
  swapped : s.runner.count = 0 ∨ ∃ half count, LastSwap as half count
  running : ∀ half count, LastSwap as half count → half = 1 - s.db.writeIdx ∧
    count ≤ s.db.count half ∧ buffer maxTasks half ≤ s.runner.task ∧
    s.runner.task + s.runner.count = buffer maxTasks half + count

/-- A pass of the wait loop stores its task where there is room, or touches no slot. -/
theorem addAccess_cases (db : Dbuffer) (cv : Condvar Sleeper) (k : Sleeper) :
    (∃ bf, addAccess db k = [] ∧
      (addLoop { db with bufferFull := cv } k).1 = { db with bufferFull := bf }) ∨
    (db.count k.idx < db.maxTasks ∧ addAccess db k = [.write k.idx (db.count k.idx) k.task] ∧
      (addLoop { db with bufferFull := cv } k).1 = { db with
        bufferFull := cv
        slots := Function.update db.slots (buffer db.maxTasks k.idx + db.count k.idx) k.task
        count := Function.update db.count k.idx (db.count k.idx + 1) }) := by
  obtain ⟨hfull,hactive,he⟩ | ⟨hclosed,he⟩ | ⟨hroom,hactive,he⟩ :=
    addLoop_cases { db with bufferFull := cv } k
  · exact .inl ⟨cv.wait k,if_pos ⟨hfull,hactive⟩,by rw [he]⟩
  · refine .inl ⟨cv,?_,by rw [he]⟩
    change db.active = false at hclosed
    simp [addAccess,hclosed]
  · refine .inr ⟨hroom,?_,by rw [he]⟩
    change db.active = true at hactive
    have hnot : ¬ db.maxTasks ≤ db.count k.idx := Nat.not_le.mpr hroom
    simp [addAccess,hactive,hnot]

/-- What an action can do to the slots and to the counters. -/
theorem observe_cases {s t : State} {as : List Access} (h : Fires observe s as t) :
    (∃ bf active, as = [] ∧
      t = { s with db := { s.db with bufferFull := bf, active := active } }) ∨
    (∃ bf idx task, s.db.count idx < s.db.maxTasks ∧
      as = [.write idx (s.db.count idx) task] ∧
      t = { s with db := { s.db with
        bufferFull := bf
        slots := Function.update s.db.slots (buffer s.db.maxTasks idx + s.db.count idx) task
        count := Function.update s.db.count idx (s.db.count idx + 1) } }) ∨
    (∃ bf, s.runner.count = 0 ∧ as = [.swap s.db.writeIdx (s.db.count s.db.writeIdx)] ∧
      t = ⟨{ s.db with
        bufferFull := bf
        writeIdx := 1 - s.db.writeIdx
        count := Function.update s.db.count (1 - s.db.writeIdx) 0 },
        ⟨buffer s.db.maxTasks s.db.writeIdx,s.db.count s.db.writeIdx⟩⟩) ∨
    (0 < s.runner.count ∧ as = [.read s.runner.task (s.db.slots s.runner.task)] ∧
      t = { s with runner := ⟨s.runner.task + 1,s.runner.count - 1⟩ }) := by
  obtain ⟨a,ha⟩ := h
  obtain ⟨⟨u,es⟩,hstep,heq⟩ := Option.map_eq_some_iff.mp ha
  cases heq
  have hadd (cv : Condvar Sleeper) (k : Sleeper) := addAccess_cases s.db cv k
  obtain ⟨thread,task,rfl,_,rfl,_⟩ | ⟨k,cv,rfl,_,rfl,_⟩ | ⟨rfl,h0,rfl,_⟩ | ⟨rfl,hp,rfl,_⟩ |
    ⟨rfl,rfl,_⟩ := step_cases hstep
  · rcases hadd s.db.bufferFull ⟨thread,s.db.writeIdx,task⟩ with ⟨bf,ha,he⟩ | ⟨hroom,ha,he⟩
    · exact .inl ⟨bf,s.db.active,ha,congrArg (fun db => { s with db := db }) he⟩
    · exact .inr (.inl ⟨_,_,_,hroom,ha,congrArg (fun db => { s with db := db }) he⟩)
  · rcases hadd cv k with ⟨bf,ha,he⟩ | ⟨hroom,ha,he⟩
    · exact .inl ⟨bf,s.db.active,ha,congrArg (fun db => { s with db := db }) he⟩
    · exact .inr (.inl ⟨_,_,_,hroom,ha,congrArg (fun db => { s with db := db }) he⟩)
  · exact .inr (.inr (.inl ⟨_,h0,rfl,rfl⟩))
  · exact .inr (.inr (.inr ⟨hp,rfl,rfl⟩))
  · exact .inl ⟨_,_,rfl,rfl⟩

section Steps
variable {maxTasks : ℕ} {as : List Access} {s t : State} {l : Ledger (ℕ × Task)}

/-- Where there is room, there is no slot of the batch that was handed over. -/
theorem Guarded.clear (h : Guarded maxTasks as s l) {half idx : Fin 2} {count : ℕ}
    (hl : LastSwap as half count) (hroom : s.db.count idx < maxTasks) :
    buffer maxTasks idx + s.db.count idx < buffer maxTasks half ∨
      buffer maxTasks half + count ≤ buffer maxTasks idx + s.db.count idx := by
  obtain ⟨_,hcount,_,_⟩ := h.running half count hl
  have hfits := h.fits half
  by_cases hidx : idx = half
  · subst hidx
    omega
  · obtain rfl := eq_other hidx
    have hdisjoint := buffer_disjoint maxTasks half
    omega

theorem Guarded.apart (h : Guarded maxTasks as s l) {half idx : Fin 2} {count : ℕ}
    (hl : LastSwap as half count) (hroom : s.db.count idx < maxTasks) :
    ∀ i < count, buffer maxTasks idx + s.db.count idx ≠ buffer maxTasks half + i := by
  have hclear := h.clear hl hroom
  omega

theorem Guarded.outside (h : Guarded maxTasks as s l) {idx : Fin 2}
    (hroom : s.db.count idx < maxTasks) : s.runner.count = 0 ∨
      (buffer maxTasks idx + s.db.count idx < s.runner.task ∨
        s.runner.task + s.runner.count ≤ buffer maxTasks idx + s.db.count idx) := by
  rcases h.swapped with h0 | ⟨half,count,hl⟩
  · exact .inl h0
  · obtain ⟨_,_,hlo,hhi⟩ := h.running half count hl
    have hclear := h.clear hl hroom
    omega

theorem Guarded.read (h : Guarded maxTasks as s l) {half : Fin 2} {count : ℕ}
    (hl : LastSwap as half count) (hpos : 0 < s.runner.count) :
    ∃ i < count, s.runner.task = buffer maxTasks half + i := by
  obtain ⟨_,_,hlo,hhi⟩ := h.running half count hl
  exact ⟨s.runner.task - buffer maxTasks half,by omega,by omega⟩

theorem Guarded.write (h : Guarded maxTasks as s l) {bf : Condvar Sleeper} {idx : Fin 2}
    {task : Task} (hroom : s.db.count idx < s.db.maxTasks) :
    ∃ m, l.run (handedOver maxTasks s.db.writeIdx [.write idx (s.db.count idx) task]) = some m ∧
      Guarded maxTasks (as ++ [.write idx (s.db.count idx) task]) { s with db := { s.db with
        bufferFull := bf
        slots := Function.update s.db.slots (buffer s.db.maxTasks idx + s.db.count idx) task
        count := Function.update s.db.count idx (s.db.count idx + 1) } } m := by
  obtain rfl := h.size
  have hhalf : writtenHalf 0 (as ++ [.write idx (s.db.count idx) task]) = s.db.writeIdx := by
    rw [writtenHalf_append]
    exact h.half
  have hbatch : l.batch = window (numbered (Function.update s.db.slots
      (buffer s.db.maxTasks idx + s.db.count idx) task)) s.runner.task s.runner.count := by
    rw [numbered_update, h.batch]
    rcases h.outside hroom with h0 | hout
    · rw [h0, window_zero, window_zero]
    · rw [window_update hout]
  have hfits : ∀ j, Function.update s.db.count idx (s.db.count idx + 1) j ≤ s.db.maxTasks := by
    intro j
    have hj := h.fits j
    rw [Function.update_apply]
    split <;> omega
  have hswapped : s.runner.count = 0 ∨
      ∃ half count, LastSwap (as ++ [.write idx (s.db.count idx) task]) half count := by
    rcases h.swapped with h0 | ⟨half,count,hl⟩
    · exact .inl h0
    · exact .inr ⟨half,count,hl.concat rfl⟩
  have hrunning : ∀ half count, LastSwap (as ++ [.write idx (s.db.count idx) task]) half count →
      half = 1 - s.db.writeIdx ∧
      count ≤ Function.update s.db.count idx (s.db.count idx + 1) half ∧
      buffer s.db.maxTasks half ≤ s.runner.task ∧
      s.runner.task + s.runner.count = buffer s.db.maxTasks half + count := by
    intro half count hl
    obtain ⟨hh,hcount,hlo,hhi⟩ := h.running half count (hl.before rfl)
    refine ⟨hh,?_,hlo,hhi⟩
    rw [Function.update_apply]
    split
    case isTrue heq =>
      subst heq
      omega
    case isFalse => exact hcount
  by_cases hidx : idx = s.db.writeIdx
  · subst hidx
    refine ⟨{ l with pending := l.pending ++
      [(buffer s.db.maxTasks s.db.writeIdx + s.db.count s.db.writeIdx,task)] },
      by simp [handedOver,Ledger.run,Ledger.post],rfl,hhalf,?_,hbatch,hfits,hswapped,hrunning⟩
    simp only [numbered_update, Function.update_self, h.pending, window_push]
  · refine ⟨l,by simp [handedOver,hidx],rfl,hhalf,?_,hbatch,hfits,hswapped,hrunning⟩
    have hfit := h.fits s.db.writeIdx
    have hdisjoint := buffer_disjoint s.db.maxTasks s.db.writeIdx
    rw [← eq_other hidx] at hdisjoint
    simp only [numbered_update, Function.update_of_ne (Ne.symm hidx), h.pending]
    exact (window_update (by omega)).symm

theorem Guarded.swap (h : Guarded maxTasks as s l) {bf : Condvar Sleeper}
    (h0 : s.runner.count = 0) :
    ∃ m, l.run (handedOver maxTasks s.db.writeIdx
      [.swap s.db.writeIdx (s.db.count s.db.writeIdx)]) = some m ∧
      Guarded maxTasks (as ++ [.swap s.db.writeIdx (s.db.count s.db.writeIdx)]) ⟨{ s.db with
        bufferFull := bf
        writeIdx := 1 - s.db.writeIdx
        count := Function.update s.db.count (1 - s.db.writeIdx) 0 },
        ⟨buffer s.db.maxTasks s.db.writeIdx,s.db.count s.db.writeIdx⟩⟩ m := by
  obtain rfl := h.size
  have hempty : l.batch = [] := by rw [h.batch, h0, window_zero]
  have hne : s.db.writeIdx ≠ 1 - s.db.writeIdx := by
    generalize s.db.writeIdx = half
    revert half
    decide
  refine ⟨⟨[],l.pending⟩,by simp [handedOver,Ledger.run,Ledger.post,hempty],rfl,?_,?_,h.pending,
    ?_,.inr ⟨_,_,lastSwap_swap⟩,?_⟩
  · rw [writtenHalf_append, h.half]
    exact rev_half _
  · simp
  · intro j
    have hj := h.fits j
    simp only [Function.update_apply]
    split <;> omega
  · intro half count hl
    rcases lastSwap_concat hl with heq | ⟨hfalse,_⟩
    · cases heq
      refine ⟨(other_half _).symm,?_,Nat.le_refl _,rfl⟩
      simp only [Function.update_of_ne hne]
      exact Nat.le_refl _
    · cases hfalse

theorem Guarded.execute (h : Guarded maxTasks as s l) (hpos : 0 < s.runner.count) :
    ∃ m, l.run (handedOver maxTasks s.db.writeIdx
      [.read s.runner.task (s.db.slots s.runner.task)]) = some m ∧
      Guarded maxTasks (as ++ [.read s.runner.task (s.db.slots s.runner.task)])
        { s with runner := ⟨s.runner.task + 1,s.runner.count - 1⟩ } m := by
  have hnext : l.batch = (s.runner.task,s.db.slots s.runner.task) ::
      window (numbered s.db.slots) (s.runner.task + 1) (s.runner.count - 1) := by
    rw [h.batch, ← Nat.sub_add_cancel hpos, window_succ_left]
    rfl
  refine ⟨⟨l.pending,window (numbered s.db.slots) (s.runner.task + 1) (s.runner.count - 1)⟩,
    by simp [handedOver,Ledger.run,Ledger.post,hnext],h.size,?_,h.pending,rfl,h.fits,?_,?_⟩
  · rw [writtenHalf_append]
    exact h.half
  · rcases h.swapped with h0 | ⟨half,count,hl⟩
    · omega
    · exact .inr ⟨half,count,hl.concat rfl⟩
  · intro half count hl
    obtain ⟨hh,hcount,hlo,hhi⟩ := h.running half count (hl.before rfl)
    exact ⟨hh,hcount,Nat.le_succ_of_le hlo,by dsimp only; omega⟩

theorem Guarded.step {bs : List Access} (h : Guarded maxTasks as s l) (ht : Fires observe s bs t) :
    ∃ m, l.run (handedOver maxTasks s.db.writeIdx bs) = some m ∧
      Guarded maxTasks (as ++ bs) t m := by
  obtain ⟨bf,active,rfl,rfl⟩ | ⟨bf,idx,task,hroom,rfl,rfl⟩ | ⟨bf,h0,rfl,rfl⟩ | ⟨hpos,rfl,rfl⟩ :=
    observe_cases ht
  · rw [List.append_nil]
    exact ⟨l,rfl,h.size,h.half,h.pending,h.batch,h.fits,h.swapped,h.running⟩
  · exact h.write hroom
  · exact h.swap h0
  · exact h.execute hpos

theorem Respected.concat {slots : ℕ → Task} {a : Access} (hr : Respected maxTasks slots as s)
    (hmemory : t.db.slots = a.store maxTasks s.db.slots)
    (hwrite : ∀ half index task, a = .write half index task → index < maxTasks ∧
      ∀ half' count, LastSwap as half' count →
        ∀ i < count, buffer maxTasks half + index ≠ buffer maxTasks half' + i)
    (hread : ∀ slot task, a = .read slot task → ∀ half count, LastSwap as half count →
      ∃ i < count, slot = buffer maxTasks half + i) : Respected maxTasks slots (as ++ [a]) t where
  memory := by
    rw [List.foldl_append, ← hr.memory, hmemory]
    rfl
  within half index task hm := by
    rcases List.mem_append.mp hm with hold | hnew
    · exact hr.within half index task hold
    · exact (hwrite half index task (List.mem_singleton.mp hnew).symm).1
  apart half count half' index task hd := by
    rcases duringRun_concat hd with hold | ⟨heq,hl⟩
    · exact hr.apart half count half' index task hold
    · exact (hwrite half' index task heq.symm).2 half count hl
  reads half count slot task hd := by
    rcases duringRun_concat hd with hold | ⟨heq,hl⟩
    · exact hr.reads half count slot task hold
    · exact hread slot task heq.symm half count hl

theorem Respected.step {bs : List Access} {slots : ℕ → Task} (hr : Respected maxTasks slots as s)
    (h : Guarded maxTasks as s l) (ht : Fires observe s bs t) :
    Respected maxTasks slots (as ++ bs) t := by
  obtain rfl := h.size
  obtain ⟨bf,active,rfl,rfl⟩ | ⟨bf,idx,task,hroom,rfl,rfl⟩ | ⟨bf,h0,rfl,rfl⟩ | ⟨hpos,rfl,rfl⟩ :=
    observe_cases ht
  · rw [List.append_nil]
    exact ⟨hr.memory,hr.within,hr.apart,hr.reads⟩
  · refine hr.concat rfl ?_ (fun _ _ heq => by cases heq)
    rintro _ _ _ ⟨⟩
    exact ⟨hroom,fun _ _ hl => h.apart hl hroom⟩
  · exact hr.concat rfl (fun _ _ _ heq => by cases heq) (fun _ _ heq => by cases heq)
  · refine hr.concat rfl (fun _ _ _ heq => by cases heq) ?_
    rintro _ _ ⟨⟩ half count hl
    exact h.read hl hpos

end Steps

theorem initial_guarded (maxTasks : ℕ) (slots : ℕ → Task) :
    Guarded maxTasks [] (initial maxTasks slots) .empty :=
  ⟨rfl,rfl,rfl,rfl,fun _ => Nat.zero_le _,.inl rfl,
    fun _ _ hl => absurd hl not_lastSwap_nil⟩

theorem initial_respected (maxTasks : ℕ) (slots : ℕ → Task) :
    Respected maxTasks slots [] (initial maxTasks slots) where
  memory := rfl
  within _ _ _ hm := by cases hm
  apart _ _ _ _ _ hd := by
    obtain ⟨pre,post,h,_⟩ := hd
    cases pre <;> cases h
  reads _ _ _ _ hd := by
    obtain ⟨pre,post,h,_⟩ := hd
    cases pre <;> cases h

theorem run_guarded {maxTasks : ℕ} {slots : ℕ → Task} {as : List Access} {t : State}
    (hr : Run (Fires observe) (initial maxTasks slots) as t) : Respected maxTasks slots as t ∧
      ∃ l, Ledger.empty.run (handedOver maxTasks 0 as) = some l ∧ Guarded maxTasks as t l := by
  refine hr.traced (I := fun as t => Respected maxTasks slots as t ∧
      ∃ l, Ledger.empty.run (handedOver maxTasks 0 as) = some l ∧ Guarded maxTasks as t l)
    ⟨initial_respected maxTasks slots,.empty,rfl,initial_guarded maxTasks slots⟩ ?_
  rintro as s bs t ⟨hresp,l,hl,hg⟩ ht
  obtain ⟨m,hm,hgm⟩ := hg.step ht
  refine ⟨hresp.step hg ht,m,?_,hgm⟩
  rw [handedOver_append, Ledger.run_append, hl, hg.half]
  exact hm

/-- Whatever the threads do, the batch that is being run is left alone by all adds, also by
those that have slept since before the half was swapped. -/
theorem taskDbuffer_isolated {maxTasks : ℕ} {slots : ℕ → Task} {as : List Access} {t : State}
    (hr : Run (Fires observe) (initial maxTasks slots) as t) : Isolated maxTasks slots as t := by
  obtain ⟨hresp,l,hl,hg⟩ := run_guarded hr
  refine ⟨hresp,Ledger.exactlyOnce hl ?_⟩
  intro h0
  rw [hg.batch, h0, window_zero]

/-- The third adder wakes up while the half it slept on is run again, and stores behind the
batch of one task. -/
theorem taskDbuffer_isolated_late : ∃ t : State, t.runner = ⟨1,0⟩ ∧
    Isolated 2 (fun _ => ⟨0,0⟩) [.write 0 0 ⟨1,1⟩,.write 0 1 ⟨2,2⟩,.swap 0 2,.read 0 ⟨1,1⟩,
      .read 1 ⟨2,2⟩,.swap 1 0,.write 0 0 ⟨4,4⟩,.swap 0 1,.write 0 1 ⟨3,3⟩,.read 0 ⟨4,4⟩] t := by
  obtain ⟨t,ht,hv⟩ := replay_view State.runner ⟨1,0⟩ _
    (show (replay observe (initial 2 (fun _ => ⟨0,0⟩)) [.add 0 ⟨1,1⟩,.add 1 ⟨2,2⟩,.add 2 ⟨3,3⟩,
      .swap,.execute,.execute,.swap,.add 3 ⟨4,4⟩,.swap,.wake ⟨2,0,⟨3,3⟩⟩,.execute]).map
        (fun p => (p.1.runner,p.2)) = some (⟨1,0⟩,[.write 0 0 ⟨1,1⟩,.write 0 1 ⟨2,2⟩,.swap 0 2,
          .read 0 ⟨1,1⟩,.read 1 ⟨2,2⟩,.swap 1 0,.write 0 0 ⟨4,4⟩,.swap 0 1,.write 0 1 ⟨3,3⟩,
          .read 0 ⟨4,4⟩]) by decide)
  exact ⟨t,hv,taskDbuffer_isolated (replay_run ht)⟩

end Kaplar.TaskDbuffer
