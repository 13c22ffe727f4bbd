import Kaplar.Game.Game

/-! # The way of a login

A login goes through the queue of the database thread, whose task adds the one that sends the
answer to the queue of the server thread. On this way none is lost, doubled or overtaken.
-/
namespace Kaplar.Game
open Execution Server
variable {s t : State} {a : Action} {es fs : List Event}

/-- The logins whose answers these tasks send. -/
def resolves (tasks : List Task) : List ℕ := (tasks.filter isResolve).map Task.arg

@[simp] theorem resolves_nil : resolves [] = [] := rfl

/-- The login whose answer is queued but whose task has not returned. -/
def answering (s : State) : List ℕ :=
  if s.answered then s.dbTasks.consumer.taken.map Task.arg else []

/-- The logins on their way, those that are farthest first. -/
def inFlight (s : State) : List ℕ :=
  resolves (batch s.serverTasks ++ pending s.serverTasks) ++
    ((if s.answered then [] else s.dbTasks.consumer.taken.map Task.arg) ++
      (TaskRbuffer.stored s.dbTasks.rb).map Task.arg)

/-- The logins accepted by the queue of the database thread. -/
def loginsAccepted (es : List Event) : List ℕ :=
  (TaskRbuffer.pushed (es.filterMap Event.dbTask?)).map Task.arg

/-- The logins whose answers were sent on the server thread. -/
def loginsResolved (es : List Event) : List ℕ :=
  resolves (executed (es.filterMap Event.serverTask?))

def fromDb (k : TaskDbuffer.Sleeper) : Bool := k.thread = dbThread

/-- The database thread waits for room for the answer to its login, or has it queued, or
neither. -/
structure Answering (sleepers : List TaskDbuffer.Sleeper) (answered : Bool)
    (consumer : TaskRbuffer.Consumer) : Prop where
  once : sleepers.countP fromDb + answered.toNat ≤ 1
  others : ∀ k ∈ sleepers, fromDb k = false → isResolve k.task = false
  login : ∀ k ∈ sleepers, fromDb k = true →
    ∃ n, k.task = internalResolveLogin n ∧ consumer = .running (databaseResolveLogin n)
  running : answered = true → ∃ n, consumer = .running (databaseResolveLogin n)

def Handling (s : State) : Prop := s.serverTasks.db.active = true ∧
  Answering s.serverTasks.db.bufferFull.sleepers s.answered s.dbTasks.consumer

section Answering
variable {l l' : List TaskDbuffer.Sleeper} {k : TaskDbuffer.Sleeper} {answered : Bool}
  {c : TaskRbuffer.Consumer} {n : ℕ}

theorem Answering.perm (h : Answering l answered c) (hp : l'.Perm l) : Answering l' answered c where
  once := by
    rw [hp.countP_eq]
    exact h.once
  others k hk := h.others k (hp.mem_iff.mp hk)
  login k hk := h.login k (hp.mem_iff.mp hk)
  running := h.running

theorem Answering.other (h : Answering l answered c) (hk : fromDb k = false)
    (hr : isResolve k.task = false) : Answering (k :: l) answered c where
  once := by
    rw [List.countP_cons_of_neg (by simp [hk])]
    exact h.once
  others := List.forall_mem_cons.mpr ⟨fun _ => hr,h.others⟩
  login := List.forall_mem_cons.mpr ⟨fun hd => by simp [hk] at hd,h.login⟩
  running := h.running

theorem Answering.waits (h : Answering l false c) (hl : ∀ k ∈ l, fromDb k = false)
    (hk : fromDb k = true) (ht : k.task = internalResolveLogin n)
    (hc : c = .running (databaseResolveLogin n)) : Answering (k :: l) false c where
  once := by
    rw [List.countP_cons_of_pos hk, List.countP_eq_zero.mpr (fun k hk => by simp [hl k hk])]
    decide
  others := List.forall_mem_cons.mpr ⟨fun hd => by simp [hk] at hd,h.others⟩
  login := List.forall_mem_cons.mpr ⟨fun _ => ⟨n,ht,hc⟩,h.login⟩
  running := h.running

theorem Answering.queued (h : Answering l false c) (hl : ∀ k ∈ l, fromDb k = false)
    (hc : c = .running (databaseResolveLogin n)) : Answering l true c where
  once := by
    rw [List.countP_eq_zero.mpr (fun k hk => by simp [hl k hk])]
    decide
  others := h.others
  login := h.login
  running _ := ⟨n,hc⟩

theorem Answering.tail (h : Answering (k :: l) answered c) : Answering l answered c where
  once := by
    have hle : l.countP fromDb ≤ (k :: l).countP fromDb :=
      (List.sublist_cons_self k l).countP_le
    exact Nat.le_trans (Nat.add_le_add_right hle _) h.once
  others := (List.forall_mem_cons.mp h.others).2
  login := (List.forall_mem_cons.mp h.login).2
  running := h.running

/-- While the database thread waits, nothing is queued for its login, and nobody else waits in
its name. -/
theorem Answering.alone (h : Answering (k :: l) answered c) (hk : fromDb k = true) :
    answered = false ∧ ∀ k ∈ l, fromDb k = false := by
  have honce := h.once
  rw [List.countP_cons_of_pos hk] at honce
  constructor
  · cases answered with
    | false => rfl
    | true => simp at honce
  · intro k' hk'
    apply Bool.eq_false_iff.mpr
    intro hdb
    have hpos := List.countP_pos_iff.mpr ⟨k',hk',hdb⟩
    omega

theorem Answering.kept {c' : TaskRbuffer.Consumer} (h : Answering l answered c)
    (hc : ∀ task, c = .running task → c' = .running task) : Answering l answered c' where
  once := h.once
  others := h.others
  login k hk hdb := by
    obtain ⟨n,ht,hrun⟩ := h.login k hk hdb
    exact ⟨n,ht,hc _ hrun⟩
  running ha := by
    obtain ⟨n,hrun⟩ := h.running ha
    exact ⟨n,hc _ hrun⟩

/-- With its answer queued a login is done. -/
theorem Answering.returned {c' : TaskRbuffer.Consumer} (h : Answering l true c) :
    Answering l false c' := by
  have hzero : l.countP fromDb = 0 := by
    have honce := h.once
    rw [Bool.toNat_true] at honce
    omega
  refine ⟨by rw [hzero]; decide,h.others,fun k hk hdb => ?_,fun hfalse => by cases hfalse⟩
  exact absurd hdb (List.countP_eq_zero.mp hzero k hk)

end Answering

/-! ## The sleepers of a buffer -/

section Buffers
variable {x y : TaskDbuffer.State} {b : TaskDbuffer.Action} {gs : List TaskDbuffer.Event}

theorem step_active (h : TaskDbuffer.step x b = some (y,gs)) (hb : b ≠ .setInactive) :
    y.db.active = x.db.active := by
  have hloop (db : TaskDbuffer.Dbuffer) (k : TaskDbuffer.Sleeper) :
      (TaskDbuffer.addLoop db k).1.active = db.active := by
    obtain ⟨_,_,he⟩ | ⟨_,he⟩ | ⟨_,_,he⟩ := TaskDbuffer.addLoop_cases db k <;> rw [he]
  obtain ⟨thread,task,rfl,_,rfl,rfl⟩ | ⟨k,cv,rfl,_,rfl,rfl⟩ | ⟨rfl,h0,rfl,rfl⟩ |
    ⟨rfl,hp,rfl,rfl⟩ | ⟨rfl,rfl,rfl⟩ := TaskDbuffer.step_cases h
  · exact hloop _ _
  · exact hloop _ _
  · rfl
  · rfl
  · exact absurd rfl hb

/-- An add that is over has left the sleepers, one that waits has joined them. -/
theorem step_sleepers (ha : x.db.active = true) (h : TaskDbuffer.step x b = some (y,gs)) :
    (accepted gs = [] ∧ gs.any addsAnswer = false ∧
      y.db.bufferFull.sleepers.Perm x.db.bufferFull.sleepers) ∨
    (∃ k : TaskDbuffer.Sleeper, b = .add k.thread k.task ∧
      (∀ l ∈ x.db.bufferFull.sleepers, l.thread ≠ k.thread) ∧ gs = [] ∧
      y.db.bufferFull.sleepers.Perm (k :: x.db.bufferFull.sleepers)) ∨
    (∃ thread task, b = .add thread task ∧
      (∀ l ∈ x.db.bufferFull.sleepers, l.thread ≠ thread) ∧ gs = [.added thread task] ∧
      y.db.bufferFull.sleepers = x.db.bufferFull.sleepers) ∨
    (∃ k, gs = [.added k.thread k.task] ∧
      x.db.bufferFull.sleepers.Perm (k :: y.db.bufferFull.sleepers)) := by
  obtain ⟨thread,task,rfl,hfree,rfl,rfl⟩ | ⟨k,cv,rfl,hcv,rfl,rfl⟩ | ⟨rfl,h0,rfl,rfl⟩ |
    ⟨rfl,hp,rfl,rfl⟩ | ⟨rfl,rfl,rfl⟩ := TaskDbuffer.step_cases h
  · obtain ⟨_,_,he⟩ | ⟨hn,_⟩ | ⟨_,_,he⟩ :=
      TaskDbuffer.addLoop_cases x.db ⟨thread,x.db.writeIdx,task⟩
    · rw [he]
      exact .inr (.inl ⟨_,rfl,hfree,rfl,Condvar.perm_wait _ _⟩)
    · rw [ha] at hn
      cases hn
    · rw [he]
      exact .inr (.inr (.inl ⟨_,_,rfl,hfree,rfl,rfl⟩))
  · have hleft := Condvar.perm_resume hcv
    obtain ⟨_,_,he⟩ | ⟨hn,_⟩ | ⟨_,_,he⟩ :=
      TaskDbuffer.addLoop_cases { x.db with bufferFull := cv } k
    · rw [he]
      exact .inl ⟨rfl,rfl,(Condvar.perm_wait _ _).trans hleft.symm⟩
    · exact absurd (ha.symm.trans hn) (by decide)
    · rw [he]
      exact .inr (.inr (.inr ⟨k,rfl,hleft⟩))
  · refine .inl ⟨rfl,rfl,?_⟩
    simp only [TaskDbuffer.taskDbufferSwap]
    split
    · exact Condvar.perm_broadcast _
    · exact List.Perm.refl _
  · exact .inl ⟨rfl,rfl,List.Perm.refl _⟩
  · exact .inl ⟨rfl,rfl,Condvar.perm_broadcast _⟩

end Buffers

/-! ## The database thread -/

section Ring
variable {x y : TaskRbuffer.State} {b : TaskRbuffer.Action} {gs : List TaskRbuffer.Event}

theorem executed_of_ne (h : TaskRbuffer.step x b = some (y,gs)) (hb : b ≠ .execute) :
    TaskRbuffer.executed gs = [] := by
  obtain ⟨thread,task,wakes,rb,_,_,hp,rfl⟩ | ⟨p,cv,_,_,rfl,rfl⟩ | ⟨wakes,_,hc,hs,hr⟩ |
    ⟨cv,_,hcv,he⟩ | ⟨task,hx,_⟩ | ⟨_,rfl,rfl⟩ := TaskRbuffer.step_cases h
  · obtain ⟨_,rfl,rfl⟩ | ⟨_,_,rfl,rfl⟩ | ⟨_,_,rfl,_⟩ := TaskRbuffer.push_cases hp <;> rfl
  · obtain ⟨_,_,he⟩ | ⟨_,he⟩ | ⟨_,_,he⟩ :=
      TaskRbuffer.pushWoken_cases { x.rb with rbFull := cv } p <;> rw [he] <;> rfl
  · obtain ⟨_,rfl,rfl⟩ | ⟨_,_,rfl,rfl⟩ | ⟨_,_,cv,_,rfl,rfl⟩ := TaskRbuffer.runOne_cases hr <;> rfl
  · obtain ⟨_,_,hr⟩ | ⟨_,hr⟩ | ⟨_,_,hr⟩ :=
      TaskRbuffer.runOneWoken_cases { x.rb with rbEmpty := cv }
    all_goals
      obtain ⟨rfl,rfl⟩ := Prod.mk.inj (he.trans hr)
      rfl
  · exact absurd hx hb
  · rfl

/-- A task stays with the thread until it returns. -/
theorem consumer_kept (ho : TaskRbuffer.OnePlace x) (h : TaskRbuffer.step x b = some (y,gs))
    (hb : b ≠ .execute) {task : Task} (hx : x.consumer = .running task) :
    y.consumer = .running task := by
  obtain ⟨-,hcalls⟩ := TaskRbuffer.step_calls ho h
  rw [executed_of_ne h hb, hx, List.nil_append] at hcalls
  cases hy : y.consumer with
  | idle =>
    rw [hy] at hcalls
    cases hcalls
  | running task' =>
    rw [hy] at hcalls
    obtain ⟨rfl,-⟩ := List.cons.inj hcalls
    rfl

end Ring

/-! ## One action -/

theorem resolves_append (l l' : List Task) : resolves (l ++ l') = resolves l ++ resolves l' := by
  simp [resolves]

/-- Who adds what to the queue of the server thread. -/
theorem add_cases {thread : ℕ} {task : Task} (h : serverTaskMay s (.add thread task) = true) :
    (thread = dbThread ∧ ∃ n, task = internalResolveLogin n ∧ s.answered = false ∧
      s.dbTasks.consumer = .running (databaseResolveLogin n)) ∨
    (thread ≠ dbThread ∧ isResolve task = false) := by
  simp only [serverTaskMay] at h
  split at h
  case isTrue hdb =>
    simp only [Bool.decide_and, Bool.and_eq_true, decide_eq_true_eq] at h
    exact .inl ⟨hdb,task.arg,h.1,h.2.1,h.2.2⟩
  case isFalse hdb => exact .inr ⟨hdb,by simpa using h⟩

theorem resolves_other {task : Task} (h : isResolve task = false) : resolves [task] = [] := by
  rw [resolves, List.filter_cons_of_neg (by simp [h])]
  rfl

theorem accepted_added (thread : ℕ) (task : Task) : accepted [.added thread task] = [task] := rfl

theorem addsAnswer_added (thread : ℕ) (task : Task) :
    [TaskDbuffer.Event.added thread task].any addsAnswer = decide (thread = dbThread) := by
  simp [addsAnswer]

/-- The answer that the database thread adds is the one to its login. -/
theorem Handling.serverTask {b : TaskDbuffer.Action} {u : TaskDbuffer.State}
    {gs : List TaskDbuffer.Event} (hi : Handling s) (hmay : serverTaskMay s b = true)
    (hb : TaskDbuffer.step s.serverTasks b = some (u,gs)) (ht : t = { s with
      serverTasks := u
      swapped := s.swapped || decide (b = .swap)
      answered := s.answered || gs.any addsAnswer }) :
    Handling t ∧ answering s ++ resolves (accepted gs) = answering t := by
  obtain ⟨ha,hi⟩ := hi
  have hactive : u.db.active = true := by
    rw [step_active hb, ha]
    rintro rfl
    cases hmay
  subst ht
  obtain ⟨hnone,hany,hperm⟩ | ⟨k,rfl,hfree,rfl,hperm⟩ | ⟨thread,task,rfl,hfree,rfl,hperm⟩ |
    ⟨k,rfl,hperm⟩ := step_sleepers ha hb
  · simp only [Handling, answering, hnone, hany, Bool.or_false]
    exact ⟨⟨hactive,hi.perm hperm⟩,List.append_nil _⟩
  · simp only [Handling, answering, List.any_nil, Bool.or_false]
    refine ⟨⟨hactive,Answering.perm ?_ hperm⟩,List.append_nil _⟩
    rcases add_cases hmay with ⟨hdb,n,htask,hans,hrun⟩ | ⟨hdb,htask⟩
    · rw [hans] at hi ⊢
      exact hi.waits (fun l hl => decide_eq_false (hdb ▸ hfree l hl)) (decide_eq_true hdb)
        htask hrun
    · exact hi.other (decide_eq_false hdb) htask
  · simp only [Handling, answering, addsAnswer_added, accepted_added, hperm]
    rcases add_cases hmay with ⟨rfl,n,rfl,hans,hrun⟩ | ⟨hdb,htask⟩
    · rw [hans] at hi
      simp only [hans, hrun, Bool.false_or, decide_true, if_true]
      exact ⟨⟨hactive,hrun ▸ hi.queued (fun l hl => decide_eq_false (hfree l hl)) hrun⟩,rfl⟩
    · simp only [decide_eq_false hdb, Bool.or_false, resolves_other htask, List.append_nil]
      exact ⟨⟨hactive,hi⟩,trivial⟩
  · have hi := hi.perm hperm.symm
    simp only [Handling, answering, addsAnswer_added, accepted_added]
    cases hdb : fromDb k with
    | true =>
      obtain ⟨hans,halone⟩ := hi.alone hdb
      obtain ⟨n,htask,hrun⟩ := hi.login k List.mem_cons_self hdb
      have hthread : k.thread = dbThread := of_decide_eq_true hdb
      rw [hans] at hi
      simp only [hans, hrun, htask, hthread, Bool.false_or, decide_true, if_true]
      exact ⟨⟨hactive,hrun ▸ hi.tail.queued halone hrun⟩,rfl⟩
    | false =>
      have hthread : ¬ k.thread = dbThread := of_decide_eq_false hdb
      have htask := hi.others k List.mem_cons_self hdb
      simp only [hthread, decide_false, Bool.or_false, resolves_other htask, List.append_nil]
      exact ⟨⟨hactive,hi.tail⟩,trivial⟩

theorem Handling.dbTask {b : TaskRbuffer.Action} {u : TaskRbuffer.State}
    {gs : List TaskRbuffer.Event} (hi : Handling s) (ho : TaskRbuffer.OnePlace s.dbTasks)
    (hmay : dbTaskMay s b = true) (hb : TaskRbuffer.step s.dbTasks b = some (u,gs))
    (ht : t = { s with dbTasks := u, answered := s.answered && !decide (b = .execute) }) :
    Handling t ∧ answering s = (TaskRbuffer.executed gs).map Task.arg ++ answering t := by
  obtain ⟨ha,hi⟩ := hi
  subst ht
  by_cases hreturn : b = .execute
  · subst hreturn
    have hans : s.answered = true := hmay
    obtain ⟨n,hrun⟩ := hi.running hans
    rw [hans] at hi
    simp only [TaskRbuffer.step, hrun, Option.some.injEq, Prod.mk.injEq] at hb
    obtain ⟨rfl,rfl⟩ := hb
    simp only [Handling, answering, hans, hrun, decide_true, Bool.not_true, Bool.and_false]
    exact ⟨⟨ha,hi.returned⟩,rfl⟩
  · have hkept (task : Task) : s.dbTasks.consumer = .running task → u.consumer = .running task :=
      consumer_kept ho hb hreturn
    simp only [Handling, answering, hreturn, decide_false, Bool.not_false, Bool.and_true,
      executed_of_ne hb hreturn, List.map_nil, List.nil_append]
    refine ⟨⟨ha,hi.kept hkept⟩,?_⟩
    cases hans : s.answered with
    | false => rfl
    | true =>
      obtain ⟨n,hrun⟩ := hi.running hans
      rw [hrun, hkept _ hrun]

theorem Handling.step (hi : Handling s) (ho : TaskRbuffer.OnePlace s.dbTasks)
    (h : step s a = some (t,fs)) : Handling t ∧
      answering s ++ resolves (accepted (fs.filterMap Event.serverTask?)) =
        (TaskRbuffer.executed (fs.filterMap Event.dbTask?)).map Task.arg ++ answering t := by
  obtain ⟨b,u,gs,rfl,hmay,hb,rfl,rfl⟩ | ⟨b,u,gs,rfl,hmay,hb,rfl,rfl⟩ |
    ⟨b,u,gs,rfl,hmay,hb,rfl,rfl⟩ | ⟨b,u,gs,rfl,hmay,hb,rfl,rfl⟩ | ⟨rfl,hframe,hcount,rfl,rfl⟩ :=
    step_cases h
  · have hkept : Handling { afterServer s b with server := u } ∧
        answering { afterServer s b with server := u } = answering s := by
      cases b <;> exact ⟨hi,rfl⟩
    refine ⟨hkept.1,?_⟩
    rw [hkept.2]
    simp [Event.serverTask?,Event.dbTask?,List.filterMap_map,Function.comp_def,TaskRbuffer.executed]
  · have hserver := hi.serverTask hmay hb rfl
    simpa [Event.serverTask?,Event.dbTask?,List.filterMap_map,Function.comp_def,
      TaskRbuffer.executed] using hserver
  · refine ⟨hi,?_⟩
    change answering s ++ _ = _ ++ answering s
    simp [Event.serverTask?,Event.dbTask?,List.filterMap_map,Function.comp_def,TaskRbuffer.executed]
  · have hdb := hi.dbTask ho hmay hb rfl
    simpa [Event.serverTask?,Event.dbTask?,List.filterMap_map,Function.comp_def] using hdb
  · exact ⟨hi,List.append_nil _⟩

/-! ## Whole runs -/

variable {slots slots' : ℕ → Task} {buffer : UInt32 → Task}

theorem run_popped (hr : Run (FiresWhen InTurn step) (gameInit slots slots' buffer) es t) :
    TaskRbuffer.OnePlace t.dbTasks ∧ TaskRbuffer.popped (es.filterMap Event.dbTask?) =
      TaskRbuffer.executed (es.filterMap Event.dbTask?) ++ t.dbTasks.consumer.taken := by
  have hone : TaskRbuffer.OnePlace (gameInit slots slots' buffer).dbTasks := Nat.zero_le 1
  exact TaskRbuffer.run_calls hone (run_dbTasks hr)

theorem run_pushed (hr : Run (FiresWhen InTurn step) (gameInit slots slots' buffer) es t) :
    TaskRbuffer.pushed (es.filterMap Event.dbTask?) =
      TaskRbuffer.popped (es.filterMap Event.dbTask?) ++ TaskRbuffer.stored t.dbTasks.rb := by
  have hring : TaskRbuffer.Ring 10 (gameInit slots slots' buffer).dbTasks.rb :=
    TaskRbuffer.fresh_ring buffer rfl
  have hq := BoundedQueue.run_conserves (TaskRbuffer.run_refines hring (run_dbTasks hr)).2
  have hempty : TaskRbuffer.stored (gameInit slots slots' buffer).dbTasks.rb = [] :=
    TaskRbuffer.stored_fresh maxDbTasks buffer
  rwa [hempty, List.nil_append, TaskRbuffer.puts_queueEvent, TaskRbuffer.takes_queueEvent] at hq

/-- The answers added so far are those to the logins whose tasks have returned, and the one to
the login at hand. -/
theorem run_answering (hr : Run (FiresWhen InTurn step) (gameInit slots slots' buffer) es t) :
    Handling t ∧ resolves (accepted (es.filterMap Event.serverTask?)) =
      (TaskRbuffer.executed (es.filterMap Event.dbTask?)).map Task.arg ++ answering t := by
  have hall : Run (FiresWhen InTurn step) (gameInit slots slots' buffer) es t ∧ Handling t ∧
      resolves (accepted (es.filterMap Event.serverTask?)) =
        (TaskRbuffer.executed (es.filterMap Event.dbTask?)).map Task.arg ++ answering t := by
    refine hr.traced (I := fun es t =>
      Run (FiresWhen InTurn step) (gameInit slots slots' buffer) es t ∧ Handling t ∧
        resolves (accepted (es.filterMap Event.serverTask?)) =
          (TaskRbuffer.executed (es.filterMap Event.dbTask?)).map Task.arg ++ answering t)
      ⟨.start,?_,rfl⟩ ?_
    · refine ⟨rfl,Nat.zero_le 1,fun k hk => ?_,fun k hk => ?_,fun h => ?_⟩
      · cases hk
      · cases hk
      · cases h
    · rintro es s fs t ⟨hrun,hi,hlink⟩ ⟨a,hturn,ha⟩
      obtain ⟨hi',hstep⟩ := hi.step (run_popped hrun).1 ha
      refine ⟨hrun.step ⟨a,hturn,ha⟩,hi',?_⟩
      have hdb : TaskRbuffer.executed (es.filterMap Event.dbTask? ++ fs.filterMap Event.dbTask?) =
          _ ++ _ := List.filterMap_append
      rw [List.filterMap_append, List.filterMap_append, accepted_append, resolves_append, hlink,
        List.append_assoc, hstep, hdb, List.map_append, List.append_assoc]
      rfl
  exact hall.2

theorem answering_append (s : State) : s.dbTasks.consumer.taken.map Task.arg =
    answering s ++ if s.answered then [] else s.dbTasks.consumer.taken.map Task.arg := by
  rw [answering]
  split <;> simp

/-- Two logins. The first is answered in a frame, the second has not been looked at. -/
def twoLogins : List Action := [.dbTask (.push 1 (databaseResolveLogin 5) none),
  .dbTask (.push 1 (databaseResolveLogin 6) none),.dbTask (.runOne none),
  .serverTask (.add dbThread (internalResolveLogin 5)),.dbTask .execute,.server .top,
  .server (.serverExec serverMaintenanceRoutine),.server (.dequeue 1),.server .complete,
  .server .top,.serverTask .swap,.serverTask .execute,.server .runTask]

end Kaplar.Game
