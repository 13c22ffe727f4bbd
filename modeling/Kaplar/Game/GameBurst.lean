import Kaplar.Game.GameInterlock

/-! # A burst of logins

While the server thread finds no interrupt among its completions nobody empties its queue. Enough
logins in this time, be it one in a batch, fill it with their answers and then the queue of the
database thread, and both threads wait.
-/
namespace Kaplar.Game
open Execution Server
variable {s t : State}

/-- The database thread inside the add that found no room. -/
def answerWaits (idx : Fin 2) : TaskDbuffer.Sleeper := ⟨dbThread,idx,internalResolveLogin 0⟩

/-- In the course of the burst: how many answers are queued and how many logins stored, and what
the database thread is at. -/
structure Burst (answers logins : ℕ) (c : TaskRbuffer.Consumer) (answered asleep : Bool)
    (s : State) : Prop where
  thread : s.server.thread = .batch false
  active : s.serverTasks.db.active = true
  maxTasks : s.serverTasks.db.maxTasks = maxServerTasks
  count : s.serverTasks.db.count s.serverTasks.db.writeIdx = answers
  sleepers : s.serverTasks.db.bufferFull.sleepers =
    if asleep then [answerWaits s.serverTasks.db.writeIdx] else []
  ringActive : s.dbTasks.rb.active = true
  mask : s.dbTasks.rb.indexMask = maxDbTasks - 1
  rbFull : s.dbTasks.rb.rbFull = .init
  rbEmpty : s.dbTasks.rb.rbEmpty = .init
  stored : s.dbTasks.rb.writepos - s.dbTasks.rb.readpos = UInt32.ofNat logins
  slot : logins = 1 → s.dbTasks.rb.buffer (s.dbTasks.rb.readpos &&& s.dbTasks.rb.indexMask) =
    databaseResolveLogin 0
  consumer : s.dbTasks.consumer = c
  answered : s.answered = answered

section Steps
variable {answers logins : ℕ} {c : TaskRbuffer.Consumer} {answered asleep : Bool}

theorem Burst.full_iff (h : Burst answers logins c answered asleep s) (hn : logins ≤ 1024) :
    TaskRbuffer.taskRbufferFull s.dbTasks.rb = true ↔ logins = 1024 := by
  have hsize : (UInt32.ofNat logins).toNat = logins := UInt32.toNat_ofNat_of_lt' (by
    rw [UInt32.size]
    omega)
  have hmask : (maxDbTasks - 1).toNat = 1023 := rfl
  rw [TaskRbuffer.taskRbufferFull, h.stored, h.mask, decide_eq_true_iff, gt_iff_lt,
    UInt32.lt_iff_toNat_lt, hsize, hmask]
  omega

theorem empty_iff {rb : TaskRbuffer.Rbuffer} :
    TaskRbuffer.taskRbufferEmpty rb = true ↔ rb.writepos - rb.readpos = 0 := by
  rw [TaskRbuffer.taskRbufferEmpty]
  grind

theorem Burst.free (h : Burst answers logins c answered asleep s) :
    ∀ k ∈ s.dbTasks.rb.rbFull.sleepers, k.thread ≠ serverThread := by
  rw [h.rbFull]
  exact fun k hk => by cases hk

theorem Burst.awake (h : Burst answers logins c answered asleep s) : waitsForDb s = false := by
  rw [waitsForDb, h.rbFull]
  rfl

theorem Burst.unlisted (h : Burst answers logins c answered false s) :
    ∀ k ∈ s.serverTasks.db.bufferFull.sleepers, k.thread ≠ dbThread := by
  rw [h.sleepers]
  exact fun k hk => by cases hk

end Steps

/-! ## The steps of the burst -/

theorem step_server {b : ExecAction} {u : ExecState} {gs : List ExecEvent}
    (hmay : serverMay s b = true) (hb : execStep s.server b = some (u,gs)) :
    step s (.server b) = some ({ afterServer s b with server := u },gs.map .server) := by
  rw [step, if_pos hmay, hb]
  rfl

theorem step_dbTask {b : TaskRbuffer.Action} {u : TaskRbuffer.State}
    {gs : List TaskRbuffer.Event} (hmay : dbTaskMay s b = true)
    (hb : TaskRbuffer.step s.dbTasks b = some (u,gs)) : step s (.dbTask b) =
      some ({ s with dbTasks := u, answered := s.answered && !decide (b = .execute) },
        gs.map .dbTask) := by
  rw [step, if_pos hmay, hb]
  rfl

theorem step_serverTask {b : TaskDbuffer.Action} {u : TaskDbuffer.State}
    {gs : List TaskDbuffer.Event} (hmay : serverTaskMay s b = true)
    (hb : TaskDbuffer.step s.serverTasks b = some (u,gs)) : step s (.serverTask b) =
      some ({ s with
        serverTasks := u
        swapped := s.swapped || decide (b = .swap)
        answered := s.answered || gs.any addsAnswer },gs.map .serverTask) := by
  rw [step, if_pos hmay, hb]
  rfl

/-- With room and nobody asleep on an empty ring a push stores its task at once. -/
theorem push_room {rb : TaskRbuffer.Rbuffer} {thread : ℕ} {task : Task} (ha : rb.active = true)
    (hf : TaskRbuffer.taskRbufferFull rb = false) (hw : rb.rbEmpty.waiting = []) :
    TaskRbuffer.taskRbufferPush rb thread task none =
      some (TaskRbuffer.store rb task,[.pushed thread task]) := by
  have hsignal : rb.rbEmpty.signal none = some rb.rbEmpty := by
    rw [Condvar.signal, hw]
    rfl
  rw [TaskRbuffer.taskRbufferPush, if_neg (by rw [ha]; decide), if_neg (by rw [hf]; decide),
    hsignal]
  split <;> rfl

theorem push_fires {x : TaskRbuffer.State} {rb : TaskRbuffer.Rbuffer} {thread : ℕ} {task : Task}
    {wakes : Option Unit} {gs : List TaskRbuffer.Event}
    (hfree : ∀ k ∈ x.rb.rbFull.sleepers, k.thread ≠ thread)
    (h : TaskRbuffer.taskRbufferPush x.rb thread task wakes = some (rb,gs)) :
    TaskRbuffer.step x (.push thread task wakes) = some ({ x with rb := rb },gs) := by
  rw [TaskRbuffer.step, if_pos hfree, h]
  rfl

/-- What is taken from a ring that is neither empty nor full. -/
theorem runOne_room {rb : TaskRbuffer.Rbuffer} (ha : rb.active = true)
    (he : TaskRbuffer.taskRbufferEmpty rb = false) (hf : TaskRbuffer.taskRbufferFull rb = false) :
    TaskRbuffer.taskRbufferRunOne rb none = some (TaskRbuffer.pop rb) := by
  rw [TaskRbuffer.taskRbufferRunOne, if_neg (by rw [ha]; decide), if_neg (by rw [he]; decide),
    if_neg (by rw [hf]; decide)]

/-- A thread that is not already inside an add may start one. -/
theorem add_fires {x : TaskDbuffer.State} {thread : ℕ} {task : Task}
    (hfree : ∀ k ∈ x.db.bufferFull.sleepers, k.thread ≠ thread) :
    TaskDbuffer.step x (.add thread task) =
      some ({ x with db := (TaskDbuffer.taskDbufferAdd x.db thread task).1 },
        (TaskDbuffer.taskDbufferAdd x.db thread task).2) := by
  rw [TaskDbuffer.step, if_pos hfree]

section Steps
variable {answers logins : ℕ} {c : TaskRbuffer.Consumer} {answered asleep : Bool}

/-- One more login, as long as there is room. -/
theorem burst_push (hn : logins < 1024) : Leads (FiresWhen Proper step)
    (Burst answers logins c answered asleep) (Burst answers (logins + 1) c answered asleep) := by
  refine .of_step (fun s h => ?_)
  have hroom : TaskRbuffer.taskRbufferFull s.dbTasks.rb = false := by
    rw [Bool.eq_false_iff, ne_eq, h.full_iff hn.le]
    omega
  have hpush : TaskRbuffer.taskRbufferPush s.dbTasks.rb serverThread (databaseResolveLogin 0)
      none = some _ := push_room h.ringActive hroom (by rw [h.rbEmpty]; rfl)
  have hb := push_fires h.free hpush
  have hproper : Proper s (.dbTask (.push serverThread (databaseResolveLogin 0) none)) :=
    ⟨trivial,rfl,false,h.thread⟩
  refine ⟨_,_,⟨_,hproper,step_dbTask rfl hb⟩,?_⟩
  exact
    { h with
      stored := by
        have hstored := h.stored
        rw [UInt32.ofNat_add, ← hstored]
        simp only [TaskRbuffer.store]
        grind
      slot := by
        intro hone
        have hsame : s.dbTasks.rb.readpos = s.dbTasks.rb.writepos := by
          have hstored := h.stored
          rw [Nat.succ.inj hone] at hstored
          grind
        simp only [TaskRbuffer.store, hsame, Function.update_self]
      answered := by
        rw [h.answered]
        exact Bool.and_true _ }

/-- The next batch of completions comes in. -/
theorem burst_batch : Leads (FiresWhen Proper step)
    (Burst answers logins c answered asleep) (Burst answers logins c answered asleep) := by
  have hcomplete : Leads (FiresWhen Proper step) (Burst answers logins c answered asleep)
      (fun s => s.server.thread = .working ∧
        Burst answers logins c answered asleep
          { s with server := { s.server with thread := .batch false } }) := by
    refine .of_step (fun s h => ?_)
    have hb : execStep s.server .complete = some ({ s.server with thread := .working },[]) := by
      rw [execStep, h.thread]
      rfl
    have hproper : Proper s (.server .complete) := ⟨trivial,h.awake⟩
    exact ⟨_,_,⟨_,hproper,step_server rfl hb⟩,rfl,{ h with thread := rfl }⟩
  refine hcomplete.trans (.of_step (fun s h => ?_))
  have hb : execStep s.server (.dequeue 0) =
      some ({ s.server with interrupts := s.server.interrupts - 0, thread := .batch false },[]) := by
    rw [execStep, h.1]
    exact if_pos (Nat.zero_le _)
  have hproper : Proper s (.server (.dequeue 0)) := ⟨trivial,h.2.awake⟩
  exact ⟨_,_,⟨_,hproper,step_server rfl hb⟩,{ h.2 with thread := rfl }⟩

/-- The database thread takes the login. -/
theorem burst_pop : Leads (FiresWhen Proper step) (Burst answers 1 .idle false false)
    (Burst answers 0 (.running (databaseResolveLogin 0)) false false) := by
  refine .of_step (fun s h => ?_)
  have hroom : TaskRbuffer.taskRbufferFull s.dbTasks.rb = false := by
    rw [Bool.eq_false_iff, ne_eq, h.full_iff (by decide)]
    decide
  have hsome : TaskRbuffer.taskRbufferEmpty s.dbTasks.rb = false := by
    rw [Bool.eq_false_iff, ne_eq, empty_iff, h.stored]
    decide
  have hpop := runOne_room h.ringActive hsome hroom
  have hidle : s.dbTasks.consumer = .idle ∧ s.dbTasks.rb.rbEmpty.sleepers = [] :=
    ⟨h.consumer,by rw [h.rbEmpty]; rfl⟩
  have hb : TaskRbuffer.step s.dbTasks (.runOne none) = some (TaskRbuffer.pop s.dbTasks.rb) := by
    rw [TaskRbuffer.step, if_pos hidle, hpop]
  have hproper : Proper s (.dbTask (.runOne none)) := ⟨trivial,trivial⟩
  refine ⟨_,_,⟨_,hproper,step_dbTask rfl hb⟩,?_⟩
  exact
    { h with
      stored := by
        have hstored := h.stored
        simp only [TaskRbuffer.load]
        grind
      slot := by
        intro hone
        cases hone
      consumer := congrArg TaskRbuffer.Consumer.running (h.slot rfl)
      answered := by
        rw [h.answered]
        rfl }

/-- It adds the answer, as long as there is room. -/
theorem burst_add (hn : answers < 1024) : Leads (FiresWhen Proper step)
    (Burst answers 0 (.running (databaseResolveLogin 0)) false false)
    (Burst (answers + 1) 0 (.running (databaseResolveLogin 0)) true false) := by
  refine .of_step (fun s h => ?_)
  have hmay : serverTaskMay s (.add dbThread (internalResolveLogin 0)) = true := by
    simp only [serverTaskMay, h.answered, h.consumer]
    decide
  have hroom : s.serverTasks.db.count s.serverTasks.db.writeIdx < s.serverTasks.db.maxTasks := by
    rw [h.count, h.maxTasks]
    exact hn
  obtain ⟨hfull,-,-⟩ | ⟨hoff,-⟩ | ⟨-,-,hadd⟩ := TaskDbuffer.addLoop_cases s.serverTasks.db
    ⟨dbThread,s.serverTasks.db.writeIdx,internalResolveLogin 0⟩
  · exact absurd hroom (Nat.not_lt_of_le hfull)
  · exact absurd (h.active.symm.trans hoff) (by decide)
  · have hb : TaskDbuffer.step s.serverTasks (.add dbThread (internalResolveLogin 0)) = some _ :=
      add_fires h.unlisted
    rw [TaskDbuffer.taskDbufferAdd, hadd] at hb
    have hproper : Proper s (.serverTask (.add dbThread (internalResolveLogin 0))) :=
      ⟨trivial,trivial⟩
    refine ⟨_,_,⟨_,hproper,step_serverTask hmay hb⟩,?_⟩
    exact
      { h with
        count := by
          simp only [Function.update_self, h.count]
        answered := by
          rw [h.answered]
          rfl }

/-- The login returns. -/
theorem burst_execute : Leads (FiresWhen Proper step)
    (Burst answers 0 (.running (databaseResolveLogin 0)) true false)
    (Burst answers 0 .idle false false) := by
  refine .of_step (fun s h => ?_)
  have hb : TaskRbuffer.step s.dbTasks .execute =
      some ({ s.dbTasks with consumer := .idle },[.executed (databaseResolveLogin 0)]) := by
    rw [TaskRbuffer.step, h.consumer]
  have hproper : Proper s (.dbTask .execute) := ⟨trivial,trivial⟩
  refine ⟨_,_,⟨_,hproper,step_dbTask h.answered hb⟩,?_⟩
  exact
    { h with
      consumer := rfl
      answered := by simp }

/-- Without room for the answer the database thread waits. -/
theorem burst_sleep : Leads (FiresWhen Proper step)
    (Burst 1024 0 (.running (databaseResolveLogin 0)) false false)
    (Burst 1024 0 (.running (databaseResolveLogin 0)) false true) := by
  refine .of_step (fun s h => ?_)
  have hmay : serverTaskMay s (.add dbThread (internalResolveLogin 0)) = true := by
    simp only [serverTaskMay, h.answered, h.consumer]
    decide
  have hfull : s.serverTasks.db.maxTasks ≤ s.serverTasks.db.count s.serverTasks.db.writeIdx := by
    rw [h.count, h.maxTasks]
    exact Nat.le_refl _
  obtain ⟨-,-,hadd⟩ | ⟨hoff,-⟩ | ⟨hroom,-⟩ := TaskDbuffer.addLoop_cases s.serverTasks.db
    ⟨dbThread,s.serverTasks.db.writeIdx,internalResolveLogin 0⟩
  · have hb : TaskDbuffer.step s.serverTasks (.add dbThread (internalResolveLogin 0)) = some _ :=
      add_fires h.unlisted
    rw [TaskDbuffer.taskDbufferAdd, hadd] at hb
    have hproper : Proper s (.serverTask (.add dbThread (internalResolveLogin 0))) :=
      ⟨trivial,trivial⟩
    refine ⟨_,_,⟨_,hproper,step_serverTask hmay hb⟩,?_⟩
    exact
      { h with
        sleepers := by
          apply List.perm_singleton.mp
          have hsleepers := h.sleepers
          exact (Condvar.perm_wait _ _).trans (by rw [hsleepers]; exact List.Perm.refl _)
        answered := by
          rw [h.answered]
          rfl }
  · exact absurd (h.active.symm.trans hoff) (by decide)
  · exact absurd hroom (Nat.not_lt_of_le hfull)

/-- Without room for a login the server thread waits too. -/
theorem burst_interlocks : Leads (FiresWhen Proper step)
    (Burst 1024 1024 (.running (databaseResolveLogin 0)) false true) Interlocked := by
  refine .of_step (fun s h => ?_)
  have hfull := (h.full_iff (Nat.le_refl _)).mpr rfl
  have hpush : TaskRbuffer.taskRbufferPush s.dbTasks.rb serverThread (databaseResolveLogin 0)
      none = some ({ s.dbTasks.rb with
        rbFull := s.dbTasks.rb.rbFull.wait ⟨serverThread,databaseResolveLogin 0⟩ },[]) := by
    rw [TaskRbuffer.taskRbufferPush, if_neg (by rw [h.ringActive]; decide), if_pos hfull]
  have hb := push_fires h.free hpush
  have hproper : Proper s (.dbTask (.push serverThread (databaseResolveLogin 0) none)) :=
    ⟨trivial,rfl,false,h.thread⟩
  refine ⟨_,_,⟨_,hproper,step_dbTask rfl hb⟩,?_,hfull,answerWaits s.serverTasks.db.writeIdx,?_,
    rfl,?_⟩
  · rw [waitsForDb_iff]
    exact ⟨_,(Condvar.perm_wait _ _).mem_iff.mpr List.mem_cons_self,rfl⟩
  · rw [h.sleepers]
    exact List.mem_singleton_self _
  · exact (h.maxTasks.trans h.count.symm).le

theorem burst_login (hn : answers < 1024) : Leads (FiresWhen Proper step)
    (Burst answers 0 .idle false false) (Burst (answers + 1) 0 .idle false false) :=
  burst_batch.trans ((burst_push (by decide)).trans
    (burst_pop.trans ((burst_add hn).trans burst_execute)))

theorem burst_all : Leads (FiresWhen Proper step) (Burst 0 0 .idle false false) Interlocked := by
  have hanswers : Leads (FiresWhen Proper step) (Burst 0 0 .idle false false)
      (Burst 1024 0 .idle false false) :=
    Leads.chain (P := fun n => Burst n 0 .idle false false) (fun _ hn => burst_login hn)
  have hlogins : Leads (FiresWhen Proper step)
      (Burst 1024 0 (.running (databaseResolveLogin 0)) false true)
      (Burst 1024 1024 (.running (databaseResolveLogin 0)) false true) :=
    Leads.chain (P := fun n => Burst 1024 n (.running (databaseResolveLogin 0)) false true)
      (fun _ hn => burst_batch.trans (burst_push hn))
  have hasleep : Leads (FiresWhen Proper step) (Burst 1024 0 .idle false false)
      (Burst 1024 0 (.running (databaseResolveLogin 0)) false true) :=
    burst_batch.trans ((burst_push (by decide)).trans (burst_pop.trans burst_sleep))
  exact hanswers.trans (hasleep.trans (hlogins.trans (burst_batch.trans burst_interlocks)))

end Steps

variable {slots slots' : ℕ → Task} {buffer : UInt32 → Task}

/-- The server thread comes to its first batch. -/
theorem burst_start : Leads (FiresWhen Proper step) (fun s => s = gameInit slots slots' buffer)
    (Burst 0 0 .idle false false) := by
  have hinit : waitsForDb (gameInit slots slots' buffer) = false := rfl
  have htop : Leads (FiresWhen Proper step) (fun s => s = gameInit slots slots' buffer)
      (fun s => s = { gameInit slots slots' buffer with server := ⟨true,none,0,.working⟩ }) := by
    refine .of_step ?_
    rintro s rfl
    exact ⟨[.server (.taken none)],_,⟨.server .top,⟨trivial,hinit⟩,rfl⟩,rfl⟩
  refine htop.trans (.of_step ?_)
  rintro s rfl
  refine ⟨[],_,⟨.server (.dequeue 0),⟨trivial,hinit⟩,rfl⟩,?_⟩
  exact
    { thread := rfl
      active := rfl
      maxTasks := rfl
      count := rfl
      sleepers := rfl
      ringActive := rfl
      mask := rfl
      rbFull := rfl
      rbEmpty := rfl
      stored := by
        change (0 : UInt32) - 0 = UInt32.ofNat 0
        decide
      slot := by
        intro hone
        cases hone
      consumer := rfl
      answered := rfl }

end Kaplar.Game
