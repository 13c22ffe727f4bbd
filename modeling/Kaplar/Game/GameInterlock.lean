import Kaplar.Game.GameRelay

/-! # Two threads that wait for each other

The server thread adds logins to the queue of the database thread and waits when it is full. The
database thread adds answers to the queue of the server thread and waits when that is full. Each
of them may come to wait for room that only the other one can make.
-/
namespace Kaplar.Game
open Execution Server

def serverThread : ℕ := 1

/-- The server thread is inside `db_add_task`. -/
def waitsForDb (s : State) : Bool :=
  s.dbTasks.rb.rbFull.sleepers.any (fun k => k.thread = serverThread)

/-- A thread does one thing at a time. Logins come in with a batch of completions, and nothing is
shut down: `game_run` does not return. -/
def OneAtATime (s : State) : Action → Prop
  | .server (.serverExec _) => True
  | .server .serverShutdown => False
  | .server _ => waitsForDb s = false
  | .serverTask .swap => waitsForDb s = false
  | .serverTask .execute => waitsForDb s = false
  | .dbTask (.push thread _ _) =>
    thread = serverThread ∧ ∃ interrupt, s.server.thread = .batch interrupt
  | .dbTask .setInactive => False
  | _ => True

def Proper (s : State) (a : Action) : Prop := InTurn s a ∧ OneAtATime s a

/-- What one of the two threads has done, apart from waiting. -/
def Moves : Event → Prop
  | .server (.taken _) => True
  | .server (.executed _) => True
  | .serverTask (.added thread _) => thread = dbThread
  | .serverTask (.refused thread _) => thread = dbThread
  | .serverTask .swapped => True
  | .serverTask (.executed _) => True
  | .gameTask _ => False
  | .dbTask _ => True
  | _ => False

structure Interlocked (s : State) : Prop where
  server : waitsForDb s = true
  ring : TaskRbuffer.taskRbufferFull s.dbTasks.rb = true
  db : ∃ k ∈ s.serverTasks.db.bufferFull.sleepers, fromDb k = true ∧
    s.serverTasks.db.maxTasks ≤ s.serverTasks.db.count k.idx

variable {s t : State} {a : Action} {es fs : List Event}

/-! ## One action -/

section Ring
variable {x y : TaskRbuffer.State} {b : TaskRbuffer.Action} {gs : List TaskRbuffer.Event}
  {task : Task}

/-- While the consumer is inside a task, a full ring stays as it is. -/
theorem ring_held (ho : TaskRbuffer.OnePlace x) (ha : x.rb.active = true)
    (hfull : TaskRbuffer.taskRbufferFull x.rb = true) (hx : x.consumer = .running task)
    (h : TaskRbuffer.step x b = some (y,gs)) (hreturn : b ≠ .execute) (hoff : b ≠ .setInactive)
    (hpush : ∀ thread task wakes, b = .push thread task wakes →
      ∃ k ∈ x.rb.rbFull.sleepers, k.thread = thread) :
    gs = [] ∧ y.rb.active = true ∧ TaskRbuffer.taskRbufferFull y.rb = true ∧
      y.rb.rbFull.sleepers.Perm x.rb.rbFull.sleepers := by
  obtain ⟨thread,task,wakes,rb,rfl,hfree,_,_⟩ | ⟨p,cv,rfl,hcv,rfl,rfl⟩ | ⟨wakes,rfl,hidle,_,_⟩ |
    ⟨cv,rfl,hcv,_⟩ | ⟨task,rfl,_⟩ | ⟨rfl,_⟩ := TaskRbuffer.step_cases h
  · obtain ⟨k,hk,hthread⟩ := hpush _ _ _ rfl
    exact absurd hthread (hfree k hk)
  · have hleft := Condvar.perm_resume hcv
    obtain ⟨_,_,he⟩ | ⟨hn,_⟩ | ⟨hn,_⟩ :=
      TaskRbuffer.pushWoken_cases { x.rb with rbFull := cv } p
    · rw [he]
      exact ⟨rfl,ha,hfull,(Condvar.perm_wait _ _).trans hleft.symm⟩
    · exact absurd (ha.symm.trans hn) (by decide)
    · exact absurd (hfull.symm.trans hn) (by decide)
  · rw [hx] at hidle
    cases hidle
  · have hlen := Condvar.resume_sleepers_length hcv
    have hplace : x.rb.rbEmpty.sleepers.length + x.consumer.taken.length ≤ 1 := ho
    rw [hx, TaskRbuffer.Consumer.taken, List.length_singleton] at hplace
    omega
  · exact absurd rfl hreturn
  · exact absurd rfl hoff

end Ring

section Buffers
variable {x y : TaskDbuffer.State} {b : TaskDbuffer.Action} {gs : List TaskDbuffer.Event}
  {k : TaskDbuffer.Sleeper} {answered : Bool} {c : TaskRbuffer.Consumer}

/-- Without a swap the half a sleeper waits for stays full. -/
theorem buffer_held (ha : x.db.active = true)
    (hans : Answering x.db.bufferFull.sleepers answered c) (hk : k ∈ x.db.bufferFull.sleepers)
    (hdb : fromDb k = true) (hfull : x.db.maxTasks ≤ x.db.count k.idx)
    (h : TaskDbuffer.step x b = some (y,gs)) (hswap : b ≠ .swap) (hexec : b ≠ .execute)
    (hoff : b ≠ .setInactive) :
    (k ∈ y.db.bufferFull.sleepers ∧ y.db.maxTasks ≤ y.db.count k.idx) ∧
      ∀ e ∈ gs, ¬ Moves (.serverTask e) := by
  have hmore (idx : Fin 2) : x.db.count k.idx ≤
      Function.update x.db.count idx (x.db.count idx + 1) k.idx := by
    by_cases hidx : k.idx = idx
    · rw [hidx, Function.update_self]
      exact Nat.le_succ _
    · rw [Function.update_of_ne hidx]
  obtain ⟨thread,task,rfl,hfree,rfl,rfl⟩ | ⟨k',cv,rfl,hcv,rfl,rfl⟩ | ⟨rfl,_⟩ | ⟨rfl,_⟩ | ⟨rfl,_⟩ :=
    TaskDbuffer.step_cases h
  · have hother : thread ≠ dbThread := fun hthread =>
      hfree k hk ((of_decide_eq_true hdb).trans hthread.symm)
    obtain ⟨_,_,he⟩ | ⟨hn,_⟩ | ⟨_,_,he⟩ :=
      TaskDbuffer.addLoop_cases x.db ⟨thread,x.db.writeIdx,task⟩
    · rw [he]
      refine ⟨⟨(Condvar.perm_wait _ _).mem_iff.mpr (List.mem_cons_of_mem _ hk),hfull⟩,?_⟩
      exact fun e he => by cases he
    · exact absurd (ha.symm.trans hn) (by decide)
    · rw [he]
      refine ⟨⟨hk,Nat.le_trans hfull (hmore _)⟩,?_⟩
      intro e he
      rw [List.mem_singleton.mp he]
      exact hother
  · have hleft := Condvar.perm_resume hcv
    obtain ⟨_,_,he⟩ | ⟨hn,_⟩ | ⟨hroom,_,he⟩ :=
      TaskDbuffer.addLoop_cases { x.db with bufferFull := cv } k'
    · rw [he]
      refine ⟨⟨?_,hfull⟩,fun e he => by cases he⟩
      exact ((Condvar.perm_wait _ _).trans hleft.symm).mem_iff.mpr hk
    · exact absurd (ha.symm.trans hn) (by decide)
    · rw [he]
      have hne : k ≠ k' := by
        rintro rfl
        exact absurd hroom (Nat.not_lt_of_le hfull)
      have hstay : k ∈ cv.sleepers :=
        (List.mem_cons.mp (hleft.mem_iff.mp hk)).resolve_left hne
      refine ⟨⟨hstay,Nat.le_trans hfull (hmore _)⟩,?_⟩
      intro e he
      rw [List.mem_singleton.mp he]
      -- the database thread waits in one place only
      intro hthread
      have hans' : Answering (k' :: cv.sleepers) answered c := hans.perm hleft.symm
      have halone := (hans'.alone (decide_eq_true hthread)).2 k hstay
      rw [hdb] at halone
      cases halone
  · exact absurd rfl hswap
  · exact absurd rfl hexec
  · exact absurd rfl hoff

end Buffers

/-- What is known of reachable states in which the threads wait for each other. -/
structure Held (s : State) : Prop where
  lock : Interlocked s
  handling : Handling s
  place : TaskRbuffer.OnePlace s.dbTasks
  active : s.dbTasks.rb.active = true

/-- The database thread is inside the task of a login whose answer is not queued. -/
theorem Interlocked.running (h : Interlocked s) (hi : Handling s) :
    s.answered = false ∧ ∃ n, s.dbTasks.consumer = .running (databaseResolveLogin n) := by
  obtain ⟨k,hk,hdb,-⟩ := h.db
  obtain ⟨n,-,hrun⟩ := hi.2.login k hk hdb
  have hans := hi.2.perm (List.perm_cons_erase hk).symm
  exact ⟨(hans.alone hdb).1,n,hrun⟩

theorem waitsForDb_iff : waitsForDb s = true ↔
    ∃ k ∈ s.dbTasks.rb.rbFull.sleepers, k.thread = serverThread := by
  simp [waitsForDb]

theorem Held.step (hi : Held s) (hone : OneAtATime s a) (h : step s a = some (t,fs)) :
    Held t ∧ ∀ e ∈ fs, ¬ Moves e := by
  have hwaits : waitsForDb s ≠ false := by rw [hi.lock.server]; decide
  have hhandling := (hi.handling.step hi.place h).1
  obtain ⟨hans,n,hrun⟩ := hi.lock.running hi.handling
  obtain ⟨b,u,gs,rfl,hmay,hb,rfl,rfl⟩ | ⟨b,u,gs,rfl,hmay,hb,rfl,rfl⟩ |
    ⟨b,u,gs,rfl,hmay,hb,rfl,rfl⟩ | ⟨b,u,gs,rfl,hmay,hb,rfl,rfl⟩ | ⟨rfl,hframe,hcount,rfl,rfl⟩ :=
    step_cases h
  · cases b with
    | serverExec task =>
      have hcall : ∀ e ∈ gs, ¬ Moves (.server e) := by
        simp only [execStep, Option.some.injEq, serverExec] at hb
        split at hb <;> cases hb <;> simp [Moves]
      refine ⟨⟨⟨hi.lock.server,hi.lock.ring,hi.lock.db⟩,hhandling,hi.place,hi.active⟩,?_⟩
      simpa using hcall
    | serverShutdown => exact absurd hone id
    | _ => exact absurd hone hwaits
  · have hcases : b ≠ .swap ∧ b ≠ .execute ∧ b ≠ .setInactive := by
      refine ⟨?_,?_,?_⟩
      · rintro rfl
        exact hwaits hone
      · rintro rfl
        exact hwaits hone
      · rintro rfl
        cases hmay
    obtain ⟨k,hk,hdb,hfull⟩ := hi.lock.db
    obtain ⟨⟨hk',hfull'⟩,hmoves⟩ := buffer_held hi.handling.1 hi.handling.2 hk hdb hfull hb
      hcases.1 hcases.2.1 hcases.2.2
    refine ⟨⟨⟨hi.lock.server,hi.lock.ring,k,hk',hdb,hfull'⟩,hhandling,hi.place,hi.active⟩,?_⟩
    simpa using hmoves
  · refine ⟨⟨⟨hi.lock.server,hi.lock.ring,hi.lock.db⟩,hhandling,hi.place,hi.active⟩,?_⟩
    simp [Moves]
  · have hreturn : b ≠ .execute := by
      rintro rfl
      rw [dbTaskMay, hans] at hmay
      cases hmay
    have hoff : b ≠ .setInactive := by
      rintro rfl
      exact hone
    obtain ⟨k,hk,hthread⟩ := waitsForDb_iff.mp hi.lock.server
    have hpush : ∀ thread task wakes, b = .push thread task wakes →
        ∃ k ∈ s.dbTasks.rb.rbFull.sleepers, k.thread = thread := by
      rintro thread task wakes rfl
      exact ⟨k,hk,hthread.trans hone.1.symm⟩
    obtain ⟨rfl,hactive,hring,hperm⟩ :=
      ring_held hi.place hi.active hi.lock.ring hrun hb hreturn hoff hpush
    have hplace := (TaskRbuffer.step_calls hi.place hb).1
    refine ⟨⟨⟨?_,hring,hi.lock.db⟩,hhandling,hplace,hactive⟩,fun e he => by cases he⟩
    exact waitsForDb_iff.mpr ⟨k,hperm.mem_iff.mpr hk,hthread⟩
  · exact ⟨⟨⟨hi.lock.server,hi.lock.ring,hi.lock.db⟩,hhandling,hi.place,hi.active⟩,
      fun e he => by cases he⟩

/-! ## Whole runs -/

variable {slots slots' : ℕ → Task} {buffer : UInt32 → Task}

theorem run_inTurn {s₀ : State} (hr : Run (FiresWhen Proper step) s₀ es t) :
    Run (FiresWhen InTurn step) s₀ es t :=
  hr.mono (fun _ _ _ ⟨a,hproper,ha⟩ => ⟨a,hproper.1,ha⟩)

/-- From then on neither of the two threads does anything. -/
theorem Held.run (hi : Held s) (hr : Run (FiresWhen Proper Game.step) s fs t) :
    Held t ∧ ∀ e ∈ fs, ¬ Moves e :=
  hr.emits hi (fun _ _ _ hi ⟨_,hproper,ha⟩ => hi.step hproper.2 ha)

theorem ring_active {b : TaskRbuffer.Action} {x y : TaskRbuffer.State}
    {gs : List TaskRbuffer.Event} (h : TaskRbuffer.step x b = some (y,gs))
    (hoff : b ≠ .setInactive) (ha : x.rb.active = true) : y.rb.active = true := by
  obtain ⟨thread,task,wakes,rb,_,_,hp,rfl⟩ | ⟨p,cv,_,_,rfl,rfl⟩ | ⟨wakes,_,hc,hs,hr⟩ |
    ⟨cv,_,hcv,he⟩ | ⟨task,_,_,rfl,_⟩ | ⟨rfl,_⟩ := TaskRbuffer.step_cases h
  · obtain ⟨_,rfl,rfl⟩ | ⟨_,_,rfl,rfl⟩ | ⟨_,_,rfl,⟨_,cv,_,rfl⟩ | ⟨_,rfl⟩⟩ :=
      TaskRbuffer.push_cases hp <;> exact ha
  · obtain ⟨_,_,he⟩ | ⟨_,he⟩ | ⟨_,_,he⟩ :=
      TaskRbuffer.pushWoken_cases { x.rb with rbFull := cv } p <;> rw [he] <;> exact ha
  · obtain ⟨_,rfl,rfl⟩ | ⟨_,_,rfl,rfl⟩ | ⟨_,_,cv,_,rfl,rfl⟩ := TaskRbuffer.runOne_cases hr <;>
      exact ha
  · obtain ⟨_,_,hr⟩ | ⟨_,hr⟩ | ⟨_,_,hr⟩ :=
      TaskRbuffer.runOneWoken_cases { x.rb with rbEmpty := cv }
    all_goals
      obtain ⟨rfl,rfl⟩ := Prod.mk.inj (he.trans hr)
      exact ha
  · exact ha
  · exact absurd rfl hoff

theorem run_active (hr : Run (FiresWhen Proper step) (gameInit slots slots' buffer) es t) :
    t.dbTasks.rb.active = true := by
  refine hr.invariant (I := fun s => s.dbTasks.rb.active = true) rfl ?_
  rintro s fs t ha ⟨a,⟨-,hone⟩,h⟩
  obtain ⟨b,u,gs,rfl,_,hb,rfl,rfl⟩ | ⟨b,u,gs,rfl,_,hb,rfl,rfl⟩ | ⟨b,u,gs,rfl,_,hb,rfl,rfl⟩ |
    ⟨b,u,gs,rfl,_,hb,rfl,rfl⟩ | ⟨rfl,_,_,rfl,rfl⟩ := step_cases h
  · cases b <;> exact ha
  · exact ha
  · exact ha
  · refine ring_active hb ?_ ha
    rintro rfl
    exact hone
  · exact ha

theorem Interlocked.held (h : Interlocked t)
    (hr : Run (FiresWhen Proper step) (gameInit slots slots' buffer) es t) : Held t where
  lock := h
  handling := (run_answering (run_inTurn hr)).1
  place := (run_popped (run_inTurn hr)).1
  active := run_active hr

/-- The ring is full of logins then, and one more is with the database thread. -/
theorem Interlocked.crowded (h : Interlocked t)
    (hr : Run (FiresWhen Proper step) (gameInit slots slots' buffer) es t) :
    maxDbTasks.toNat < (inFlight t).length := by
  have hring : TaskRbuffer.Ring 10 t.dbTasks.rb :=
    (TaskRbuffer.run_refines (TaskRbuffer.fresh_ring buffer rfl) (run_dbTasks (run_inTurn hr))).1
  have hstored : (TaskRbuffer.stored t.dbTasks.rb).length = 1024 := by
    rw [TaskRbuffer.length_stored]
    exact hring.full_iff.mp h.ring
  obtain ⟨hans,n,hrun⟩ := h.running (h.held hr).handling
  have hmax : maxDbTasks.toNat = 1024 := rfl
  rw [inFlight, hans, hrun, hmax]
  simp only [List.length_append, List.length_map, hstored, Bool.false_eq_true, if_false,
    TaskRbuffer.Consumer.taken, List.length_singleton]
  omega

end Kaplar.Game
