import Kaplar.Foundation.Requests
import Kaplar.Game.Game

/-! # Frames

The slot of `server_exec` may be written over by the next frame. All frames write the same
task, which hands over whatever is queued, so that nothing is lost by it.
-/
namespace Kaplar.Game
open Execution Server Requests
variable {s t : State} {a : Action} {es fs : List Event}

def asksMaintenance : Event → Prop
  | .server (.exec _ _) => True
  | _ => False

/-- The maintenance is in the slot, or the routine runs and has not swapped. -/
def Due (s : State) : Prop :=
  s.server.task ≠ none ∨ inRoutine s.server.thread = true ∧ s.swapped = false

/-- Which thread is at a batch. -/
structure Busy (s : State) : Prop where
  swapped : s.swapped = true → inRoutine s.server.thread = true
  server : 0 < s.serverTasks.runner.count → s.swapped = true
  game : 0 < s.gameTasks.runner.count → s.frame = .running

structure Attended (es : List Event) (t : State) : Prop where
  /-- the tasks are run in the order of the adds, none of them twice -/
  serverOrder :
    executed (es.filterMap Event.serverTask?) <+: accepted (es.filterMap Event.serverTask?)
  gameOrder : executed (es.filterMap Event.gameTask?) <+: accepted (es.filterMap Event.gameTask?)
  /-- tasks queued before a call of `server_exec` are run, or the routine is to come or at work -/
  requested : ∀ pre task clear post, es = pre ++ .server (.exec task clear) :: post →
    t.server.task ≠ none ∨ inRoutine t.server.thread = true ∨
      accepted (pre.filterMap Event.serverTask?) <+: executed (es.filterMap Event.serverTask?)
  signalled : t.server.running = true → t.server.task ≠ none →
    0 < t.server.interrupts ∨ t.server.thread.returns
  /-- a frame runs the tasks that were queued before its swap -/
  framed : ∀ pre post, es = pre ++ .gameTask .swapped :: post → t.frame = .running ∨
    accepted (pre.filterMap Event.gameTask?) <+: executed (es.filterMap Event.gameTask?)

/-! ## One action -/

/-- A routine is left by its return only. -/
theorem inRoutine_kept {x y : ExecState} {b : ExecAction} {gs : List ExecEvent}
    (h : execStep x b = some (y,gs)) (hb : b ≠ .runTask) (hx : inRoutine x.thread = true) :
    inRoutine y.thread = true := by
  obtain ⟨task,htask⟩ : ∃ task, x.thread = .running task := by
    cases hthread : x.thread <;> simp_all [inRoutine]
  cases b with
  | runTask => exact absurd rfl hb
  | serverExec task =>
    have hy := congrArg Prod.fst (Option.some.inj h)
    have hsame : (serverExec x task).1.thread = x.thread := by
      rw [serverExec]
      split <;> rfl
    rw [← show (serverExec x task).1 = y from hy, hsame, htask]
    rfl
  | serverShutdown =>
    cases h
    rw [htask]
    rfl
  | _ => simp [execStep,htask] at h

theorem runner_kept {x y : TaskDbuffer.State} {b : TaskDbuffer.Action}
    {gs : List TaskDbuffer.Event} (h : TaskDbuffer.step x b = some (y,gs)) (hb : b ≠ .swap)
    (hy : 0 < y.runner.count) : 0 < x.runner.count := by
  obtain ⟨thread,task,rfl,_,rfl,rfl⟩ | ⟨k,cv,rfl,_,rfl,rfl⟩ | ⟨rfl,h0,rfl,rfl⟩ |
    ⟨rfl,hp,rfl,rfl⟩ | ⟨rfl,rfl,rfl⟩ := TaskDbuffer.step_cases h
  · exact hy
  · exact hy
  · exact absurd rfl hb
  · exact hp
  · exact hy

theorem Busy.step (hi : Busy s) (h : step s a = some (t,fs)) : Busy t := by
  obtain ⟨b,u,gs,rfl,hmay,hb,rfl,rfl⟩ | ⟨b,u,gs,rfl,hmay,hb,rfl,rfl⟩ |
    ⟨b,u,gs,rfl,hmay,hb,rfl,rfl⟩ | ⟨b,u,gs,rfl,hmay,hb,rfl,rfl⟩ | ⟨rfl,hframe,hcount,rfl,rfl⟩ :=
    step_cases h
  · by_cases hreturn : b = .runTask
    · subst hreturn
      simp only [serverMay, Bool.decide_and, Bool.decide_eq_true, Bool.and_eq_true,
        decide_eq_true_eq] at hmay
      refine ⟨fun hs => absurd hs Bool.false_ne_true,fun hcount => ?_,hi.game⟩
      exact absurd hcount (by simp [afterServer,hmay.2])
    · have hkept := inRoutine_kept hb hreturn
      cases b with
      | runTask => exact absurd rfl hreturn
      | serverExec task =>
        have hframe : s.frame = .start := by
          simp only [serverMay, Bool.decide_and, Bool.and_eq_true, decide_eq_true_eq] at hmay
          exact hmay.1
        refine ⟨fun hs => hkept (hi.swapped hs),hi.server,fun hcount => ?_⟩
        have hrunning := hi.game hcount
        rw [hframe] at hrunning
        cases hrunning
      | _ => exact ⟨fun hs => hkept (hi.swapped hs),hi.server,hi.game⟩
  · by_cases hswap : b = .swap
    · subst hswap
      simp only [serverTaskMay, Bool.decide_and, Bool.decide_eq_true, Bool.and_eq_true] at hmay
      exact ⟨fun _ => hmay.1,fun _ => by simp,hi.game⟩
    · refine ⟨fun hs => ?_,fun hcount => ?_,hi.game⟩
      · exact hi.swapped (by simpa [hswap] using hs)
      · simp [hi.server (runner_kept hb hswap hcount)]
  · by_cases hswap : b = .swap
    · exact ⟨hi.swapped,hi.server,fun _ => if_pos hswap⟩
    · refine ⟨hi.swapped,hi.server,fun hcount => ?_⟩
      exact (if_neg hswap).trans (hi.game (runner_kept hb hswap hcount))
  · exact ⟨hi.swapped,hi.server,hi.game⟩
  · exact ⟨hi.swapped,hi.server,fun h0 => absurd h0 (by simp [hcount])⟩

/-- A task stays in the slot until the thread takes it at the top of its loop. -/
theorem task_kept {x y : ExecState} {b : ExecAction} {gs : List ExecEvent}
    (h : execStep x b = some (y,gs)) (hx : x.task ≠ none) :
    y.task ≠ none ∨ x.thread = .top ∧ inRoutine y.thread = true := by
  obtain ⟨task,_,rfl,rfl⟩ | ⟨task,_,rfl,rfl⟩ | ⟨ht,_,rfl,rfl⟩ | ⟨ht,_,rfl,rfl⟩ |
    ⟨task,ht,rfl,rfl⟩ | ⟨n,ht,_,rfl,rfl⟩ | ⟨interrupt,ht,rfl,rfl⟩ | ⟨ht,rfl,rfl⟩ | ⟨rfl,rfl⟩ :=
    execStep_cases h
  · exact .inl (Option.some_ne_none task)
  · exact .inl hx
  · obtain ⟨task,htask⟩ := Option.ne_none_iff_exists'.mp hx
    refine .inr ⟨ht,?_⟩
    rw [htask]
    rfl
  all_goals exact .inl hx

def swapsServerTasks : Event → Prop
  | .serverTask .swapped => True
  | _ => False

/-- What is due stays so until the buffers are swapped. -/
theorem Due.step (hi : Busy s) (hd : Due s) (h : step s a = some (t,fs)) :
    Due t ∨ ∃ e ∈ fs, swapsServerTasks e := by
  obtain ⟨b,u,gs,rfl,hmay,hb,rfl,rfl⟩ | ⟨b,u,gs,rfl,hmay,hb,rfl,rfl⟩ |
    ⟨b,u,gs,rfl,hmay,hb,rfl,rfl⟩ | ⟨b,u,gs,rfl,hmay,hb,rfl,rfl⟩ | ⟨rfl,hframe,hcount,rfl,rfl⟩ :=
    step_cases h
  · left
    have hswapped : s.swapped = false → (afterServer s b).swapped = false := by
      intro hs
      cases b <;> first | exact hs | rfl
    rcases hd with htask | ⟨hroutine,hs⟩
    · rcases task_kept hb htask with hkept | ⟨htop,hroutine⟩
      · exact .inl hkept
      · refine .inr ⟨hroutine,hswapped ?_⟩
        apply Bool.eq_false_iff.mpr
        intro hs
        have hbusy := hi.swapped hs
        rw [htop] at hbusy
        cases hbusy
    · have hreturn : b ≠ .runTask := by
        rintro rfl
        simp only [serverMay, Bool.decide_and, Bool.decide_eq_true, Bool.and_eq_true] at hmay
        rw [hs] at hmay
        exact Bool.false_ne_true hmay.1
      exact .inr ⟨inRoutine_kept hb hreturn hroutine,hswapped hs⟩
  · by_cases hswap : b = .swap
    · subst hswap
      right
      obtain ⟨_,_,heq,_⟩ | ⟨_,_,heq,_⟩ | ⟨_,_,_,rfl⟩ | ⟨heq,_⟩ | ⟨heq,_⟩ :=
        TaskDbuffer.step_cases hb
      · cases heq
      · cases heq
      · exact ⟨_,List.mem_singleton_self _,trivial⟩
      · cases heq
      · cases heq
    · left
      rcases hd with htask | ⟨hroutine,hs⟩
      · exact .inl htask
      · exact .inr ⟨hroutine,by simp [hs,hswap]⟩
  · exact .inl hd
  · exact .inl hd
  · exact .inl hd

theorem asks_answered (h : step s a = some (t,fs)) :
    Answered asksMaintenance swapsServerTasks (Due t) fs := by
  obtain ⟨b,u,gs,rfl,hmay,hb,rfl,rfl⟩ | ⟨b,u,gs,rfl,hmay,hb,rfl,rfl⟩ |
    ⟨b,u,gs,rfl,hmay,hb,rfl,rfl⟩ | ⟨b,u,gs,rfl,hmay,hb,rfl,rfl⟩ | ⟨rfl,hframe,hcount,rfl,rfl⟩ :=
    step_cases h
  · obtain ⟨task,_,rfl,rfl⟩ | ⟨task,_,rfl,rfl⟩ | ⟨ht,_,rfl,rfl⟩ | ⟨ht,_,rfl,rfl⟩ |
      ⟨task,ht,rfl,rfl⟩ | ⟨n,ht,_,rfl,rfl⟩ | ⟨interrupt,ht,rfl,rfl⟩ | ⟨ht,rfl,rfl⟩ | ⟨rfl,rfl⟩ :=
      execStep_cases hb
    · exact answered_of_due (.inl (Option.some_ne_none task))
    all_goals exact answered_of_silent (by simp [asksMaintenance])
  all_goals exact answered_of_silent (by simp [asksMaintenance])

/-! ## Whole runs -/

variable {slots slots' : ℕ → Task} {buffer : UInt32 → Task}

theorem run_busy (hr : Run (FiresWhen InTurn step) (gameInit slots slots' buffer) es t) :
    Busy t := by
  refine hr.invariant (I := Busy) ⟨fun h => ?_,fun h => ?_,fun h => ?_⟩ ?_
  · cases h
  · exact absurd h (Nat.lt_irrefl 0)
  · exact absurd h (Nat.lt_irrefl 0)
  · rintro s fs t hi ⟨a,-,ha⟩
    exact hi.step ha

theorem run_answered (hr : Run (FiresWhen InTurn step) (gameInit slots slots' buffer) es t) :
    Answered asksMaintenance swapsServerTasks (Due t) es := by
  have hboth : Busy t ∧ Answered asksMaintenance swapsServerTasks (Due t) es := by
    refine hr.traced (I := fun es t => Busy t ∧
      Answered asksMaintenance swapsServerTasks (Due t) es) ⟨run_busy .start,?_⟩ ?_
    · exact answered_of_silent (fun _ he => by cases he)
    · rintro es s fs t ⟨hi,hans⟩ ⟨a,-,ha⟩
      exact ⟨hi.step ha,hans.append (fun hd => hd.step hi ha) (asks_answered ha)⟩
  exact hboth.2

theorem mem_filterMap_serverTask {post : List Event} (h : ∃ e ∈ post, swapsServerTasks e) :
    TaskDbuffer.Event.swapped ∈ post.filterMap Event.serverTask? := by
  obtain ⟨e,he,hswap⟩ := h
  obtain rfl : e = .serverTask .swapped := by
    cases e with
    | serverTask e => cases e <;> first | rfl | exact absurd hswap id
    | _ => exact absurd hswap id
  exact List.mem_filterMap.mpr ⟨_,he,rfl⟩

/-- The server thread is at a batch of completions for two frames. The second call writes over
the first, and both tasks are run. -/
def slowBatch : List Action := [.server .top,.server (.dequeue 0),.serverTask (.add 5 ⟨7,7⟩),
  .server (.serverExec serverMaintenanceRoutine),.gameTask .swap,.frameEnd,
  .serverTask (.add 5 ⟨8,8⟩),.server (.serverExec serverMaintenanceRoutine),.server .complete,
  .server (.dequeue 2),.server .complete,.server .top,.serverTask .swap,.serverTask .execute,
  .serverTask .execute,.server .runTask]

end Kaplar.Game
