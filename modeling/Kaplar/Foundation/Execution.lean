import Mathlib.Data.List.Basic
import Mathlib.Logic.Relation

/-! # Executions of labelled transition relations

Every transition carries the list of events it emits. A run keeps the events of
all its transitions in order, so that an invariant may speak about the whole
history and not only about the state reached.
-/
namespace Kaplar.Execution
variable {σ τ α ε : Type*}

/-- Finite executions from a fixed start, with the events emitted on the way. -/
inductive Run (Step : σ → List ε → σ → Prop) (s₀ : σ) : List ε → σ → Prop
  | start : Run Step s₀ [] s₀
  | step {es fs : List ε} {s t : σ} : Run Step s₀ es s → Step s fs t → Run Step s₀ (es ++ fs) t

section Rules
variable {Step Step' : σ → List ε → σ → Prop} {s₀ s t : σ} {es fs : List ε}

/-- An invariant of single transitions is an invariant of runs. -/
theorem Run.invariant {I : σ → Prop} (hr : Run Step s₀ es t) (h₀ : I s₀)
    (hs : ∀ s fs t, I s → Step s fs t → I t) : I t := by
  induction hr with
  | start => exact h₀
  | step _ he ih => exact hs _ _ _ ih he

/-- The same for invariants that relate the state to the history so far. -/
theorem Run.traced {I : List ε → σ → Prop} (hr : Run Step s₀ es t) (h₀ : I [] s₀)
    (hs : ∀ es s fs t, I es s → Step s fs t → I (es ++ fs) t) : I es t := by
  induction hr with
  | start => exact h₀
  | step _ he ih => exact hs _ _ _ _ ih he

/-- A condition under which every transition emits harmless events and which it keeps. -/
theorem Run.emits {I : σ → Prop} {P : ε → Prop} (hr : Run Step s₀ es t) (h₀ : I s₀)
    (hs : ∀ s fs t, I s → Step s fs t → I t ∧ ∀ e ∈ fs, P e) : I t ∧ ∀ e ∈ es, P e := by
  induction hr with
  | start => exact ⟨h₀,nofun⟩
  | step _ he ih =>
    obtain ⟨hi,hes⟩ := ih
    obtain ⟨hi',hfs⟩ := hs _ _ _ hi he
    exact ⟨hi',List.forall_mem_append.mpr ⟨hes,hfs⟩⟩

theorem Run.mono (hr : Run Step s₀ es t) (h : ∀ s fs t, Step s fs t → Step' s fs t) :
    Run Step' s₀ es t := by
  induction hr with
  | start => exact .start
  | step _ he ih => exact ih.step (h _ _ _ he)

/-- An invariant and an abstraction that maps every transition to one of another
relation map every run to one of it. -/
theorem Run.simulate {δ : Type*} {Step₁ : τ → List δ → τ → Prop} {I : σ → Prop} (abs : σ → τ)
    (view : ε → Option δ) (hr : Run Step s₀ es t) (h₀ : I s₀)
    (hs : ∀ s fs t, I s → Step s fs t → I t ∧ Step₁ (abs s) (fs.filterMap view) (abs t)) :
    I t ∧ Run Step₁ (abs s₀) (es.filterMap view) (abs t) := by
  induction hr with
  | start => exact ⟨h₀,.start⟩
  | step _ he ih =>
    obtain ⟨hi,hr⟩ := ih
    obtain ⟨hi',hs'⟩ := hs _ _ _ hi he
    rw [List.filterMap_append]
    exact ⟨hi',hr.step hs'⟩

/-- One component of a system. The transitions of the others are not noticed there. -/
theorem Run.project {δ : Type*} {Step₁ : τ → List δ → τ → Prop} (proj : σ → τ)
    (view : ε → Option δ) (hr : Run Step s₀ es t)
    (hs : ∀ s fs t, Step s fs t → Step₁ (proj s) (fs.filterMap view) (proj t) ∨
      fs.filterMap view = [] ∧ proj t = proj s) :
    Run Step₁ (proj s₀) (es.filterMap view) (proj t) := by
  induction hr with
  | start => exact .start
  | step _ he ih =>
    rw [List.filterMap_append]
    rcases hs _ _ _ he with hstep | ⟨hnil,hproj⟩
    · exact ih.step hstep
    · rwa [hnil, List.append_nil, hproj]

theorem Run.trans (hr : Run Step s₀ es s) (hr' : Run Step s fs t) : Run Step s₀ (es ++ fs) t := by
  induction hr' with
  | start => simpa using hr
  | step _ he ih => simpa [List.append_assoc] using ih.step he

end Rules

/-- The transitions of an executable step function, whatever action is chosen. -/
def Fires (step : σ → α → Option (σ × List ε)) (s : σ) (es : List ε) (t : σ) : Prop :=
  ∃ a, step s a = some (t,es)

/-- The transitions whose action meets a condition in the state it is taken in. -/
def FiresWhen (C : σ → α → Prop) (step : σ → α → Option (σ × List ε))
    (s : σ) (es : List ε) (t : σ) : Prop := ∃ a, C s a ∧ step s a = some (t,es)

/-- Replays a list of actions, collecting the events; used to exhibit concrete runs. -/
def replay (step : σ → α → Option (σ × List ε)) : σ → List α → Option (σ × List ε)
  | s, [] => some (s,[])
  | s, a :: as => do
    let (t,es) ← step s a
    let (u,fs) ← replay step t as
    pure (u,es ++ fs)

/-- Where a list of actions leads to. -/
def stateAfter (step : σ → α → Option (σ × List ε)) (s : σ) (as : List α) : σ :=
  as.foldl (fun s a => ((step s a).map Prod.fst).getD s) s

/-- One action after the other, each of them as it should be and none of them failing. -/
def Meets (C : σ → α → Prop) (step : σ → α → Option (σ × List ε)) : List α → σ → Prop
  | [], _ => True
  | a :: as, s => C s a ∧ (step s a).isSome = true ∧ Meets C step as (stateAfter step s [a])

theorem Meets.run {C : σ → α → Prop} {step : σ → α → Option (σ × List ε)} {s : σ} {as : List α}
    (hm : Meets C step as s) : ∃ es, Run (FiresWhen C step) s es (stateAfter step s as) := by
  induction as generalizing s with
  | nil => exact ⟨[],.start⟩
  | cons a as ih =>
    obtain ⟨hc,hsome,hrest⟩ := hm
    obtain ⟨⟨t,es⟩,hstep⟩ := Option.isSome_iff_exists.mp hsome
    have ht : stateAfter step s [a] = t := by
      show ((step s a).map Prod.fst).getD s = t
      rw [hstep]
      rfl
    obtain ⟨fs,hrun⟩ := ih hrest
    have hfirst : Run (FiresWhen C step) s ([] ++ es) (stateAfter step s [a]) :=
      Run.start.step ⟨a,hc,ht ▸ hstep⟩
    exact ⟨_,hfirst.trans hrun⟩

/-- A replay whose events and part of whose last state have been computed. -/
theorem replay_view {β : Type*} {step : σ → α → Option (σ × List ε)} (f : σ → β) {s : σ}
    {as : List α} (b : β) (es : List ε)
    (h : (replay step s as).map (fun p => (f p.1,p.2)) = some (b,es)) :
    ∃ t, replay step s as = some (t,es) ∧ f t = b := by
  obtain ⟨⟨t,fs⟩,hp,he⟩ := Option.map_eq_some_iff.mp h
  obtain ⟨rfl,rfl⟩ := Prod.mk.inj he
  exact ⟨t,hp,rfl⟩

theorem replay_run {step : σ → α → Option (σ × List ε)} {s t : σ} {as : List α} {es : List ε}
    (h : replay step s as = some (t,es)) : Run (Fires step) s es t := by
  induction as generalizing s es with
  | nil =>
    simp only [replay, Option.some.injEq, Prod.mk.injEq] at h
    obtain ⟨rfl,rfl⟩ := h
    exact .start
  | cons a as ih =>
    simp only [replay, Option.bind_eq_bind, Option.bind_eq_some_iff, Option.pure_def,
      Option.some.injEq, Prod.mk.injEq, Prod.exists] at h
    obtain ⟨u,fs,hu,v,gs,hv,rfl,rfl⟩ := h
    have h₁ : Run (Fires step) s ([] ++ fs) u := Run.start.step ⟨a,hu⟩
    exact Run.trans (by simpa using h₁) (ih hv)

/-- The same for runs all of whose actions meet a decidable condition. -/
theorem replay_runWhen {C : σ → α → Prop} [∀ s a, Decidable (C s a)]
    {step : σ → α → Option (σ × List ε)} {s t : σ} {as : List α} {es : List ε}
    (h : replay (fun s a => if C s a then step s a else none) s as = some (t,es)) :
    Run (FiresWhen C step) s es t := by
  refine (replay_run h).mono ?_
  rintro s fs t ⟨a,ha⟩
  rw [Option.ite_none_right_eq_some] at ha
  exact ⟨a,ha⟩

/-! ## Ways to a state -/

/-- From every state with the first property a run leads to one with the second. -/
def Leads (Step : σ → List ε → σ → Prop) (P Q : σ → Prop) : Prop :=
  ∀ s, P s → ∃ es t, Run Step s es t ∧ Q t

section Leads
variable {Step : σ → List ε → σ → Prop} {P Q R : σ → Prop}

theorem Leads.of_step (h : ∀ s, P s → ∃ es t, Step s es t ∧ Q t) : Leads Step P Q := by
  intro s hs
  obtain ⟨es,t,hstep,ht⟩ := h s hs
  exact ⟨_,t,Run.start.step hstep,ht⟩

theorem Leads.trans (h : Leads Step P Q) (h' : Leads Step Q R) : Leads Step P R := by
  intro s hs
  obtain ⟨es,t,hr,ht⟩ := h s hs
  obtain ⟨fs,u,hr',hu⟩ := h' t ht
  exact ⟨_,u,hr.trans hr',hu⟩

/-- Properties in a row. -/
theorem Leads.chain {P : ℕ → σ → Prop} {m : ℕ} (h : ∀ n < m, Leads Step (P n) (P (n + 1))) :
    Leads Step (P 0) (P m) := by
  induction m with
  | zero => exact fun s hs => ⟨[],s,.start,hs⟩
  | succ m ih =>
    have hbefore := ih (fun n hn => h n (Nat.lt_succ_of_lt hn))
    exact hbefore.trans (h m (Nat.lt_succ_self m))

end Leads

end Kaplar.Execution
