import Mathlib.Data.List.Basic

/-! # Programs that change a state and leave a trace

A program emits events while it changes a state. It may crash, which keeps the state it
crashed in. A precondition may rely on the trace: what the environment promises about its
own events is assumed of the trace a program leaves.
-/
namespace Kaplar.Program
variable {σ ε α β : Type}

/-- No value means a crash. -/
def Prog (σ ε α : Type) := σ → Option α × σ × List ε

instance : Monad (Prog σ ε) where
  pure a := fun s => (some a,s,[])
  bind x f := fun s => match x s with
    | (none,t,es) => (none,t,es)
    | (some a,t,es) => let (r,u,fs) := f a t; (r,u,es ++ fs)

def get : Prog σ ε σ := fun s => (some s,s,[])
def update (f : σ → σ) : Prog σ ε Unit := fun s => (some (),f s,[])
def emit (e : ε) : Prog σ ε Unit := fun s => (some (),s,[e])
def crash : Prog σ ε α := fun s => (none,s,[])

theorem bind_crash {x : Prog σ ε α} {f : α → Prog σ ε β} {s t : σ} {es : List ε}
    (hx : x s = (none,t,es)) : (x >>= f) s = (none,t,es) := by
  show (match x s with
    | (none,t,es) => (none,t,es)
    | (some a,t,es) => ((f a t).1,(f a t).2.1,es ++ (f a t).2.2)) = _
  rw [hx]

theorem get_bind (f : σ → Prog σ ε α) (s : σ) : (get >>= f) s = f s s := rfl

/-- What is relied on holds of every beginning of a trace it holds of. -/
structure Rely (ε : Type) where
  holds : List ε → Prop
  start : ∀ {h es : List ε}, holds (h ++ es) → holds h
  mayCrash : Prop

/-- Nothing is relied on. -/
def Rely.nothing : Rely ε := ⟨fun _ => True,fun _ => trivial,False⟩

/-- Nothing is relied on, and nothing is said about crashes. -/
def Rely.lenient : Rely ε := ⟨fun _ => True,fun _ => trivial,True⟩

/-- From the state and the trace so far the program ends in `Q`. -/
def wp (A : Rely ε) (x : Prog σ ε α) (Q : α → σ → List ε → Prop) (s : σ) (h : List ε) : Prop :=
  A.holds (h ++ (x s).2.2) → match (x s).1 with
    | none => A.mayCrash
    | some a => Q a (x s).2.1 (h ++ (x s).2.2)

section Rules
variable {A : Rely ε} {x : Prog σ ε α} {Q Q' : α → σ → List ε → Prop} {s : σ} {h : List ε}

theorem wp_pure {a : α} (hq : A.holds h → Q a s h) : wp A (pure a) Q s h := by
  intro hA
  have hnil : h ++ ((pure a : Prog σ ε α) s).2.2 = h := List.append_nil h
  rw [hnil] at hA
  show Q a s (h ++ [])
  rw [List.append_nil]
  exact hq hA

theorem wp_bind {f : α → Prog σ ε β} {R : β → σ → List ε → Prop}
    (hx : wp A x (fun a t h' => wp A (f a) R t h') s h) : wp A (x >>= f) R s h := by
  intro hA
  have hb : (x >>= f) s = match x s with
    | (none,t,es) => (none,t,es)
    | (some a,t,es) => ((f a t).1,(f a t).2.1,es ++ (f a t).2.2) := rfl
  rw [hb] at hA ⊢
  rcases hxs : x s with ⟨r,t,es⟩
  rw [wp, hxs] at hx
  rw [hxs] at hA
  cases r with
  | none => exact hx hA
  | some a =>
    have hA' : A.holds ((h ++ es) ++ (f a t).2.2) := by
      rw [List.append_assoc]
      exact hA
    have hw := hx (A.start hA') hA'
    rw [List.append_assoc] at hw
    exact hw

theorem wp_get {Q : σ → σ → List ε → Prop} (hq : Q s s h) : wp A get Q s h := by
  intro _
  show Q s s (h ++ [])
  rwa [List.append_nil]

theorem wp_update {Q : Unit → σ → List ε → Prop} {f : σ → σ} (hq : Q () (f s) h) :
    wp A (update f) Q s h := by
  intro _
  show Q () (f s) (h ++ [])
  rwa [List.append_nil]

theorem wp_emit {Q : Unit → σ → List ε → Prop} {e : ε}
    (hq : A.holds (h ++ [e]) → Q () s (h ++ [e])) : wp A (emit e) Q s h := hq

theorem wp_crash (hc : A.mayCrash) : wp A (crash : Prog σ ε α) Q s h := fun _ => hc

theorem wp_mono (hx : wp A x Q s h) (hq : ∀ a t h', A.holds h' → Q a t h' → Q' a t h') :
    wp A x Q' s h := by
  intro hA
  have hr := hx hA
  cases hxs : (x s).1 with
  | none =>
    rw [hxs] at hr
    exact hr
  | some a =>
    rw [hxs] at hr
    exact hq _ _ _ hA hr

/-- A trace only grows. -/
theorem wp_grows (hx : wp A x Q s h) : wp A x (fun a t h' => h <+: h' ∧ Q a t h') s h := by
  intro hh
  have hr := hx hh
  cases hxs : (x s).1 with
  | none =>
    rw [hxs] at hr
    exact hr
  | some a =>
    rw [hxs] at hr
    exact ⟨List.prefix_append _ _,hr⟩

/-- A program that does not crash ends in what is shown of it up to crashes. -/
theorem wp_and {A' : Rely ε} (hx : wp A x Q s h) (hx' : wp A' x Q' s h)
    (hA : ∀ h, A.holds h → A'.holds h) :
    wp A x (fun a t h' => Q a t h' ∧ Q' a t h') s h := by
  intro hh
  have hr := hx hh
  have hr' := hx' (hA _ hh)
  cases hxs : (x s).1 with
  | none =>
    rw [hxs] at hr
    exact hr
  | some a =>
    rw [hxs] at hr hr'
    exact ⟨hr,hr'⟩

/-- A trace that is not relied on any more leaves nothing to show. -/
theorem wp_absurd (hA : ¬ A.holds h) : wp A x Q s h := fun hh => absurd (A.start hh) hA

end Rules

end Kaplar.Program
