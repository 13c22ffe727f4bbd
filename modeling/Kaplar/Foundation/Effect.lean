import Kaplar.Foundation.Program

/-! # What programs do

The effect of a program as a relation between the state before, the events and the state
after. A relation that composes is the effect of every program whose parts it is the
effect of. A crash has its effect as well.
-/
namespace Kaplar.Program
variable {σ ε α β : Type}

structure Composes (r : σ → List ε → σ → Prop) : Prop where
  refl : ∀ s, r s [] s
  trans : ∀ {s t u : σ} {es fs : List ε}, r s es t → r t fs u → r s (es ++ fs) u

/-- From every state the program has an effect. -/
def Does (r : σ → List ε → σ → Prop) (x : Prog σ ε α) : Prop := ∀ s, r s (x s).2.2 (x s).2.1

section Rules
variable {r r' : σ → List ε → σ → Prop} {x y : Prog σ ε α} {f g : α → Prog σ ε β} {s : σ}

theorem bind_apply (x : Prog σ ε α) (f : α → Prog σ ε β) (s : σ) : (x >>= f) s = match x s with
    | (none,t,es) => (none,t,es)
    | (some a,t,es) => ((f a t).1,(f a t).2.1,es ++ (f a t).2.2) := rfl

theorem Does.bind (hr : Composes r) (hx : Does r x) (hf : ∀ a, Does r (f a)) :
    Does r (x >>= f) := by
  intro s
  have hs := hx s
  rw [bind_apply]
  rcases hxs : x s with ⟨a,t,es⟩
  rw [hxs] at hs
  cases a with
  | none => exact hs
  | some a => exact hr.trans hs (hf a t)

theorem does_pure (hr : Composes r) (a : α) : Does r (pure a : Prog σ ε α) := hr.refl

theorem does_get (hr : Composes r) : Does r (get : Prog σ ε σ) := hr.refl

theorem does_crash (hr : Composes r) : Does r (crash : Prog σ ε α) := hr.refl

theorem does_update {f : σ → σ} (hf : ∀ s, r s [] (f s)) : Does r (update f : Prog σ ε Unit) := hf

theorem does_emit {e : ε} (he : ∀ s, r s [e] s) : Does r (emit e : Prog σ ε Unit) := he

theorem Does.mono (hx : Does r x) (h : ∀ {s es t}, r s es t → r' s es t) : Does r' x :=
  fun s => h (hx s)

/-- An event may explain what comes after it. -/
theorem Does.emit {e : ε} (hx : Does r x) (h : ∀ {s es t}, r s es t → r' s (e :: es) t) :
    Does r' (emit e >>= fun _ => x) := fun s => h (hx s)

theorem Does.ite {c : Prop} [Decidable c] (hx : Does r x) (hy : Does r y) :
    Does r (if c then x else y) := by
  split
  · exact hx
  · exact hy

/-- An effect is a postcondition. -/
theorem Does.wp (hx : Does r x) (h : List ε) : wp .lenient x
    (fun _ t h' => ∃ es, h' = h ++ es ∧ r s es t) s h := by
  intro _
  have hs := hx s
  cases (x s).1 with
  | none => trivial
  | some a => exact ⟨_,rfl,hs⟩

/-- Programs that begin in the same way. -/
theorem bind_congr_left (h : x s = y s) : (x >>= f) s = (y >>= f) s := by
  rw [bind_apply, bind_apply, h]

/-- Programs that go on in the same way wherever they come to. -/
theorem bind_congr_right (h : ∀ a, f a (x s).2.1 = g a (x s).2.1) :
    (x >>= f) s = (x >>= g) s := by
  rw [bind_apply, bind_apply]
  rcases hxs : x s with ⟨a,t,es⟩
  cases a with
  | none => rfl
  | some a =>
    have ha := h a
    rw [hxs] at ha
    simp only [ha]

end Rules

end Kaplar.Program
