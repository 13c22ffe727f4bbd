import Mathlib.Data.Nat.Notation

/-! # Loops with a bounded number of iterations

The body either goes on with a new state or leaves with a result; `none` is a
fault. A loop with an invariant and a bound that drops in every iteration leaves
whenever more iterations are allowed.
-/
namespace Kaplar
variable {σ ρ : Type*}

def loop (body : σ → Option (σ ⊕ ρ)) : ℕ → σ → Option ρ
  | 0, _ => none
  | fuel + 1, s => match body s with
    | none => none
    | some (.inl t) => loop body fuel t
    | some (.inr r) => some r

/-- A loop that has left leaves in the same way when more iterations are allowed. -/
theorem loop_mono {body : σ → Option (σ ⊕ ρ)} {fuel fuel' : ℕ} {s : σ} {r : ρ}
    (h : loop body fuel s = some r) (hf : fuel ≤ fuel') : loop body fuel' s = some r := by
  induction fuel generalizing fuel' s with
  | zero => cases h
  | succ fuel ih =>
    obtain ⟨k,rfl⟩ := Nat.exists_eq_add_of_le hf
    rw [Nat.succ_add]
    simp only [loop] at h ⊢
    cases hb : body s with
    | none => simp only [hb] at h; cases h
    | some m =>
      cases m with
      | inl t =>
        simp only [hb] at h ⊢
        exact ih h (Nat.le_add_right fuel k)
      | inr r =>
        simp only [hb] at h ⊢
        exact h

/-- Total correctness: no fault, no lack of iterations, and the postcondition. The
invariant carries the bound on the iterations that are left. -/
theorem loop_total {body : σ → Option (σ ⊕ ρ)} (I : ℕ → σ → Prop) {Q : ρ → Prop}
    (h : ∀ k s, I k s → (∃ r, body s = some (.inr r) ∧ Q r) ∨
      ∃ j t, body s = some (.inl t) ∧ I j t ∧ j < k)
    {fuel k : ℕ} {s : σ} (hs : I k s) (hf : k < fuel) : ∃ r, loop body fuel s = some r ∧ Q r := by
  induction fuel generalizing k s with
  | zero => omega
  | succ fuel ih =>
    rcases h k s hs with ⟨r,hr,hq⟩ | ⟨j,t,ht,hi,hj⟩
    · exact ⟨r,by simp only [loop, hr],hq⟩
    · obtain ⟨r,hr,hq⟩ := ih hi (by omega)
      exact ⟨r,by simp only [loop, ht, hr],hq⟩

/-- An operation whose loops may run `k` times each ends, and the same way if they may run
longer. -/
def Within {α : Type*} (k : ℕ) (op : ℕ → Option α) : Prop := ∃ r, ∀ fuel, k ≤ fuel → op fuel = some r

theorem Within.mono {α : Type*} {k k' : ℕ} {op : ℕ → Option α} (h : Within k op) (hk : k ≤ k') :
    Within k' op := by
  obtain ⟨r,hr⟩ := h
  exact ⟨r,fun fuel hf => hr fuel (Nat.le_trans hk hf)⟩

theorem Within.of_mono {α : Type*} {k : ℕ} {op : ℕ → Option α} {r : α}
    (hm : ∀ {fuel fuel' : ℕ} {r : α}, op fuel = some r → fuel ≤ fuel' → op fuel' = some r)
    (h : op k = some r) : Within k op := ⟨r,fun _ hf => hm h hf⟩

/-- A loop that leaves at all leaves by the time its measure has run out. -/
theorem loop_within {body : σ → Option (σ ⊕ ρ)} (I : ℕ → σ → Prop)
    (hI : ∀ k s t, I k s → body s = some (.inl t) → ∃ j < k, I j t) {n k : ℕ} {s : σ} {r : ρ}
    (h : loop body n s = some r) (hs : I k s) {fuel : ℕ} (hf : k < fuel) :
    loop body fuel s = some r := by
  induction fuel generalizing n k s with
  | zero => omega
  | succ fuel ih =>
    cases n with
    | zero => cases h
    | succ n =>
      simp only [loop] at h ⊢
      cases hb : body s with
      | none => simp only [hb] at h; cases h
      | some m =>
        simp only [hb] at h ⊢
        cases m with
        | inl t =>
          obtain ⟨j,hj,ht⟩ := hI k s t hs hb
          exact ih h ht (by omega)
        | inr r => exact h

end Kaplar
