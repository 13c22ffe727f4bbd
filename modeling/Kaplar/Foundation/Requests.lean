import Mathlib.Data.List.Basic
import Mathlib.Tactic.Common

/-! # Requests and answers

Requests need not be told apart: an answer serves all those before it. A history is in order
if each request has been answered later on or an answer is due.
-/
namespace Kaplar.Requests
variable {ε : Type*} {asks answers : ε → Prop} {due due' : Prop} {es fs : List ε}

def Answered (asks answers : ε → Prop) (due : Prop) (es : List ε) : Prop :=
  ∀ pre e post, es = pre ++ e :: post → asks e → due ∨ ∃ a ∈ post, answers a

theorem answered_of_due (h : due) : Answered asks answers due es := fun _ _ _ _ _ => .inl h

theorem answered_of_silent (h : ∀ e ∈ es, ¬ asks e) : Answered asks answers due es := by
  rintro pre e post rfl he
  exact absurd he (h e (by simp))

/-- An answer that is due stays so or is given. -/
theorem Answered.append (h : Answered asks answers due es)
    (hkeep : due → due' ∨ ∃ a ∈ fs, answers a) (hfs : Answered asks answers due' fs) :
    Answered asks answers due' (es ++ fs) := by
  intro pre e post heq he
  rcases List.append_eq_append_iff.mp heq with ⟨mid,rfl,hlast⟩ | ⟨mid,rfl,hlast⟩
  · exact hfs mid e post hlast he
  · cases mid with
    | nil => exact hfs [] e post hlast.symm he
    | cons c mid =>
      obtain ⟨rfl,rfl⟩ := List.cons.inj hlast
      rcases h pre e mid rfl he with hdue | ⟨a,ha,hans⟩
      · rcases hkeep hdue with hdue' | ⟨a,ha,hans⟩
        · exact .inl hdue'
        · exact .inr ⟨a,List.mem_append_right mid ha,hans⟩
      · exact .inr ⟨a,List.mem_append_left fs ha,hans⟩

end Kaplar.Requests
