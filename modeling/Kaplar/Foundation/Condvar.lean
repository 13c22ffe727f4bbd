import Mathlib.Data.List.Basic

/-! # Condition variables under one mutex

A condition variable is the list of blocked sleepers and the list of sleepers
that were signalled but have not taken the mutex again. A sleeper is whatever a
thread remembers across its wait. Which blocked sleeper a signal wakes is left
to the scheduler, so every operation that depends on it takes the choice as an
argument and is undefined on impossible choices.
-/
namespace Kaplar
variable {κ : Type*}

structure Condvar (κ : Type*) where
  waiting : List κ
  woken : List κ
  deriving DecidableEq, Repr

namespace Condvar

def init : Condvar κ := ⟨[],[]⟩

/-- Everybody inside a wait, blocked or already signalled. -/
def sleepers (c : Condvar κ) : List κ := c.waiting ++ c.woken

/-- Releases the mutex and blocks. -/
def wait (c : Condvar κ) (k : κ) : Condvar κ := { c with waiting := c.waiting ++ [k] }

def broadcast (c : Condvar κ) : Condvar κ := ⟨[],c.woken ++ c.waiting⟩

variable [DecidableEq κ]

/-- A signal wakes one blocked sleeper, and is lost exactly when nobody is blocked. -/
def signal (c : Condvar κ) : Option κ → Option (Condvar κ)
  | none => if c.waiting.isEmpty then some c else none
  | some k => if k ∈ c.waiting then some ⟨c.waiting.erase k,c.woken ++ [k]⟩ else none

/-- A sleeper takes the mutex again: a signalled one, or a blocked one spuriously. -/
def resume (c : Condvar κ) (k : κ) : Option (Condvar κ) :=
  if k ∈ c.woken then some { c with woken := c.woken.erase k }
  else if k ∈ c.waiting then some { c with waiting := c.waiting.erase k }
  else none

omit [DecidableEq κ] in
@[simp] theorem waiting_init : (init : Condvar κ).waiting = [] := rfl
omit [DecidableEq κ] in
@[simp] theorem sleepers_init : (init : Condvar κ).sleepers = [] := rfl
omit [DecidableEq κ] in
@[simp] theorem waiting_broadcast (c : Condvar κ) : c.broadcast.waiting = [] := rfl
omit [DecidableEq κ] in
@[simp] theorem waiting_wait (c : Condvar κ) (k : κ) : (c.wait k).waiting = c.waiting ++ [k] := rfl

/-- What a signal can do, guards included. -/
theorem signal_cases {c d : Condvar κ} {choice : Option κ} (h : c.signal choice = some d) :
    (c.waiting = [] ∧ d = c) ∨
    ∃ k ∈ c.waiting, d = ⟨c.waiting.erase k,c.woken ++ [k]⟩ := by
  cases choice with
  | none =>
    simp only [signal, Option.ite_none_right_eq_some, Option.some.injEq,
      List.isEmpty_iff] at h
    exact .inl ⟨h.1,h.2.symm⟩
  | some k =>
    simp only [signal, Option.ite_none_right_eq_some, Option.some.injEq] at h
    exact .inr ⟨k,h.1,h.2.symm⟩

/-- What a return from a wait can do, guards included. -/
theorem resume_cases {c d : Condvar κ} {k : κ} (h : c.resume k = some d) :
    (k ∈ c.woken ∧ d = { c with woken := c.woken.erase k }) ∨
    (k ∈ c.waiting ∧ d = { c with waiting := c.waiting.erase k }) := by
  simp only [resume] at h
  split at h
  case isTrue hk => exact .inl ⟨hk,(Option.some.inj h).symm⟩
  case isFalse =>
    split at h
    case isTrue hk => exact .inr ⟨hk,(Option.some.inj h).symm⟩
    case isFalse => cases h

/-- Whoever is inside a wait may take the mutex again. -/
theorem exists_resume {c : Condvar κ} {k : κ} (h : k ∈ c.sleepers) : ∃ d, c.resume k = some d := by
  unfold resume
  split
  case isTrue => exact ⟨_,rfl⟩
  case isFalse hk =>
    have hw : k ∈ c.waiting := (List.mem_append.mp h).resolve_right hk
    exact ⟨_,if_pos hw⟩

theorem resume_waiting_nil {c d : Condvar κ} {k : κ} (h : c.resume k = some d)
    (hw : c.waiting = []) : d.waiting = [] := by
  obtain ⟨_,rfl⟩ | ⟨_,rfl⟩ := resume_cases h
  · exact hw
  · simp [hw]

theorem resume_waiting_subset {c d : Condvar κ} {k : κ} (h : c.resume k = some d) :
    ∀ l ∈ d.waiting, l ∈ c.waiting := by
  intro l hl
  obtain ⟨_,rfl⟩ | ⟨_,rfl⟩ := resume_cases h
  · exact hl
  · exact List.mem_of_mem_erase hl

theorem signal_sleepers_length {c d : Condvar κ} {choice : Option κ}
    (h : c.signal choice = some d) : d.sleepers.length = c.sleepers.length := by
  obtain ⟨_,rfl⟩ | ⟨k,hk,rfl⟩ := signal_cases h
  · rfl
  · have hl := List.length_erase_of_mem hk
    have hp := List.length_pos_of_mem hk
    simp only [sleepers, List.length_append, List.length_singleton]
    omega

theorem resume_sleepers_length {c d : Condvar κ} {k : κ} (h : c.resume k = some d) :
    d.sleepers.length + 1 = c.sleepers.length := by
  obtain ⟨hk,rfl⟩ | ⟨hk,rfl⟩ := resume_cases h
  all_goals
    have hl := List.length_erase_of_mem hk
    have hp := List.length_pos_of_mem hk
    simp only [sleepers, List.length_append]
    omega

omit [DecidableEq κ] in
theorem perm_wait (c : Condvar κ) (k : κ) : (c.wait k).sleepers.Perm (k :: c.sleepers) := by
  simp only [sleepers, wait, List.append_assoc, List.singleton_append]
  exact List.perm_middle

omit [DecidableEq κ] in
theorem perm_broadcast (c : Condvar κ) : c.broadcast.sleepers.Perm c.sleepers := by
  simp only [sleepers, broadcast, List.nil_append]
  exact List.perm_append_comm

theorem perm_resume {c d : Condvar κ} {k : κ} (h : c.resume k = some d) :
    c.sleepers.Perm (k :: d.sleepers) := by
  obtain ⟨hk,rfl⟩ | ⟨hk,rfl⟩ := resume_cases h
  · exact ((List.perm_cons_erase hk).append_left c.waiting).trans List.perm_middle
  · exact (List.perm_cons_erase hk).append_right c.woken

/-- With a single sleeper, a signal leaves nobody blocked. -/
theorem signal_waiting_of_single {c d : Condvar κ} {choice : Option κ}
    (h : c.signal choice = some d) (hc : c.sleepers.length ≤ 1) : d.waiting = [] := by
  obtain ⟨hw,rfl⟩ | ⟨k,hk,rfl⟩ := signal_cases h
  · exact hw
  · have hl := List.length_erase_of_mem hk
    simp only [sleepers, List.length_append] at hc
    exact List.length_eq_zero_iff.mp (by simp only; omega)

end Condvar
end Kaplar
