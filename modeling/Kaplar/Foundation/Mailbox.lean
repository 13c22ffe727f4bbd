import Mathlib.Data.List.Induction
import Mathlib.Tactic.Common

/-! # Mailboxes of one slot

A put overwrites the slot and a read empties it. A history says for every put whether
the slot was clear at that moment.
-/
namespace Kaplar.Mailbox
variable {α : Type*}

inductive Event (α : Type*) where
  | put (a : α) (clear : Bool)
  | read

def Event.after : Option α → Event α → Option α
  | _, .put a _ => some a
  | _, .read => none

/-- What is in the slot at the end of a history. -/
def contents (es : List (Event α)) : Option α := es.foldl Event.after none

/-- Every put has noted whether the slot was clear. -/
def Noted (es : List (Event α)) : Prop :=
  ∀ as a clear bs, es = as ++ .put a clear :: bs → clear = (contents as).isNone

/-- Between any two puts there is a read. -/
def Paced (es : List (Event α)) : Prop :=
  ∀ as a c bs a' c' cs, es = as ++ .put a c :: (bs ++ .put a' c' :: cs) → .read ∈ bs

variable {es fs : List (Event α)}

theorem contents_append : contents (es ++ fs) = fs.foldl Event.after (contents es) :=
  List.foldl_append

theorem noted_nil : Noted ([] : List (Event α)) := by
  intro as a clear bs h
  cases as <;> cases h

theorem noted_concat {e : Event α} (h : Noted es)
    (he : ∀ a clear, e = .put a clear → clear = (contents es).isNone) : Noted (es ++ [e]) := by
  intro as a clear bs hs
  rcases List.eq_nil_or_concat bs with rfl | ⟨bs,b,rfl⟩
  · obtain ⟨hinit,hlast⟩ := List.append_inj' hs rfl
    rw [← hinit]
    exact he a clear (List.cons.inj hlast).1
  · have hinit : es = as ++ .put a clear :: bs := by
      have hsnoc : es ++ [e] = (as ++ .put a clear :: bs) ++ [b] := by simpa using hs
      exact (List.append_inj' hsnoc rfl).1
    exact h as a clear bs hinit

/-- Without a read the slot stays taken. -/
theorem foldl_isSome (h : .read ∉ es) (a : α) :
    (es.foldl Event.after (some a)).isSome = true := by
  induction es generalizing a with
  | nil => rfl
  | cons e es ih =>
    have hes : .read ∉ es := fun hm => h (List.mem_cons_of_mem _ hm)
    cases e with
    | put b c => exact ih hes b
    | read => exact absurd List.mem_cons_self h

/-- What is in the slot was put there after the last read. -/
theorem exists_put {a : α} (h : contents es = some a) :
    ∃ as c bs, es = as ++ .put a c :: bs ∧ .read ∉ bs := by
  induction es using List.reverseRecOn with
  | nil => cases h
  | append_singleton es e ih =>
    rw [contents_append] at h
    cases e with
    | put b c =>
      cases h
      exact ⟨es,c,[],rfl,List.not_mem_nil⟩
    | read => cases h

/-- The slot is clear at every put exactly if the puts are paced by reads. -/
theorem clear_iff_paced (hn : Noted es) :
    (∀ a clear, .put a clear ∈ es → clear = true) ↔ Paced es := by
  constructor
  · intro h as a c bs a' c' cs he
    by_contra hr
    have hsplit : es = (as ++ .put a c :: bs) ++ .put a' c' :: cs := by
      rw [he, List.append_assoc, List.cons_append]
    have htaken : (contents (as ++ .put a c :: bs)).isSome = true := by
      rw [contents_append]
      exact foldl_isSome hr a
    have hclear := h a' c' (hsplit ▸ List.mem_append_right _ List.mem_cons_self)
    rw [hn _ a' c' cs hsplit, ← Option.not_isSome, htaken] at hclear
    cases hclear
  · intro h a clear hm
    obtain ⟨as,bs,he⟩ := List.append_of_mem hm
    rw [hn as a clear bs he]
    cases hc : contents as with
    | none => rfl
    | some b =>
      obtain ⟨as',c,bs',rfl,hr⟩ := exists_put hc
      refine absurd (h as' b c bs' a clear bs ?_) hr
      rw [he, List.append_assoc, List.cons_append]

end Kaplar.Mailbox
