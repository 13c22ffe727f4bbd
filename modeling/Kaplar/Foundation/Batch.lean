import Mathlib.Data.List.Basic
import Mathlib.Tactic.Common

/-! # Handing work over in batches

The purpose of a double-buffered queue, stated without buffers: what is put is
owed to the next swap, and what a swap took over is worked off in order before
the swap after it. A history that keeps this ledger delivers every item exactly
once, in the round after the one it was put in.
-/
namespace Kaplar.Batch
variable {τ : Type*}

inductive Event (τ : Type*) where
  | put (t : τ)
  | swap
  | take (t : τ)
  deriving DecidableEq, Repr

def Event.put? : Event τ → Option τ
  | .put t => some t
  | _ => none

def Event.take? : Event τ → Option τ
  | .take t => some t
  | _ => none

def puts (es : List (Event τ)) : List τ := es.filterMap Event.put?
def takes (es : List (Event τ)) : List τ := es.filterMap Event.take?

@[simp] theorem puts_put (t : τ) (es : List (Event τ)) : puts (.put t :: es) = t :: puts es := rfl
@[simp] theorem puts_take (t : τ) (es : List (Event τ)) : puts (.take t :: es) = puts es := rfl
@[simp] theorem puts_swap (es : List (Event τ)) : puts (.swap :: es) = puts es := rfl
@[simp] theorem takes_swap (es : List (Event τ)) : takes (.swap :: es) = takes es := rfl
@[simp] theorem takes_put (t : τ) (es : List (Event τ)) : takes (.put t :: es) = takes es := rfl
@[simp] theorem takes_take (t : τ) (es : List (Event τ)) : takes (.take t :: es) = t :: takes es := rfl

theorem puts_append (es fs : List (Event τ)) : puts (es ++ fs) = puts es ++ puts fs :=
  List.filterMap_append

theorem takes_append (es fs : List (Event τ)) : takes (es ++ fs) = takes es ++ takes fs :=
  List.filterMap_append

/-- What is owed: to the next swap, and to the batch being worked off. -/
structure Ledger (τ : Type*) where
  pending : List τ
  batch : List τ

def Ledger.empty : Ledger τ := ⟨[],[]⟩

variable [DecidableEq τ]

def Ledger.post (l : Ledger τ) : Event τ → Option (Ledger τ)
  | .put t => some { l with pending := l.pending ++ [t] }
  | .swap => if l.batch.isEmpty then some ⟨[],l.pending⟩ else none
  | .take t => match l.batch with
    | [] => none
    | u :: rest => if t = u then some { l with batch := rest } else none

def Ledger.run (l : Ledger τ) : List (Event τ) → Option (Ledger τ)
  | [] => some l
  | e :: es => (l.post e).bind (fun m => m.run es)

@[simp] theorem Ledger.run_nil (l : Ledger τ) : l.run [] = some l := rfl

theorem Ledger.run_append (l : Ledger τ) (es fs : List (Event τ)) :
    l.run (es ++ fs) = (l.run es).bind (fun m => m.run fs) := by
  induction es generalizing l with
  | nil => rfl
  | cons e es ih =>
    simp only [List.cons_append, run, ih]
    cases l.post e <;> rfl

/-- Between two swaps the ledger only grows by what is put and shrinks by what is taken. -/
theorem Ledger.run_round {l m : Ledger τ} {es : List (Event τ)} (h : l.run es = some m)
    (hs : Event.swap ∉ es) : m.pending = l.pending ++ puts es ∧ l.batch = takes es ++ m.batch := by
  induction es generalizing l with
  | nil =>
    cases h
    simp [puts,takes]
  | cons e es ih =>
    simp only [List.mem_cons, not_or] at hs
    simp only [run, Option.bind_eq_some_iff] at h
    obtain ⟨k,hk,hm⟩ := h
    obtain ⟨hp,hb⟩ := ih hm hs.2
    cases e with
    | put t =>
      cases hk
      exact ⟨by simpa using hp,by simpa using hb⟩
    | swap => exact absurd rfl hs.1
    | take t =>
      obtain ⟨pending,batch⟩ := l
      cases batch with
      | nil => simp [post] at hk
      | cons u rest =>
        simp only [post, Option.ite_none_right_eq_some, Option.some.injEq] at hk
        obtain ⟨rfl,rfl⟩ := hk
        exact ⟨by simpa using hp,by simpa using hb⟩

/-- What was owed and what is put is what is taken and what is owed then, in this order. -/
theorem Ledger.run_conserves {l m : Ledger τ} {es : List (Event τ)} (h : l.run es = some m) :
    l.batch ++ l.pending ++ puts es = takes es ++ m.batch ++ m.pending := by
  induction es generalizing l with
  | nil =>
    cases h
    simp [puts,takes]
  | cons e es ih =>
    simp only [run, Option.bind_eq_some_iff] at h
    obtain ⟨k,hk,hm⟩ := h
    have hrest := ih hm
    cases e with
    | put t =>
      cases hk
      simpa using hrest
    | swap =>
      simp only [post, Option.ite_none_right_eq_some, Option.some.injEq, List.isEmpty_iff] at hk
      obtain ⟨hb,rfl⟩ := hk
      rw [hb]
      simpa using hrest
    | take t =>
      obtain ⟨pending,batch⟩ := l
      cases batch with
      | nil => simp [post] at hk
      | cons u rest =>
        simp only [post, Option.ite_none_right_eq_some, Option.some.injEq] at hk
        obtain ⟨rfl,rfl⟩ := hk
        simpa using hrest

/-- A batch is worked off before there is another. -/
theorem Ledger.run_batch {l m : Ledger τ} {es : List (Event τ)} (h : l.run es = some m) :
    l.batch <+: takes es ++ m.batch := by
  induction es generalizing l with
  | nil =>
    cases h
    exact List.prefix_refl _
  | cons e es ih =>
    simp only [run, Option.bind_eq_some_iff] at h
    obtain ⟨k,hk,hm⟩ := h
    have hrest := ih hm
    cases e with
    | put t =>
      cases hk
      exact hrest
    | swap =>
      simp only [post, Option.ite_none_right_eq_some, List.isEmpty_iff] at hk
      rw [hk.1]
      exact List.nil_prefix
    | take t =>
      obtain ⟨pending,batch⟩ := l
      cases batch with
      | nil => simp [post] at hk
      | cons u rest =>
        simp only [post, Option.ite_none_right_eq_some, Option.some.injEq] at hk
        obtain ⟨rfl,rfl⟩ := hk
        exact List.cons_prefix_cons.mpr ⟨rfl,hrest⟩

/-- What was put before a swap has been taken or is in the batch. -/
theorem Ledger.handed_over {m : Ledger τ} {es fs : List (Event τ)}
    (h : empty.run (es ++ fs) = some m) (hs : Event.swap ∈ fs) :
    puts es <+: takes (es ++ fs) ++ m.batch := by
  obtain ⟨as,bs,rfl⟩ := List.append_of_mem hs
  rw [← List.append_assoc, run_append, Option.bind_eq_some_iff] at h
  obtain ⟨k,hk,h⟩ := h
  simp only [Ledger.run, post, Option.bind_eq_some_iff, Option.ite_none_right_eq_some,
    Option.some.injEq, List.isEmpty_iff] at h
  obtain ⟨_,⟨hb,rfl⟩,hm⟩ := h
  have hswap : puts (es ++ as) = takes (es ++ as) ++ k.pending := by
    simpa [hb,empty] using run_conserves hk
  have hafter : k.pending <+: takes bs ++ m.batch := run_batch hm
  have hall : takes (es ++ (as ++ Event.swap :: bs)) ++ m.batch =
      takes (es ++ as) ++ (takes bs ++ m.batch) := by
    simp [takes_append]
  rw [hall]
  have hmore : puts es <+: puts (es ++ as) := by
    rw [puts_append]
    exact List.prefix_append _ _
  apply hmore.trans
  rw [hswap]
  exact (List.prefix_append_right_inj _).mpr hafter

/-- `mid` is what happened between two consecutive swaps, or before the first one,
`run` is what happened right after the second of them, and `rest` what came later. -/
def Round (es mid run rest : List (Event τ)) : Prop :=
  ∃ fst, (fst = [] ∨ ∃ f, fst = f ++ [.swap]) ∧ es = fst ++ (mid ++ .swap :: (run ++ rest)) ∧
    Event.swap ∉ mid ∧ Event.swap ∉ run

/-- Exactly-once delivery: nothing is taken before the first swap, and what is
taken after a swap is what was put in the round before it, in the same order and
completely as soon as the next swap happens or the taker says it is done. -/
structure ExactlyOnce (es : List (Event τ)) (done : Prop) : Prop where
  before : ∀ run rest, es = run ++ rest → Event.swap ∉ run → takes run = []
  ordered : ∀ mid run rest, Round es mid run rest → takes run <+: puts mid
  complete : ∀ mid run rest, Round es mid run (.swap :: rest) → takes run = puts mid
  last : ∀ mid run, Round es mid run [] → done → takes run = puts mid

/-- The ledger reached after a finished round owes exactly what that round was put. -/
theorem Ledger.run_to_round {m : Ledger τ} {es mid run rest : List (Event τ)}
    (h : empty.run es = some m) (hr : Round es mid run rest) :
    ∃ k : Ledger τ, k.run rest = some m ∧ puts mid = takes run ++ k.batch := by
  obtain ⟨fst,hfst,rfl,hmid,hrun⟩ := hr
  rw [run_append, Option.bind_eq_some_iff] at h
  obtain ⟨a,ha,h⟩ := h
  have hpa : a.pending = [] := by
    rcases hfst with rfl | ⟨f,rfl⟩
    · cases ha
      rfl
    · rw [run_append, Option.bind_eq_some_iff] at ha
      obtain ⟨b,_,hb⟩ := ha
      simp only [Ledger.run, post, Option.bind_eq_some_iff, Option.ite_none_right_eq_some,
        Option.some.injEq] at hb
      obtain ⟨_,⟨_,rfl⟩,rfl⟩ := hb
      rfl
  rw [run_append, Option.bind_eq_some_iff] at h
  obtain ⟨b,hb,h⟩ := h
  simp only [Ledger.run, post, Option.bind_eq_some_iff, Option.ite_none_right_eq_some,
    Option.some.injEq] at h
  obtain ⟨_,⟨_,rfl⟩,h⟩ := h
  rw [run_append, Option.bind_eq_some_iff] at h
  obtain ⟨c,hc,h⟩ := h
  have hpb := (run_round hb hmid).1
  have hbc := (run_round hc hrun).2
  rw [hpa, List.nil_append] at hpb
  exact ⟨c,h,by rw [← hpb]; exact hbc⟩

theorem Ledger.exactlyOnce {es : List (Event τ)} {l : Ledger τ} {done : Prop}
    (h : empty.run es = some l) (hd : done → l.batch = []) : ExactlyOnce es done := by
  constructor
  · rintro run rest rfl hs
    rw [run_append, Option.bind_eq_some_iff] at h
    obtain ⟨m,hm,_⟩ := h
    have hb := (run_round hm hs).2
    exact (List.append_eq_nil_iff.mp hb.symm).1
  · intro mid run rest hr
    obtain ⟨k,_,hk⟩ := run_to_round h hr
    exact hk ▸ List.prefix_append _ _
  · intro mid run rest hr
    obtain ⟨k,hrest,hk⟩ := run_to_round h hr
    simp only [Ledger.run, post, Option.bind_eq_some_iff, Option.ite_none_right_eq_some,
      List.isEmpty_iff] at hrest
    obtain ⟨_,⟨hb,_⟩,_⟩ := hrest
    rw [hk, hb, List.append_nil]
  · intro mid run hr hdone
    obtain ⟨k,hrest,hk⟩ := run_to_round h hr
    cases hrest
    rw [hk, hd hdone, List.append_nil]

end Kaplar.Batch
