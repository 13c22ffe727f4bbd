import Mathlib.Data.List.Basic
import Mathlib.Logic.Function.Basic

/-! # Tables with a few slots for each key

An item is put into the first free one of the slots that belong to its key, and is looked for
in the same slots. The test of a lookup may hit items with other keys; when it does so
before it comes to the right one, the lookup is not exact.
-/
namespace Kaplar.Probing
variable {ι K V : Type} [DecidableEq ι] {slots : K → List ι} {key : V → K} {free hit : V → Bool}
  {t : ι → V} {vs : List V} {v : V} {k : K} {i : ι}

/-- The first free slot of a key. -/
def vacancy (slots : K → List ι) (free : V → Bool) (t : ι → V) (k : K) : Option ι :=
  (slots k).find? (fun i => free (t i))

/-- The first slot of a key in which the test succeeds. -/
def seek (slots : K → List ι) (hit : V → Bool) (t : ι → V) (k : K) : Option ι :=
  (slots k).find? (fun i => hit (t i))

omit [DecidableEq ι] in
theorem free_of_vacancy (h : vacancy slots free t k = some i) : free (t i) = true :=
  List.find?_some (p := fun i => free (t i)) h

omit [DecidableEq ι] in
theorem hit_of_seek (h : seek slots hit t k = some i) : hit (t i) = true :=
  List.find?_some (p := fun i => hit (t i)) h

/-- A table in which exactly these items have found a place. -/
structure Holds (slots : K → List ι) (key : V → K) (free : V → Bool) (t : ι → V)
    (vs : List V) : Prop where
  held : ∀ i, free (t i) = false → t i ∈ vs
  placed : ∀ v ∈ vs, ∃ i ∈ slots (key v), t i = v
  taken : ∀ v ∈ vs, free v = false

omit [DecidableEq ι] in
theorem Holds.nil (h : ∀ i, free (t i) = true) : Holds slots key free t [] where
  held i hi := by
    rw [h i] at hi
    cases hi
  placed v hv := by cases hv
  taken v hv := by cases hv

theorem Holds.put (h : Holds slots key free t vs) (hv : free v = false)
    (hi : vacancy slots free t (key v) = some i) :
    Holds slots key free (Function.update t i v) (vs ++ [v]) where
  held j hj := by
    by_cases hji : j = i
    · subst hji
      rw [Function.update_self]
      exact List.mem_append_right vs List.mem_cons_self
    · rw [Function.update_of_ne hji] at hj ⊢
      exact List.mem_append_left [v] (h.held j hj)
  placed w hw := by
    rcases List.mem_append.mp hw with hold | hnew
    · obtain ⟨j,hj,hjw⟩ := h.placed w hold
      -- a slot that holds an item is not the free one
      have hji : j ≠ i := by
        rintro rfl
        have hfree := free_of_vacancy hi
        rw [hjw, h.taken w hold] at hfree
        cases hfree
      exact ⟨j,hj,by rw [Function.update_of_ne hji, hjw]⟩
    · obtain rfl := List.mem_singleton.mp hnew
      exact ⟨i,List.mem_of_find?_eq_some hi,Function.update_self i w t⟩
  taken w hw := by
    rcases List.mem_append.mp hw with hold | hnew
    · exact h.taken w hold
    · rwa [List.mem_singleton.mp hnew]

/-- The test hits an item with another key in a slot that is tried before any with the key. -/
def Shadowed (slots : K → List ι) (key : V → K) (hit : V → Bool) (t : ι → V) (k : K) : Prop :=
  ∃ pre i post, slots k = pre ++ i :: post ∧ hit (t i) = true ∧ key (t i) ≠ k ∧
    ∀ j ∈ pre, key (t j) ≠ k

/-- A lookup finds the item with the key, if there is one, and nothing else. -/
structure Exact (slots : K → List ι) (key : V → K) (hit : V → Bool) (t : ι → V) (vs : List V)
    (k : K) : Prop where
  found : ∀ v ∈ vs, key v = k → ∃ i, seek slots hit t k = some i ∧ t i = v
  missed : (∀ v ∈ vs, key v ≠ k) → seek slots hit t k = none

section Exactness
variable (hself : ∀ v, key v = k → hit v = true)
include hself

omit [DecidableEq ι] in
theorem key_of_seek (hs : ¬ Shadowed slots key hit t k) (hi : seek slots hit t k = some i) :
    key (t i) = k := by
  obtain ⟨hhit,pre,post,hslots,hpre⟩ := List.find?_eq_some_iff_append.mp hi
  by_contra hne
  refine hs ⟨pre,i,post,hslots,hhit,hne,?_⟩
  intro j hj hjk
  have hmiss := hpre j hj
  rw [hself (t j) hjk] at hmiss
  cases hmiss

omit [DecidableEq ι] hself in
theorem Shadowed.seek (h : Shadowed slots key hit t k) :
    ∃ i, seek slots hit t k = some i ∧ hit (t i) = true ∧ key (t i) ≠ k := by
  obtain ⟨pre,i,post,hslots,hhit,hne,hpre⟩ := h
  rw [Probing.seek, hslots, List.find?_append]
  cases hfirst : pre.find? (fun i => hit (t i)) with
  | none =>
    have hnext : (i :: post).find? (fun i => hit (t i)) = some i := by
      rw [List.find?_cons, hhit]
    exact ⟨i,hnext,hhit,hne⟩
  | some j =>
    have hj : hit (t j) = true := List.find?_some (p := fun i => hit (t i)) hfirst
    exact ⟨j,rfl,hj,hpre j (List.mem_of_find?_eq_some hfirst)⟩

omit [DecidableEq ι] in
/-- Lookups of a key are exact unless it is shadowed. -/
theorem Holds.exact_iff (h : Holds slots key free t vs)
    (hkeys : ∀ v ∈ vs, ∀ w ∈ vs, key v = key w → v = w)
    (hfree : ∀ v, hit v = true → free v = false) :
    Exact slots key hit t vs k ↔ ¬ Shadowed slots key hit t k := by
  constructor
  · intro hexact hshadow
    obtain ⟨i,hi,hhit,hne⟩ := hshadow.seek
    by_cases hsome : ∃ v ∈ vs, key v = k
    · obtain ⟨v,hv,rfl⟩ := hsome
      obtain ⟨j,hj,rfl⟩ := hexact.found v hv rfl
      rw [hj, Option.some.injEq] at hi
      exact hne (congrArg (fun i => key (t i)) hi.symm)
    · push Not at hsome
      rw [hexact.missed hsome] at hi
      cases hi
  · intro hs
    have hmem {i : ι} (hi : Probing.seek slots hit t k = some i) : t i ∈ vs :=
      h.held i (hfree _ (hit_of_seek hi))
    constructor
    · rintro v hv rfl
      obtain ⟨j,hj,hjv⟩ := h.placed v hv
      have hhit : hit (t j) = true := hself (t j) (congrArg key hjv)
      cases hi : Probing.seek slots hit t (key v) with
      | none =>
        have hmiss := List.find?_eq_none.mp hi j hj
        exact absurd hhit hmiss
      | some i =>
        exact ⟨i,rfl,hkeys _ (hmem hi) v hv (key_of_seek hself hs hi)⟩
    · intro hnone
      apply Option.eq_none_iff_forall_ne_some.mpr
      intro i hi
      exact hnone (t i) (hmem hi) (key_of_seek hself hs hi)

end Exactness

omit [DecidableEq ι] in
/-- With two slots the key may only stand before the second. -/
theorem shadowed_pair {a b : ι} (h : slots k = [a,b]) : Shadowed slots key hit t k ↔
    (hit (t a) = true ∧ key (t a) ≠ k) ∨
      (key (t a) ≠ k ∧ hit (t b) = true ∧ key (t b) ≠ k) := by
  constructor
  · rintro ⟨pre,i,post,hslots,hhit,hne,hpre⟩
    rw [h] at hslots
    cases pre with
    | nil =>
      cases hslots
      exact .inl ⟨hhit,hne⟩
    | cons c pre =>
      cases pre with
      | nil =>
        cases hslots
        exact .inr ⟨hpre a List.mem_cons_self,hhit,hne⟩
      | cons d pre =>
        have hlen := congrArg List.length hslots
        simp at hlen
  · rintro (⟨hhit,hne⟩ | ⟨ha,hhit,hne⟩)
    · exact ⟨[],a,[b],h,hhit,hne,by simp⟩
    · exact ⟨[a],b,[],h,hhit,hne,by simpa using ha⟩

end Kaplar.Probing
