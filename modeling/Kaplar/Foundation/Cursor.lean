import Mathlib.Data.List.Basic

/-! # A cursor along a list

A cursor knows one position and how to get from it to the next. Where each step leads from a
member of a list to the following one, the cursor visits the list.
-/
namespace Kaplar.Cursor
variable {ι : Type*} {next prev : Option ι → Option (Option ι)} {l : List ι} {x y : ι} {fuel : ℕ}

/-- All that the cursor visits from a position on, until there is no next one. -/
def walk (next : Option ι → Option (Option ι)) : ℕ → Option ι → Option (List ι)
  | 0, _ => none
  | _ + 1, none => some []
  | fuel + 1, some x => do
    let p ← next (some x)
    let l ← walk next fuel p
    pure (x :: l)

/-- Each step leads from a member of the list to the following one. -/
def Follows (next : Option ι → Option (Option ι)) (l : List ι) : Prop :=
  ∀ pre x post, l = pre ++ x :: post → next (some x) = some post.head?

/-- In a list without repetition a member stands in one place only. -/
theorem follows_of_nodup (hn : l.Nodup) (h : ∀ x ∈ l, ∃ pre post, l = pre ++ x :: post ∧
    next (some x) = some post.head?) : Follows next l := by
  rintro pre x post rfl
  obtain ⟨pre',post',heq,hnext⟩ := h x (by simp)
  have hx : x ∉ pre ∧ x ∉ post := by
    obtain ⟨_,hpost,hdisjoint⟩ := List.nodup_append.mp hn
    constructor
    · intro hpre
      exact hdisjoint x hpre x List.mem_cons_self rfl
    · exact (List.nodup_cons.mp hpost).1
  obtain ⟨_,_,rfl⟩ := (List.append_cons_inj_of_notMem hx.1 hx.2).mp heq
  exact hnext

theorem Follows.tail (h : Follows next (x :: l)) : Follows next l := by
  intro pre y post hl
  apply h (x :: pre)
  rw [hl]
  rfl

theorem Follows.walk_eq (h : Follows next l) (hf : l.length < fuel) :
    walk next fuel l.head? = some l := by
  induction l generalizing fuel with
  | nil =>
    obtain ⟨n,rfl⟩ := Nat.exists_eq_add_of_lt hf
    rfl
  | cons x l ih =>
    cases fuel with
    | zero => omega
    | succ fuel =>
      have hstep : next (some x) = some l.head? := h [] x l rfl
      have hrest : walk next fuel l.head? = some l :=
        ih h.tail (by rw [List.length_cons] at hf; omega)
      change (next (some x)).bind _ = _
      rw [hstep, Option.bind_some, hrest]
      rfl

/-- A step back undoes a step, for a second cursor that goes the other way. -/
theorem Follows.back (h : Follows next l) (hback : Follows prev l.reverse) (hx : x ∈ l)
    (hy : next (some x) = some (some y)) : prev (some y) = some (some x) := by
  obtain ⟨pre,post,rfl⟩ := List.append_of_mem hx
  rw [h pre x post rfl, Option.some.injEq] at hy
  obtain ⟨post,rfl⟩ : ∃ rest, post = y :: rest := by
    cases post with
    | nil => cases hy
    | cons z post =>
      cases hy
      exact ⟨post,rfl⟩
  apply hback post.reverse y (x :: pre.reverse)
  simp

end Kaplar.Cursor
