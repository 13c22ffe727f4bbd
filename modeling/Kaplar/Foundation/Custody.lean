import Mathlib.Algebra.Order.BigOperators.Group.Finset
import Mathlib.Data.List.Nodup

/-! # Custody

Things are made one by one, and from then on each of them is in one place: with one of
finitely many keepers, in the hand of the code that runs, or gone. Whoever moves a thing
gives it to somebody else, so that nothing is lost and nothing goes twice.
-/
namespace Kaplar
variable {α : Type} [DecidableEq α]

/-- How often the keepers below `n` have a thing. -/
def kept (n : ℕ) (keeps : ℕ → List α) (x : α) : ℕ := ∑ i ∈ Finset.range n, (keeps i).count x

/-- Everything that was made is in exactly one place. -/
structure Custody (n : ℕ) (made gone hand : List α) (keeps : ℕ → List α) : Prop where
  once : made.Nodup
  balance : ∀ x, made.count x = gone.count x + hand.count x + kept n keeps x

section Kept
variable {n i j : ℕ} {keeps : ℕ → List α} {l : List α} {x : α}

theorem kept_update (keeps : ℕ → List α) (l : List α) (x : α) (hi : i < n) :
    kept n (Function.update keeps i l) x + (keeps i).count x = kept n keeps x + l.count x := by
  have hmem := Finset.mem_range.mpr hi
  have hsplit (f : ℕ → List α) : kept n f x =
      (f i).count x + ∑ j ∈ (Finset.range n).erase i, (f j).count x :=
    (Finset.add_sum_erase _ (fun j => (f j).count x) hmem).symm
  have hrest : ∑ j ∈ (Finset.range n).erase i, (Function.update keeps i l j).count x =
      ∑ j ∈ (Finset.range n).erase i, (keeps j).count x := by
    refine Finset.sum_congr rfl (fun j hj => ?_)
    rw [Function.update_of_ne (Finset.ne_of_mem_erase hj)]
  rw [hsplit, hrest, hsplit keeps, Function.update_self]
  omega

theorem count_le_kept (keeps : ℕ → List α) (x : α) (hi : i < n) :
    (keeps i).count x ≤ kept n keeps x :=
  Finset.single_le_sum (f := fun i => (keeps i).count x) (fun _ _ => Nat.zero_le _)
    (Finset.mem_range.mpr hi)

theorem count_add_le_kept (keeps : ℕ → List α) (x : α) (hi : i < n) (hj : j < n) (hij : i ≠ j) :
    (keeps i).count x + (keeps j).count x ≤ kept n keeps x := by
  have hupdate := kept_update keeps [] x hi
  have hle := count_le_kept (Function.update keeps i []) x hj
  rw [Function.update_of_ne hij.symm] at hle
  rw [List.count_nil] at hupdate
  omega

theorem exists_of_kept (h : 0 < kept n keeps x) : ∃ i < n, x ∈ keeps i := by
  obtain ⟨i,hi,hpos⟩ := Finset.exists_ne_zero_of_sum_ne_zero (Nat.ne_of_gt h)
  exact ⟨i,Finset.mem_range.mp hi,List.count_pos_iff.mp (Nat.pos_of_ne_zero hpos)⟩

end Kept

namespace Custody
variable {n i j : ℕ} {made gone hand hand' l : List α} {keeps : ℕ → List α} {x : α}

theorem nothing (n : ℕ) : Custody n ([] : List α) [] [] (fun _ => []) where
  once := List.nodup_nil
  balance x := by simp [kept]

/-- Something new is at hand. -/
theorem make (hc : Custody n made gone hand keeps) (hx : x ∉ made) :
    Custody n (made ++ [x]) gone (x :: hand) keeps where
  once := List.nodup_append.mpr ⟨hc.once,List.nodup_singleton x,fun a ha b hb => by
    rw [List.mem_singleton.mp hb]
    exact fun he => hx (he ▸ ha)⟩
  balance y := by
    have hb := hc.balance y
    rw [List.count_append, List.count_cons, List.count_cons, List.count_nil]
    omega

/-- What is at hand goes. -/
theorem drop (hc : Custody n made gone (x :: hand) keeps) :
    Custody n made (gone ++ [x]) hand keeps where
  once := hc.once
  balance y := by
    have hb := hc.balance y
    rw [List.count_cons] at hb
    rw [List.count_append, List.count_cons, List.count_nil]
    omega

/-- The hand and one keeper exchange what they have. -/
theorem exchange (hc : Custody n made gone hand keeps) (hi : i < n)
    (hp : (hand' ++ l).Perm (hand ++ keeps i)) :
    Custody n made gone hand' (Function.update keeps i l) where
  once := hc.once
  balance y := by
    have hb := hc.balance y
    have hcount := hp.count_eq y
    have hupdate := kept_update keeps l y hi
    rw [List.count_append, List.count_append] at hcount
    omega

theorem count_le_one (hc : Custody n made gone hand keeps) (x : α) :
    gone.count x + hand.count x + kept n keeps x ≤ 1 := by
  rw [← hc.balance x]
  exact List.nodup_iff_count_le_one.mp hc.once x

theorem gone_nodup (hc : Custody n made gone hand keeps) : gone.Nodup := by
  rw [List.nodup_iff_count_le_one]
  intro x
  have hle := hc.count_le_one x
  omega

/-- What was made and has not gone is with exactly one keeper, if nothing is at hand. -/
theorem keeper (hc : Custody n made gone [] keeps) (hm : x ∈ made) (hg : x ∉ gone) :
    ∃! i, i < n ∧ x ∈ keeps i := by
  have hb := hc.balance x
  have hle := hc.count_le_one x
  have hpos := List.count_pos_iff.mpr hm
  rw [List.count_eq_zero.mpr hg, List.count_nil] at hb
  obtain ⟨i,hi,hx⟩ := exists_of_kept (by omega : 0 < kept n keeps x)
  refine ⟨i,⟨hi,hx⟩,?_⟩
  rintro j ⟨hj,hxj⟩
  by_contra hne
  have hsum := count_add_le_kept keeps x hj hi hne
  have hposi := List.count_pos_iff.mpr hx
  have hposj := List.count_pos_iff.mpr hxj
  omega

/-- What a keeper has was made, has not gone, and is there once. -/
theorem kept_spec (hc : Custody n made gone hand keeps) (hi : i < n) (hx : x ∈ keeps i) :
    x ∈ made ∧ x ∉ gone ∧ (keeps i).count x = 1 := by
  have hle := hc.count_le_one x
  have hb := hc.balance x
  have hpos := List.count_pos_iff.mpr hx
  have hkept := count_le_kept keeps x hi
  exact ⟨List.count_pos_iff.mp (by omega),List.count_eq_zero.mp (by omega),by omega⟩

end Custody

end Kaplar
