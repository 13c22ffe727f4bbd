import Mathlib.Algebra.BigOperators.Group.List.Basic
import Mathlib.Algebra.Order.Group.Unbundled.Int
import Mathlib.RingTheory.Int.Basic
import Mathlib.Tactic.Linarith
import Mathlib.Tactic.Ring

/-! # Sums that notice changes

A list of changes has a sum, and a sum in which every change counts once for each place from
its own to the end. Modulo a prime that exceeds the length of the list and the size of two
changes, a single change moves both sums and two changes move at least one of them.
-/
namespace Kaplar.Weighted
variable {ds : List ℤ} {p : ℕ}

def weighted : List ℤ → ℤ
  | [] => 0
  | d :: ds => (ds.length + 1) * d + weighted ds

/-- The number of places that have changed. -/
def changed (ds : List ℤ) : ℕ := ds.countP (fun d => d ≠ 0)

theorem changed_cons (d : ℤ) (ds : List ℤ) :
    changed (d :: ds) = changed ds + if d ≠ 0 then 1 else 0 := by
  rw [changed, changed, List.countP_cons]
  simp only [decide_eq_true_iff]

theorem sums_of_none (h : changed ds = 0) : ds.sum = 0 ∧ weighted ds = 0 := by
  induction ds with
  | nil => exact ⟨rfl,rfl⟩
  | cons d ds ih =>
    rw [changed_cons] at h
    split at h
    case isTrue => omega
    case isFalse hd =>
      obtain ⟨hs,hw⟩ := ih h
      rw [not_not] at hd
      rw [List.sum_cons, weighted, hd, hs, hw]
      simp

theorem sums_of_one (h : changed ds = 1) : ∃ d ∈ ds, d ≠ 0 ∧ ds.sum = d ∧
    ∃ k : ℕ, 0 < k ∧ k ≤ ds.length ∧ weighted ds = k * d := by
  induction ds with
  | nil => cases h
  | cons d ds ih =>
    rw [changed_cons] at h
    split at h
    case isTrue hd =>
      have hrest : changed ds = 0 := by omega
      obtain ⟨hs,hw⟩ := sums_of_none hrest
      refine ⟨d,List.mem_cons_self,hd,by rw [List.sum_cons, hs, add_zero],ds.length + 1,
        Nat.succ_pos _,Nat.le_refl _,?_⟩
      rw [weighted, hw, add_zero]
      push_cast
      rfl
    case isFalse hd =>
      obtain ⟨d',hm,hne,hs,k,hk,hle,hw⟩ := ih h
      rw [not_not] at hd
      refine ⟨d',List.mem_cons_of_mem _ hm,hne,by rw [List.sum_cons, hd, zero_add, hs],k,hk,
        Nat.le_succ_of_le hle,?_⟩
      rw [weighted, hd, mul_zero, zero_add, hw]

theorem sums_of_two (h : changed ds = 2) : ∃ d ∈ ds, ∃ d' ∈ ds, d ≠ 0 ∧ ds.sum = d + d' ∧
    ∃ j k : ℕ, j < k ∧ k ≤ ds.length ∧ weighted ds = k * d + j * d' := by
  induction ds with
  | nil => cases h
  | cons d ds ih =>
    rw [changed_cons] at h
    split at h
    case isTrue hd =>
      have hrest : changed ds = 1 := by omega
      obtain ⟨d',hm,-,hs,j,-,hle,hw⟩ := sums_of_one hrest
      refine ⟨d,List.mem_cons_self,d',List.mem_cons_of_mem _ hm,hd,by rw [List.sum_cons, hs],j,
        ds.length + 1,Nat.lt_succ_of_le hle,Nat.le_refl _,?_⟩
      rw [weighted, hw]
      push_cast
      rfl
    case isFalse hd =>
      obtain ⟨e,he,e',he',hne,hs,j,k,hjk,hle,hw⟩ := ih h
      rw [not_not] at hd
      refine ⟨e,List.mem_cons_of_mem _ he,e',List.mem_cons_of_mem _ he',hne,?_,j,k,hjk,
        Nat.le_succ_of_le hle,?_⟩
      · rw [List.sum_cons, hd, zero_add, hs]
      · rw [weighted, hd, mul_zero, zero_add, hw]

/-! ## Modulo a prime -/

/-- Small multiples of a small change are no multiples of the prime. -/
theorem not_dvd_mul (hp : p.Prime) {d : ℤ} {k : ℕ} (hd : d ≠ 0) (hdp : |d| < p) (hk : 0 < k)
    (hkp : k < p) : ¬ (p : ℤ) ∣ k * d := by
  intro hdvd
  rcases (Nat.prime_iff_prime_int.mp hp).dvd_or_dvd hdvd with hk' | hd'
  · exact absurd (Nat.le_of_dvd hk (Int.natCast_dvd_natCast.mp hk')) (Nat.not_le_of_lt hkp)
  · exact hd (Int.eq_zero_of_abs_lt_dvd hd' hdp)

theorem one_noticed (hp : p.Prime) (hlen : ds.length < p) (hsmall : ∀ d ∈ ds, 2 * |d| < p)
    (h : changed ds = 1) : ¬ (p : ℤ) ∣ ds.sum ∧ ¬ (p : ℤ) ∣ weighted ds := by
  obtain ⟨d,hm,hd,hs,k,hk,hle,hw⟩ := sums_of_one h
  have hdp : |d| < p := by
    have := hsmall d hm
    have := abs_nonneg d
    linarith
  rw [hs, hw]
  refine ⟨fun hdvd => ?_,not_dvd_mul hp hd hdp hk (hle.trans_lt hlen)⟩
  exact hd (Int.eq_zero_of_abs_lt_dvd hdvd hdp)

theorem two_noticed (hp : p.Prime) (hlen : ds.length < p) (hsmall : ∀ d ∈ ds, 2 * |d| < p)
    (h : changed ds = 2) : ¬ ((p : ℤ) ∣ ds.sum ∧ (p : ℤ) ∣ weighted ds) := by
  obtain ⟨d,hm,d',hm',hd,hs,j,k,hjk,hle,hw⟩ := sums_of_two h
  rintro ⟨hsum,hweighted⟩
  rw [hs] at hsum
  rw [hw] at hweighted
  have hdp := hsmall d hm
  have hdp' := hsmall d' hm'
  -- the two changes cancel in the sum, and not where they count differently often
  have hcancel : d' = -d := by
    have hzero := Int.eq_zero_of_abs_lt_dvd hsum (by
      have := abs_add_le d d'
      linarith)
    linarith
  have hrest : (k : ℤ) * d + j * d' = (k - j : ℕ) * d := by
    rw [hcancel, Nat.cast_sub hjk.le]
    ring
  rw [hrest] at hweighted
  have hdsmall : |d| < p := by
    have := abs_nonneg d
    linarith
  exact not_dvd_mul hp hd hdsmall (Nat.sub_pos_of_lt hjk) (by omega) hweighted

end Kaplar.Weighted
