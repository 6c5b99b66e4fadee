import Mathlib.Algebra.BigOperators.Field
import Mathlib.Algebra.Order.BigOperators.Ring.Finset
import Mathlib.Analysis.Real.Sqrt

/-! The overlap of two distributions.

The overlap of two families of weights is the sum of the square roots of their products. What it misses of
one is half the sum of the squares of the differences of the roots (`sum_sq_sub_sqrt`), so between
distributions it is at most one (`overlap_le_one`), and one exactly if they are the same
(`overlap_eq_one_iff`). Members without weight in one of the two add nothing (`overlap_subset`). -/
namespace Overlap
variable {ι : Type*} {s t : Finset ι} {p q : ι → ℝ}

noncomputable def overlap (s : Finset ι) (p q : ι → ℝ) : ℝ := ∑ i ∈ s, √(p i * q i)

theorem overlap_nonneg : 0 ≤ overlap s p q := Finset.sum_nonneg fun _ _ => Real.sqrt_nonneg _

theorem overlap_comm : overlap s p q = overlap s q p :=
  Finset.sum_congr rfl fun i _ => by rw [mul_comm]

theorem overlap_subset (hst : s ⊆ t) (h : ∀ i ∈ t, i ∉ s → p i * q i = 0) : overlap s p q = overlap t p q := by
  refine Finset.sum_subset hst ?_
  intro i hi hs
  rw [h i hi hs, Real.sqrt_zero]

theorem sq_sub_sqrt {a b : ℝ} (ha : 0 ≤ a) (hb : 0 ≤ b) : (√a - √b) ^ 2 = a + b - 2 * √(a * b) := by
  rw [sub_sq, Real.sq_sqrt ha, Real.sq_sqrt hb, Real.sqrt_mul ha]
  ring

theorem sum_sq_sub_sqrt (hp : ∀ i ∈ s, 0 ≤ p i) (hq : ∀ i ∈ s, 0 ≤ q i) :
    ∑ i ∈ s, (√(p i) - √(q i)) ^ 2 = ∑ i ∈ s, p i + ∑ i ∈ s, q i - 2 * overlap s p q := by
  rw [overlap, Finset.mul_sum, ← Finset.sum_add_distrib, ← Finset.sum_sub_distrib]
  exact Finset.sum_congr rfl fun i hi => sq_sub_sqrt (hp i hi) (hq i hi)

section Distributions
variable (hp : ∀ i ∈ s, 0 ≤ p i) (hq : ∀ i ∈ s, 0 ≤ q i) (hpsum : ∑ i ∈ s, p i = 1) (hqsum : ∑ i ∈ s, q i = 1)
include hp hq hpsum hqsum

/-- The overlap of two distributions is at most one. -/
theorem overlap_le_one : overlap s p q ≤ 1 := by
  have hidentity := sum_sq_sub_sqrt hp hq
  have hnonneg : 0 ≤ ∑ i ∈ s, (√(p i) - √(q i)) ^ 2 := Finset.sum_nonneg fun _ _ => sq_nonneg _
  linarith

/-- It is one only for a distribution with itself. -/
theorem overlap_eq_one_iff : overlap s p q = 1 ↔ ∀ i ∈ s, p i = q i := by
  have hidentity := sum_sq_sub_sqrt hp hq
  rw [hpsum, hqsum] at hidentity
  constructor
  · intro hone
    have hzero : ∑ i ∈ s, (√(p i) - √(q i)) ^ 2 = 0 := by linarith
    rw [Finset.sum_eq_zero_iff_of_nonneg fun _ _ => sq_nonneg _] at hzero
    intro i hi
    exact (Real.sqrt_inj (hp i hi) (hq i hi)).mp (sub_eq_zero.mp (pow_eq_zero_iff two_ne_zero |>.mp (hzero i hi)))
  · intro heq
    have hzero : ∑ i ∈ s, (√(p i) - √(q i)) ^ 2 = 0 := by
      refine Finset.sum_eq_zero ?_
      intro i hi
      rw [heq i hi, sub_self, zero_pow two_ne_zero]
    linarith

end Distributions

end Overlap
