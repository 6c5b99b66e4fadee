import Mathlib.Tactic.LinearCombination
import SynQc.Library.Overlap

/-! How far a distribution is from its mixtures.

Mixing another distribution in, a little or much, moves a distribution away from itself: the fidelity, which
is the square of the overlap, goes down as the weight of the other one goes up (`fidelity_antitone`). It goes
down slowly. A mixture keeps its share of the first distribution, so the fidelity is no less than that share
(`fidelity_mixture_ge`), and from one weight to the next it falls by no more than the weight grows, relative
to that share (`fidelity_step`). -/
namespace Overlap
variable {ι : Type*} {s : Finset ι} {p u : ι → ℝ} {a b : ℝ}

/-- A share `a` of `u` mixed into `p`. -/
def mixture (a : ℝ) (p u : ι → ℝ) : ι → ℝ := fun i => (1 - a) * p i + a * u i

noncomputable def fidelity (s : Finset ι) (p q : ι → ℝ) : ℝ := overlap s p q * overlap s p q

theorem mixture_zero : mixture 0 p u = p := by
  funext i
  rw [mixture, sub_zero, one_mul, zero_mul, add_zero]

theorem mixture_mixture : mixture a p (mixture b p u) = mixture (a * b) p u := by
  funext i
  simp only [mixture]
  ring

theorem mixture_nonneg (h0 : 0 ≤ a) (h1 : a ≤ 1) (hp : ∀ i ∈ s, 0 ≤ p i) (hu : ∀ i ∈ s, 0 ≤ u i) :
    ∀ i ∈ s, 0 ≤ mixture a p u i :=
  fun i hi => add_nonneg (mul_nonneg (sub_nonneg.mpr h1) (hp i hi)) (mul_nonneg h0 (hu i hi))

theorem sum_mixture (hp : ∑ i ∈ s, p i = 1) (hu : ∑ i ∈ s, u i = 1) : ∑ i ∈ s, mixture a p u i = 1 := by
  simp only [mixture]
  rw [Finset.sum_add_distrib, ← Finset.mul_sum, ← Finset.mul_sum, hp, hu]
  ring

theorem overlap_self (hp : ∀ i ∈ s, 0 ≤ p i) : overlap s p p = ∑ i ∈ s, p i :=
  Finset.sum_congr rfl fun i hi => Real.sqrt_mul_self (hp i hi)

/-- The square root of a mixture is above the mixture of the square roots. -/
theorem le_sqrt_mixture {c x m : ℝ} (h0 : 0 ≤ c) (h1 : c ≤ 1) (hx : 0 ≤ x) (hm : 0 ≤ m) :
    (1 - c) * x + c * √(x * m) ≤ √(x * ((1 - c) * x + c * m)) := by
  refine Real.le_sqrt_of_sq_le ?_
  have hroot : √(x * m) ^ 2 = x * m := Real.sq_sqrt (mul_nonneg hx hm)
  have hgap : 0 ≤ c * (1 - c) * (x - √(x * m)) ^ 2 :=
    mul_nonneg (mul_nonneg h0 (sub_nonneg.mpr h1)) (sq_nonneg _)
  linear_combination hgap + c * hroot

theorem overlap_mixture_ge (h0 : 0 ≤ a) (h1 : a ≤ 1) (hp : ∀ i ∈ s, 0 ≤ p i) (hu : ∀ i ∈ s, 0 ≤ u i)
    (hpsum : ∑ i ∈ s, p i = 1) : 1 - a + a * overlap s p u ≤ overlap s p (mixture a p u) := by
  calc 1 - a + a * overlap s p u = ∑ i ∈ s, ((1 - a) * p i + a * √(p i * u i)) := by
        rw [Finset.sum_add_distrib, ← Finset.mul_sum, ← Finset.mul_sum, hpsum, mul_one, overlap]
    _ ≤ overlap s p (mixture a p u) :=
        Finset.sum_le_sum fun i hi => le_sqrt_mixture h0 h1 (hp i hi) (hu i hi)

section Distributions
variable (hp : ∀ i ∈ s, 0 ≤ p i) (hu : ∀ i ∈ s, 0 ≤ u i) (hpsum : ∑ i ∈ s, p i = 1) (husum : ∑ i ∈ s, u i = 1)
include hp hu hpsum husum

theorem fidelity_mixture_le_one (h0 : 0 ≤ a) (h1 : a ≤ 1) : fidelity s p (mixture a p u) ≤ 1 :=
  have hle := overlap_le_one hp (mixture_nonneg h0 h1 hp hu) hpsum (sum_mixture hpsum husum)
  mul_le_one₀ hle overlap_nonneg hle

/-- The smaller weight is a mixture with the greater one, and overlaps are at most one. -/
theorem overlap_antitone (h0 : 0 ≤ a) (hab : a ≤ b) (h1 : b ≤ 1) :
    overlap s p (mixture b p u) ≤ overlap s p (mixture a p u) := by
  obtain rfl | hb := (h0.trans hab).eq_or_lt
  · rw [le_antisymm hab h0]
  · have hratio : a / b ≤ 1 := (div_le_one hb).mpr hab
    have hratio0 : 0 ≤ a / b := div_nonneg h0 hb.le
    have hbetween := overlap_mixture_ge hratio0 hratio hp (mixture_nonneg hb.le h1 hp hu) hpsum
    rw [mixture_mixture, div_mul_cancel₀ a hb.ne'] at hbetween
    have hle := overlap_le_one hp (mixture_nonneg hb.le h1 hp hu) hpsum (sum_mixture hpsum husum)
    have hshare := mul_le_mul_of_nonneg_left hle (sub_nonneg.mpr hratio)
    linarith

/-- **More of the other is less of the first.** -/
theorem fidelity_antitone (h0 : 0 ≤ a) (hab : a ≤ b) (h1 : b ≤ 1) :
    fidelity s p (mixture b p u) ≤ fidelity s p (mixture a p u) :=
  have hle := overlap_antitone hp hu hpsum husum h0 hab h1
  mul_self_le_mul_self overlap_nonneg hle

omit hpsum husum in
/-- **The fidelity falls slowly**: the shares bound its decrease. -/
theorem fidelity_step (hab : a ≤ b) (h1 : b ≤ 1) :
    (1 - b) * fidelity s p (mixture a p u) ≤ (1 - a) * fidelity s p (mixture b p u) := by
  have hb : 0 ≤ 1 - b := sub_nonneg.mpr h1
  have ha : 0 ≤ 1 - a := by linarith
  have hroot : √(1 - b) * overlap s p (mixture a p u) ≤ √(1 - a) * overlap s p (mixture b p u) := by
    rw [overlap, overlap, Finset.mul_sum, Finset.mul_sum]
    refine Finset.sum_le_sum fun i hi => ?_
    rw [← Real.sqrt_mul hb, ← Real.sqrt_mul ha]
    refine Real.sqrt_le_sqrt ?_
    -- what `b` has more of the other outweighs what it has less of the first
    have hgap : 0 ≤ p i * ((b - a) * u i) := mul_nonneg (hp i hi) (mul_nonneg (sub_nonneg.mpr hab) (hu i hi))
    simp only [mixture]
    linear_combination hgap
  have hsquare := mul_self_le_mul_self (mul_nonneg (Real.sqrt_nonneg _) overlap_nonneg) hroot
  rw [mul_mul_mul_comm √(1 - b), mul_mul_mul_comm √(1 - a), Real.mul_self_sqrt hb, Real.mul_self_sqrt ha] at hsquare
  exact hsquare

omit husum in
/-- A mixture keeps its share of the first. -/
theorem fidelity_mixture_ge (h0 : 0 ≤ a) (h1 : a ≤ 1) : 1 - a ≤ fidelity s p (mixture a p u) := by
  have hstep := fidelity_step hp hu h0 h1
  rw [mixture_zero, fidelity, overlap_self hp, hpsum, sub_zero] at hstep
  linarith

end Distributions

end Overlap
