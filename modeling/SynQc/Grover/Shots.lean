import Mathlib.Analysis.SpecialFunctions.Log.Basic
import SynQc.Models

/-! The shot floor: how many shots bound the error of an estimate.

Both Grover modules compute a number of shots from the half-width `eps` and the failure probability
`delta` of an interval, each with its own formula and its own refusals. Over the reals the formulas agree,
and what they compute is the least number of shots for which Hoeffding's bound `2 exp(-2 n eps²)` is at
most `delta` (`minShots_exact`). -/
namespace SynQc.Grover

/-- `min_shots_for_confidence` of `grover.py`. -/
noncomputable def minShotsForConfidence (eps delta : ℝ) : Except Exc ℤ :=
  if eps ≤ 0 ∨ delta ≤ 0 ∨ delta ≥ 1 then .error (.valueError "eps must be >0 and delta in (0,1)")
  else
    let shots := 0.5 * (Real.log (2.0 / delta) / eps ^ 2)
    .ok ⌈shots⌉

/-- `min_shots_for_confidence` of `grover_utils.py`. -/
noncomputable def Utils.minShotsForConfidence (eps delta : ℝ) : Except Exc ℤ :=
  if eps ≤ 0 then .error (.valueError "eps must be > 0")
  else if delta ≤ 0 ∨ delta ≥ 1 then .error (.valueError "delta must be in (0, 1)")
  else .ok ⌈Real.log (2 / delta) / (2 * eps * eps)⌉

section
variable {eps delta : ℝ}

/-! ### The two formulas -/

/-- The number of shots at which the bound is exactly `delta`. -/
noncomputable def hoeffdingShots (eps delta : ℝ) : ℝ := Real.log (2 / delta) / (2 * eps ^ 2)

theorem minShotsForConfidence_eq (heps : 0 < eps) (hdelta : 0 < delta) (hlt : delta < 1) :
    minShotsForConfidence eps delta = .ok ⌈hoeffdingShots eps delta⌉ := by
  have hvalid : ¬(eps ≤ 0 ∨ delta ≤ 0 ∨ delta ≥ 1) := by
    rintro (h | h | h) <;> linarith
  have hshots : 0.5 * (Real.log (2.0 / delta) / eps ^ 2) = hoeffdingShots eps delta := by
    rw [hoeffdingShots, mul_div_assoc', div_eq_div_iff (by positivity) (by positivity)]
    norm_num
    ring
  rw [minShotsForConfidence, if_neg hvalid, hshots]

theorem Utils.minShotsForConfidence_eq (heps : 0 < eps) (hdelta : 0 < delta) (hlt : delta < 1) :
    Utils.minShotsForConfidence eps delta = .ok ⌈hoeffdingShots eps delta⌉ := by
  have hvalid : ¬(delta ≤ 0 ∨ delta ≥ 1) := by
    rintro (h | h) <;> linarith
  rw [Utils.minShotsForConfidence, if_neg (not_le.mpr heps), if_neg hvalid, hoeffdingShots, pow_two, ← mul_assoc]

/-! ### Hoeffding's bound -/

/-- The bound on the error probability falls to `delta` at `hoeffdingShots`. -/
theorem hoeffding_le_iff (heps : 0 < eps) (hdelta : 0 < delta) (n : ℝ) :
    2 * Real.exp (-2 * n * eps ^ 2) ≤ delta ↔ hoeffdingShots eps delta ≤ n := by
  have hsq : 0 < 2 * eps ^ 2 := by positivity
  calc 2 * Real.exp (-2 * n * eps ^ 2) ≤ delta
      ↔ Real.exp (-2 * n * eps ^ 2) ≤ delta / 2 := by rw [le_div_iff₀' (by norm_num)]
    _ ↔ -2 * n * eps ^ 2 ≤ Real.log (delta / 2) := (Real.le_log_iff_exp_le (by positivity)).symm
    _ ↔ -2 * n * eps ^ 2 ≤ -Real.log (2 / delta) := by rw [← Real.log_inv, inv_div]
    _ ↔ Real.log (2 / delta) ≤ n * (2 * eps ^ 2) := by
      constructor <;> intro h <;> linarith
    _ ↔ hoeffdingShots eps delta ≤ n := by rw [hoeffdingShots, div_le_iff₀ hsq]

theorem hoeffdingShots_pos (heps : 0 < eps) (hdelta : 0 < delta) (hlt : delta < 1) :
    0 < hoeffdingShots eps delta := by
  refine div_pos (Real.log_pos ?_) (by positivity)
  rw [lt_div_iff₀ hdelta]
  linarith

/-- **The shot floor is Hoeffding's minimum**: both modules return the least number of shots for which the
bound is at most `delta`, and it is at least one. -/
theorem minShots_exact (heps : 0 < eps) (hdelta : 0 < delta) (hlt : delta < 1) :
    ∃ n : ℤ, minShotsForConfidence eps delta = .ok n ∧ Utils.minShotsForConfidence eps delta = .ok n ∧ 1 ≤ n ∧
      2 * Real.exp (-2 * n * eps ^ 2) ≤ delta ∧
        ∀ k : ℤ, 0 ≤ k → k < n → ¬2 * Real.exp (-2 * k * eps ^ 2) ≤ delta := by
  refine ⟨⌈hoeffdingShots eps delta⌉, minShotsForConfidence_eq heps hdelta hlt,
    Utils.minShotsForConfidence_eq heps hdelta hlt, ?_, ?_, ?_⟩
  · exact Int.one_le_ceil_iff.mpr (hoeffdingShots_pos heps hdelta hlt)
  · exact (hoeffding_le_iff heps hdelta _).mpr (Int.le_ceil _)
  · intro k _ hk
    rw [hoeffding_le_iff heps hdelta, ← Int.ceil_le]
    omega

end

/-- An interval of half-width one at even odds. -/
theorem minShots_exact_half :
    ∃ n : ℤ, minShotsForConfidence 1 (1 / 2) = .ok n ∧ Utils.minShotsForConfidence 1 (1 / 2) = .ok n ∧ 1 ≤ n ∧
      2 * Real.exp (-2 * n * 1 ^ 2) ≤ 1 / 2 ∧
        ∀ k : ℤ, 0 ≤ k → k < n → ¬2 * Real.exp (-2 * k * 1 ^ 2) ≤ 1 / 2 :=
  minShots_exact (by norm_num) (by norm_num) (by norm_num)

end SynQc.Grover
