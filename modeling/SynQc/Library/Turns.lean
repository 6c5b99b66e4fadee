import Mathlib.Analysis.Real.Pi.Bounds
import Mathlib.Analysis.SpecialFunctions.Trigonometric.Bounds
import Mathlib.Tactic.Linarith

/-! How often to turn.

A point at an angle `θ` that is turned by `2θ` each time comes nearest to the right angle after
about `π / 4θ` turns. Where only the sine of `θ` is known, `⌊π / (4 sin θ)⌋` turns are taken
instead, and these can be one too many. Still the point ends near the right angle: the square of
its cosine is at most twice that of the sine it started with, and at most a half (`Asked.cos_sq_le`). -/
namespace Turns

/-- As many turns as the sine of the angle asks for. -/
structure Asked (θ : ℝ) (k : ℕ) : Prop where
  most : k * Real.sin θ ≤ Real.pi / 4
  next : Real.pi / 4 < (k + 1) * Real.sin θ

/-- How far from the right angle the turns end. -/
noncomputable def miss (θ : ℝ) (k : ℕ) : ℝ := (2 * k + 1 : ℕ) * θ - Real.pi / (2 : ℕ)

theorem miss_eq (θ : ℝ) (k : ℕ) : miss θ k = (2 * k + 1) * θ - Real.pi / 2 := by
  rw [miss]
  push_cast
  rfl

theorem asked_floor {θ : ℝ} (hsin : 0 < Real.sin θ) : Asked θ ⌊Real.pi / 4 / Real.sin θ⌋₊ where
  most := (le_div_iff₀ hsin).mp (Nat.floor_le (by have := Real.pi_pos; positivity))
  next := (div_lt_iff₀ hsin).mp (Nat.lt_floor_add_one _)

theorem cos_sq_eq (θ : ℝ) (k : ℕ) : Real.cos ((2 * k + 1) * θ) ^ 2 = Real.sin (miss θ k) ^ 2 := by
  have hangle : (2 * (k : ℝ) + 1) * θ = miss θ k + Real.pi / 2 := by rw [miss_eq, sub_add_cancel]
  rw [hangle, Real.cos_add_pi_div_two, neg_sq]

section
variable {θ : ℝ} {k : ℕ}

/-- A sine of an eighth of `π` belongs to a small angle. -/
theorem le_of_sin_le (hpos : 0 < θ) (hle : θ ≤ Real.pi / 4) (hsin : Real.sin θ ≤ Real.pi / 8) : θ ≤ 42 / 100 := by
  by_contra hlarge
  have hpi := Real.pi_lt_d2
  have hmono : Real.sin (42 / 100) ≤ Real.sin θ := by
    refine Real.sin_le_sin_of_le_of_le_pi_div_two ?_ ?_ (not_le.mp hlarge).le <;> linarith [Real.pi_pos]
  have hcube := Real.sin_gt_sub_cube (x := 42 / 100) (by norm_num)
  norm_num at hcube
  linarith

theorem sin_mem (hpos : 0 < θ) (hle : θ ≤ Real.pi / 4) : 0 < Real.sin θ ∧ Real.sin θ ≤ θ := by
  refine ⟨Real.sin_pos_of_pos_of_lt_pi hpos ?_, Real.sin_le hpos.le⟩
  linarith [Real.pi_pos]

/-- The turns do not end before the right angle by more than the angle itself. -/
theorem Asked.neg_le_miss (h : Asked θ k) (hpos : 0 < θ) (hle : θ ≤ Real.pi / 4) : -θ ≤ miss θ k := by
  have hmul : ((k : ℝ) + 1) * Real.sin θ ≤ (k + 1) * θ :=
    mul_le_mul_of_nonneg_left (sin_mem hpos hle).2 (by positivity)
  have hnext := h.next
  rw [miss_eq]
  linarith

/-- One turn at most does not end behind it by more. -/
theorem miss_le_of_one (hpos : 0 < θ) (hle : θ ≤ Real.pi / 4) (hk : k ≤ 1) : miss θ k ≤ θ := by
  have hcast : (k : ℝ) ≤ 1 := by exact_mod_cast hk
  have hmul : (k : ℝ) * θ ≤ 1 * θ := mul_le_mul_of_nonneg_right hcast hpos.le
  rw [miss_eq]
  linarith

/-- More turns are asked for small angles only, and there a sine is nearly its angle. -/
theorem Asked.miss_le (h : Asked θ k) (hpos : 0 < θ) (hle : θ ≤ Real.pi / 4) (hk : 2 ≤ k) :
    Real.sin θ ≤ Real.pi / 8 ∧ miss θ k ≤ 7 / 5 * Real.sin θ := by
  obtain ⟨hsin, hsinle⟩ := sin_mem hpos hle
  have hcast : (2 : ℝ) ≤ k := by exact_mod_cast hk
  have hsmall : Real.sin θ ≤ Real.pi / 8 := by
    have hmul : 2 * Real.sin θ ≤ k * Real.sin θ := mul_le_mul_of_nonneg_right hcast hsin.le
    linarith [h.most]
  refine ⟨hsmall, ?_⟩
  have hangle := le_of_sin_le hpos hle hsmall
  have hcube := Real.sin_gt_sub_cube hpos
  have hpi := Real.pi_lt_d2
  -- what the angle is more than its sine
  have hgap : θ - Real.sin θ ≤ 7 / 100 * θ ^ 2 := by
    have hthird : θ ^ 3 ≤ 42 / 100 * θ ^ 2 := by
      rw [pow_succ, mul_comm]
      exact mul_le_mul_of_nonneg_right hangle (sq_nonneg θ)
    linarith
  have hratio : 97 / 100 * θ ≤ Real.sin θ := by nlinarith
  have hscaled : miss θ k * Real.sin θ ≤ 7 / 5 * Real.sin θ * Real.sin θ := by
    have hturns : (2 * k * θ) * Real.sin θ ≤ Real.pi / 2 * θ := by
      have := mul_le_mul_of_nonneg_right h.most hpos.le
      nlinarith
    have hexpand : miss θ k * Real.sin θ = 2 * k * θ * Real.sin θ + θ * Real.sin θ - Real.pi / 2 * Real.sin θ := by
      rw [miss_eq]
      ring
    have hpart : Real.pi / 2 * (θ - Real.sin θ) ≤ 315 / 200 * (7 / 100 * θ ^ 2) :=
      mul_le_mul (by linarith) hgap (by linarith) (by norm_num)
    nlinarith
  exact le_of_mul_le_mul_right hscaled hsin

/-- **The turns end near the right angle.** -/
theorem Asked.cos_sq_le (h : Asked θ k) (hpos : 0 < θ) (hle : θ ≤ Real.pi / 4) :
    Real.cos ((2 * k + 1) * θ) ^ 2 ≤ 2 * Real.sin θ ^ 2 ∧ Real.cos ((2 * k + 1) * θ) ^ 2 ≤ 1 / 2 := by
  have hlow := h.neg_le_miss hpos hle
  have hhalf : Real.sin θ ^ 2 ≤ 1 / 2 := by
    have hsin : Real.sin θ ≤ √2 / 2 := by
      rw [← Real.sin_pi_div_four]
      refine Real.sin_le_sin_of_le_of_le_pi_div_two ?_ ?_ hle <;> linarith [Real.pi_pos]
    calc Real.sin θ ^ 2 ≤ (√2 / 2) ^ 2 := pow_le_pow_left₀ (sin_mem hpos hle).1.le hsin 2
      _ = 1 / 2 := by rw [div_pow, Real.sq_sqrt (by norm_num)]; norm_num
  rw [cos_sq_eq]
  by_cases hnear : miss θ k ≤ θ
  · have hwithin : Real.sin (miss θ k) ^ 2 ≤ Real.sin θ ^ 2 := by
      rw [sq_le_sq, abs_of_pos (sin_mem hpos hle).1, abs_le, ← Real.sin_neg]
      constructor <;> refine Real.sin_le_sin_of_le_of_le_pi_div_two ?_ ?_ ?_ <;> linarith [Real.pi_pos]
    exact ⟨by nlinarith, hwithin.trans hhalf⟩
  · have hk : 2 ≤ k := by
      by_contra hk
      exact hnear (miss_le_of_one hpos hle (by omega))
    obtain ⟨hsmall, hmiss⟩ := h.miss_le hpos hle hk
    have hbehind : 0 < miss θ k := hpos.trans (not_le.mp hnear)
    have hsquare : Real.sin (miss θ k) ^ 2 ≤ miss θ k ^ 2 := Real.sin_sq_le_sq
    have hsin := (sin_mem hpos hle).1
    have hpi := Real.pi_lt_d2
    constructor <;> nlinarith

end

end Turns
