import Mathlib.Algebra.Order.BigOperators.Group.List
import Mathlib.Algebra.Order.Field.Basic
import Mathlib.Tactic.Linarith

/-! Choosing by weight.

The place that a number from nought to one picks among some weights is the first one at which the weights so
far exceed that part of their sum; the last one takes what is left. So the numbers that pick a place are an
interval, as long as the place's part of the sum (`pick_eq_iff`). -/
namespace Choices
variable {K : Type*} [Field K] [LinearOrder K] [IsStrictOrderedRing K]

/-- The weight up to a place and with it. -/
def cumulated (weights : List K) (i : ℕ) : K := (weights.take (i + 1)).sum

/-- The first of the places but the last whose cumulated weight exceeds `r` of the sum, or else the last. -/
def pick (weights : List K) (r : K) : ℕ :=
  (List.range (weights.length - 1)).findIdx fun i => decide (r * weights.sum < cumulated weights i)

section Weights
variable {weights : List K} {r : K} {i j : ℕ}

theorem sum_take_mono (hnonneg : ∀ w ∈ weights, 0 ≤ w) (hij : i ≤ j) :
    (weights.take i).sum ≤ (weights.take j).sum := by
  have hsplit : weights.take j = weights.take i ++ (weights.drop i).take (j - i) := by
    rw [← List.take_add, Nat.add_sub_cancel' hij]
  have hrest : 0 ≤ ((weights.drop i).take (j - i)).sum :=
    List.sum_nonneg fun w hw => hnonneg w (List.mem_of_mem_drop (List.mem_of_mem_take hw))
  rw [hsplit, List.sum_append]
  linarith

/-- The numbers between what is cumulated before a place and with it. -/
structure Picks (weights : List K) (r : K) (i : ℕ) : Prop where
  lt_length : i < weights.length
  ge_before : (weights.take i).sum ≤ r * weights.sum
  lt_with : r * weights.sum < cumulated weights i

/-- They are not between those of two places. -/
theorem Picks.unique (hnonneg : ∀ w ∈ weights, 0 ≤ w) (hi : Picks weights r i) (hj : Picks weights r j) : i = j := by
  obtain hlt | heq | hlt := Nat.lt_trichotomy i j
  · exact absurd (hi.lt_with.trans_le ((sum_take_mono hnonneg hlt).trans hj.ge_before)) (lt_irrefl _)
  · exact heq
  · exact absurd (hj.lt_with.trans_le ((sum_take_mono hnonneg hlt).trans hi.ge_before)) (lt_irrefl _)

section Positive
variable (hnonneg : ∀ w ∈ weights, 0 ≤ w) (hpos : 0 < weights.sum) (h0 : 0 ≤ r) (h1 : r < 1)
include hnonneg hpos h0 h1

omit hnonneg in
theorem picks_pick : Picks weights r (pick weights r) := by
  have hlength : 0 < weights.length := by
    cases weights with
    | nil => exact absurd hpos (lt_irrefl 0)
    | cons w weights => exact Nat.succ_pos _
  have hle : pick weights r ≤ weights.length - 1 := List.findIdx_le_length.trans List.length_range.le
  refine ⟨by omega, ?_, ?_⟩
  · cases hpick : pick weights r with
    | zero =>
      rw [List.take_zero, List.sum_nil]
      exact mul_nonneg h0 hpos.le
    | succ i =>
      have hbefore : i < pick weights r := by omega
      have hnot := List.not_of_lt_findIdx hbefore
      rw [decide_eq_false_iff_not, not_lt, List.getElem_range] at hnot
      exact hnot
  · obtain hlt | hlast := hle.lt_or_eq
    · have hlt' : pick weights r < (List.range (weights.length - 1)).length := by rwa [List.length_range]
      rw [pick] at hlt'
      have hfound := of_decide_eq_true (List.findIdx_getElem (w := hlt'))
      simpa only [List.getElem_range, pick] using hfound
    · -- the last place: all of the weights
      rw [hlast, cumulated, Nat.sub_add_cancel hlength, List.take_length]
      exact mul_lt_of_lt_one_left hpos h1

/-- **The numbers that pick a place** are an interval, from what is cumulated before it to what is cumulated
with it. -/
theorem pick_eq_iff : pick weights r = i ↔ Picks weights r i := by
  constructor
  · intro h
    rw [← h]
    exact picks_pick hpos h0 h1
  · intro h
    exact (picks_pick hpos h0 h1).unique hnonneg h

end Positive
end Weights

end Choices
