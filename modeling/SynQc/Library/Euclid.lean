import Mathlib.Algebra.Order.Ring.Int
import Mathlib.Data.Int.GCD
import Mathlib.Data.Nat.Fib.Basic
import Mathlib.Tactic.Linarith

/-! The divisions of Euclid's algorithm on integers.

The remainders are those of a division that rounds down, so they have the divisor's sign and get smaller in
absolute value. The algorithm makes no more divisions than it takes Fibonacci numbers to pass the second
argument (`divisions_le`), and on neighbouring Fibonacci numbers it makes that many (`divisions_fib`). -/
namespace Euclid

theorem natAbs_fmod_lt (a : ℤ) {b : ℤ} (hb : b ≠ 0) : (a.fmod b).natAbs < b.natAbs := by
  have hlt := Int.emod_lt_abs a hb
  have hnonneg := Int.emod_nonneg a hb
  rw [Int.abs_eq_natAbs] at hlt
  rw [Int.fmod_eq_emod]
  split
  · omega
  · rename_i h
    have : a % b ≠ 0 := fun h0 => h (.inr (Int.dvd_of_emod_eq_zero h0))
    omega

theorem gcd_fmod (a b : ℤ) : Int.gcd b (a.fmod b) = Int.gcd a b := by
  rw [Int.fmod_def, sub_eq_add_neg, neg_mul_eq_mul_neg, Int.gcd_add_mul_left_right, Int.gcd_comm]

theorem fmod_nonpos (a : ℤ) {b : ℤ} (hb : b < 0) : a.fmod b ≤ 0 := by
  have hlt := Int.emod_lt_abs a hb.ne
  rw [abs_of_neg hb] at hlt
  rw [Int.fmod_eq_emod]
  split
  · rename_i h
    have : a % b = 0 := Int.emod_eq_zero_of_dvd (h.resolve_left (by omega))
    omega
  · omega

/-- How often the algorithm divides until the second number is nought. -/
def divisions (a b : ℤ) : ℕ := if hb : b = 0 then 0 else divisions b (a.fmod b) + 1
termination_by b.natAbs
decreasing_by exact natAbs_fmod_lt a hb

section
variable {a b : ℤ} {n : ℕ}

theorem divisions_zero (a : ℤ) : divisions a 0 = 0 := by
  rw [divisions, dif_pos rfl]

theorem divisions_of_ne_zero (a : ℤ) (hb : b ≠ 0) : divisions a b = divisions b (a.fmod b) + 1 := by
  rw [divisions, dif_neg hb]

theorem ne_zero_of_lt_divisions (h : n < divisions a b) : b ≠ 0 := by
  rintro rfl
  rw [divisions_zero] at h
  exact absurd h (Nat.not_lt_zero n)

/-- A number is no less than a smaller one of its sign and the remainder together. -/
theorem natAbs_add_natAbs_fmod_le (a : ℤ) (hb : b ≠ 0) (hr : a.fmod b ≠ 0) :
    (a.fmod b).natAbs + (b.fmod (a.fmod b)).natAbs ≤ b.natAbs := by
  have hlt := natAbs_fmod_lt a hb
  have hdivided := Int.fmod_add_mul_fdiv b (a.fmod b)
  obtain hneg | hpos := lt_or_gt_of_ne hb
  · have hr0 : a.fmod b < 0 := lt_of_le_of_ne (fmod_nonpos a hneg) hr
    have hq0 : 1 ≤ b.fdiv (a.fmod b) := by
      by_contra hq
      have hprod : 0 ≤ a.fmod b * b.fdiv (a.fmod b) := mul_nonneg_of_nonpos_of_nonpos hr0.le (by omega)
      have := natAbs_fmod_lt b hr
      have := fmod_nonpos b hr0
      omega
    have hprod : a.fmod b * b.fdiv (a.fmod b) ≤ a.fmod b := by nlinarith
    have := fmod_nonpos b hr0
    omega
  · have hr0 : 0 < a.fmod b := lt_of_le_of_ne (Int.fmod_nonneg_of_pos a hpos) (Ne.symm hr)
    have hq0 : 1 ≤ b.fdiv (a.fmod b) := by
      by_contra hq
      have hprod : a.fmod b * b.fdiv (a.fmod b) ≤ 0 := mul_nonpos_of_nonneg_of_nonpos hr0.le (by omega)
      have := natAbs_fmod_lt b hr
      have := Int.fmod_nonneg_of_pos b hr0
      omega
    have hprod : a.fmod b ≤ a.fmod b * b.fdiv (a.fmod b) := by nlinarith
    have := Int.fmod_nonneg_of_pos b hr0
    omega

theorem fib_le_of_lt_divisions (h : n < divisions a b) : Nat.fib (n + 2) ≤ b.natAbs := by
  induction n using Nat.twoStepInduction generalizing a b with
  | zero =>
    have hb := ne_zero_of_lt_divisions h
    rw [Nat.zero_add, Nat.fib_two]
    omega
  | one =>
    have hb := ne_zero_of_lt_divisions h
    rw [divisions_of_ne_zero a hb] at h
    have hr := ne_zero_of_lt_divisions (Nat.lt_of_succ_lt_succ h)
    have hlt := natAbs_fmod_lt a hb
    have hthree : Nat.fib (1 + 2) = 2 := rfl
    omega
  | more n ih ih' =>
    have hb := ne_zero_of_lt_divisions h
    rw [divisions_of_ne_zero a hb] at h
    have hlt := Nat.lt_of_succ_lt_succ h
    have hr := ne_zero_of_lt_divisions hlt
    have hfirst := ih' hlt
    rw [divisions_of_ne_zero b hr] at hlt
    have hsecond := ih (Nat.lt_of_succ_lt_succ hlt)
    calc Nat.fib (n + 2 + 2) = Nat.fib (n + 2) + Nat.fib (n + 1 + 2) := Nat.fib_add_two
      _ ≤ (a.fmod b).natAbs + (b.fmod (a.fmod b)).natAbs := by omega
      _ ≤ b.natAbs := natAbs_add_natAbs_fmod_le a hb hr

/-- **No more divisions than Fibonacci numbers** up to the second argument. -/
theorem divisions_le (a : ℤ) (h : b.natAbs < Nat.fib (n + 2)) : divisions a b ≤ n := by
  by_contra hmore
  exact absurd (fib_le_of_lt_divisions (not_le.mp hmore)) (not_le.mpr h)

/-- Neighbouring Fibonacci numbers take as many as there can be. -/
theorem divisions_fib (n : ℕ) : divisions (Nat.fib (n + 3)) (Nat.fib (n + 2)) = n + 1 := by
  induction n with
  | zero =>
    have htwo : ((Nat.fib (0 + 3) : ℕ) : ℤ) = 2 := rfl
    have hone : ((Nat.fib (0 + 2) : ℕ) : ℤ) = 1 := rfl
    rw [htwo, hone, divisions_of_ne_zero 2 one_ne_zero, show Int.fmod 2 1 = 0 from rfl, divisions_zero]
  | succ n ih =>
    have hpos : (0 : ℤ) < Nat.fib (n + 3) := by exact_mod_cast Nat.fib_pos.mpr (by omega)
    have hlt : ((Nat.fib (n + 2) : ℕ) : ℤ) < Nat.fib (n + 3) := by
      exact_mod_cast Nat.fib_lt_fib_succ (show 2 ≤ n + 2 by omega)
    have hrest : Int.fmod (Nat.fib (n + 1 + 3)) (Nat.fib (n + 1 + 2)) = Nat.fib (n + 2) := by
      have hsum : ((Nat.fib (n + 1 + 3) : ℕ) : ℤ) = Nat.fib (n + 2) + Nat.fib (n + 3) := by
        exact_mod_cast Nat.fib_add_two (n := n + 2)
      rw [hsum, show n + 1 + 2 = n + 3 from rfl, Int.add_fmod_right, Int.fmod_eq_emod_of_nonneg _ hpos.le,
        Int.emod_eq_of_lt (Int.natCast_nonneg _) hlt]
    rw [divisions_of_ne_zero _ (show ((Nat.fib (n + 1 + 2) : ℕ) : ℤ) ≠ 0 from hpos.ne'), hrest]
    exact congrArg (· + 1) ih

end

end Euclid
