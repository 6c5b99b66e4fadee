import Mathlib.Data.Int.Log
import Mathlib.Data.Rat.Floor
import Mathlib.Tactic.Linarith

/-! Rounding to doubles.

The numbers are the rationals, so there are no infinities and no NaN: `double` rounds to the nearest number with
fifty-three binary digits, or to the nearest subnormal one, and to the even one where two are as near. An operation on
doubles is the exact one, rounded. It is wrong by no more than half of the last place (`double_error`). -/
namespace Binary64

/-- To the nearest integer, ties to even. -/
def roundEven (x : ℚ) : ℤ :=
  let low := ⌊x⌋
  if x - low < 1 / 2 ∨ x - low = 1 / 2 ∧ low % 2 = 0 then low else low + 1

/-- The exponent of the last binary digit. -/
def lastPlace (x : ℚ) : ℤ := max (Int.log 2 |x| - 52) (-1074)

def double (x : ℚ) : ℚ := roundEven (x / 2 ^ lastPlace x) * 2 ^ lastPlace x

/-- A tenth is no double. -/
example : double (1 / 10) = 3602879701896397 / 2 ^ 55 := by decide +kernel

theorem roundEven_error (x : ℚ) : |(roundEven x : ℚ) - x| ≤ 1 / 2 := by
  have hlow := Int.floor_le x
  have hhigh := Int.lt_floor_add_one x
  rw [roundEven, abs_le]
  split
  · rename_i hdown
    have : x - ⌊x⌋ ≤ 1 / 2 := hdown.elim le_of_lt fun htie => htie.1.le
    constructor <;> linarith
  · rename_i hup
    have : 1 / 2 ≤ x - ⌊x⌋ := not_lt.mp fun hless => hup (.inl hless)
    push_cast
    constructor <;> linarith

theorem double_error (x : ℚ) : |double x - x| ≤ 2 ^ lastPlace x / 2 := by
  have hpos : (0 : ℚ) < 2 ^ lastPlace x := zpow_pos two_pos _
  have hexact : x = x / 2 ^ lastPlace x * 2 ^ lastPlace x := (div_mul_cancel₀ x hpos.ne').symm
  have hround := mul_le_mul_of_nonneg_right (roundEven_error (x / 2 ^ lastPlace x)) hpos.le
  calc |double x - x| = |((roundEven (x / 2 ^ lastPlace x) : ℚ) - x / 2 ^ lastPlace x) * 2 ^ lastPlace x| := by
        rw [sub_mul, ← hexact, double]
    _ = |(roundEven (x / 2 ^ lastPlace x) : ℚ) - x / 2 ^ lastPlace x| * 2 ^ lastPlace x := by
        rw [abs_mul, abs_of_pos hpos]
    _ ≤ 1 / 2 * 2 ^ lastPlace x := hround
    _ = 2 ^ lastPlace x / 2 := by ring

/-- Below a power of two the last place is fifty-three binary digits further down. -/
theorem lastPlace_le {x : ℚ} {k : ℤ} (hk : -1021 ≤ k) (hx : x ≠ 0) (h : |x| < 2 ^ k) : lastPlace x ≤ k - 53 := by
  have hlog := (Int.lt_zpow_iff_log_lt (b := 2) (by decide) (abs_pos.mpr hx)).mp (by exact_mod_cast h)
  rw [lastPlace]
  omega

theorem double_error_of_lt {x : ℚ} {k : ℤ} (hk : -1021 ≤ k) (h : |x| < 2 ^ k) : |double x - x| ≤ 2 ^ (k - 54) := by
  by_cases hx : x = 0
  · subst hx
    have hzero : double 0 = 0 := by decide +kernel
    rw [hzero, sub_zero, abs_zero]
    exact (zpow_pos two_pos _).le
  · calc |double x - x| ≤ 2 ^ lastPlace x / 2 := double_error x
      _ ≤ 2 ^ (k - 53) / 2 := by
        have := zpow_le_zpow_right₀ (a := (2 : ℚ)) (by norm_num) (lastPlace_le hk hx h)
        linarith
      _ = 2 ^ (k - 54) := by
        rw [show k - 53 = k - 54 + 1 by ring, zpow_add_one₀ (by norm_num)]
        ring

end Binary64
