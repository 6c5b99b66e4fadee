import Mathlib.Algebra.Group.Nat.Defs
import Mathlib.Data.Nat.Log

/-! Numbers as Redis Lua keeps them.

Lua numbers are IEEE doubles and `tostring` prints them with `%.14g`. The reserve script
only handles non-negative integers, so a Lua number is a natural number that a double
can hold: `roundDouble` is the double nearest to an integer, ties to even. Text is either
plain digits or, from 10^14 on, fourteen significant digits and an exponent. Below 10^14
nothing is rounded (`tonumber_tostring`). -/
namespace SynQc.Budget

/-- Quotient rounded to nearest, ties to even. -/
def divRound (n d : Nat) : Nat :=
  if d < 2 * (n % d) ∨ d = 2 * (n % d) ∧ n / d % 2 = 1 then n / d + 1 else n / d

/-- The double nearest to an integer. -/
def roundDouble (n : Nat) : Nat :=
  if n < 2 ^ 53 then n else divRound n (2 ^ (Nat.log 2 n - 52)) * 2 ^ (Nat.log 2 n - 52)

/-- What `tostring` prints: digits, or a fourteen-digit mantissa and a power of ten. -/
inductive LuaText where
  | digits (n : Nat)
  | scientific (mantissa exponent : Nat)
  deriving DecidableEq

/-- `tostring` on an integral double: `%.14g`. -/
def tostring (n : Nat) : LuaText :=
  if n < 10 ^ 14 then .digits n
  else
    let k := Nat.log 10 n - 13
    .scientific (divRound n (10 ^ k)) k

/-- `tonumber` on such a text. -/
def tonumber : LuaText → Nat
  | .digits n => roundDouble n
  | .scientific m k => roundDouble (m * 10 ^ k)

theorem roundDouble_of_lt {n : Nat} (h : n < 2 ^ 53) : roundDouble n = n := if_pos h

/-- Rounding never brings an integer from 2^53 on below it. -/
theorem le_roundDouble {n : Nat} (h : 2 ^ 53 ≤ n) : 2 ^ 53 ≤ roundDouble n := by
  have hlog : 53 ≤ Nat.log 2 n := Nat.le_log_of_pow_le (by decide) h
  have hne : n ≠ 0 := by omega
  -- the quotient keeps the 53 leading bits of `n`
  have hquot : 2 ^ 52 ≤ n / 2 ^ (Nat.log 2 n - 52) := by
    rw [Nat.le_div_iff_mul_le (Nat.two_pow_pos _), ← Nat.pow_add]
    have : 52 + (Nat.log 2 n - 52) = Nat.log 2 n := by omega
    rw [this]
    exact Nat.pow_log_le_self 2 hne
  have hround : 2 ^ 52 ≤ divRound n (2 ^ (Nat.log 2 n - 52)) := by
    unfold divRound
    split <;> omega
  have hpow : 2 ^ 1 ≤ 2 ^ (Nat.log 2 n - 52) := Nat.pow_le_pow_right (by decide) (by omega)
  rw [roundDouble, if_neg (by omega)]
  calc 2 ^ 53 = 2 ^ 52 * 2 ^ 1 := by decide
    _ ≤ divRound n (2 ^ (Nat.log 2 n - 52)) * 2 ^ (Nat.log 2 n - 52) := Nat.mul_le_mul hround hpow

/-- A double below 2^53 was rounded from itself. -/
theorem roundDouble_exact {n : Nat} (h : roundDouble n < 2 ^ 53) : roundDouble n = n := by
  apply roundDouble_of_lt
  by_contra hn
  have := le_roundDouble (Nat.le_of_not_lt hn)
  omega

theorem tostring_of_lt {n : Nat} (h : n < 10 ^ 14) : tostring n = .digits n := if_pos h

/-- Totals below 10^14 are stored and read back exactly. -/
theorem tonumber_tostring {n : Nat} (h : n < 10 ^ 14) : tonumber (tostring n) = n := by
  rw [tostring_of_lt h]
  exact roundDouble_of_lt (lt_trans h (by decide))

/-- A total read back below 10^14 was stored exactly. -/
theorem lt_of_tonumber_tostring {n : Nat} (h : tonumber (tostring n) < 10 ^ 14) : n < 10 ^ 14 := by
  by_contra hn
  have hn : 10 ^ 14 ≤ n := Nat.le_of_not_lt hn
  have hlog : 14 ≤ Nat.log 10 n := Nat.le_log_of_pow_le (by decide) hn
  -- the mantissa keeps at least fourteen digits
  have hquot : 10 ^ 13 ≤ n / 10 ^ (Nat.log 10 n - 13) := by
    rw [Nat.le_div_iff_mul_le (Nat.pow_pos (by decide)), ← Nat.pow_add]
    have : 13 + (Nat.log 10 n - 13) = Nat.log 10 n := by omega
    rw [this]
    exact Nat.pow_log_le_self 10 (by omega)
  have hround : 10 ^ 13 ≤ divRound n (10 ^ (Nat.log 10 n - 13)) := by
    unfold divRound
    split <;> omega
  have hpow : 10 ^ 1 ≤ 10 ^ (Nat.log 10 n - 13) := Nat.pow_le_pow_right (by decide) (by omega)
  have hprod : 10 ^ 14 ≤ divRound n (10 ^ (Nat.log 10 n - 13)) * 10 ^ (Nat.log 10 n - 13) :=
    calc 10 ^ 14 = 10 ^ 13 * 10 ^ 1 := by decide
      _ ≤ _ := Nat.mul_le_mul hround hpow
  rw [tostring, if_neg (by omega)] at h
  simp only [tonumber] at h
  have hexact := roundDouble_exact (lt_trans h (by decide))
  omega

/-- From 10^14 on the last digits are lost. -/
example : tonumber (.scientific (divRound 100000000000001 10) 1) = 100000000000000 := by decide +kernel

end SynQc.Budget
