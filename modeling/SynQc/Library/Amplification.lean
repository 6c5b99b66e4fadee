import Mathlib.Analysis.SpecialFunctions.Trigonometric.Basic
import SynQc.Library.Circuit

/-! Amplitude amplification.

Sign flips between two layers of Hadamard and X gates are, up to the sign, an inversion
about the mean (`diffusion`). On a state that has one amplitude where a test passes and
another where it does not, the flip of the test and the inversion turn the pair of
amplitudes by twice the angle whose sine is the root of the share of the test
(`amplified`). -/
namespace Circuits

section
variable {n : Nat}

/-! ### Inversion about the mean -/

noncomputable def mean (ψ : Amplitudes n) : ℝ := (∑ b, ψ b) / Fintype.card (Basis n)

theorem mean_eq (ψ : Amplitudes n) : mean ψ = (∑ b, ψ b) / 2 ^ n := by
  rw [mean, Fintype.card_fun, Fintype.card_bool, Fintype.card_fin, Nat.cast_pow, Nat.cast_ofNat]

/-- What was below the mean comes as far above it. -/
noncomputable def inversion : Op n where
  toFun ψ b := mean ψ + (mean ψ - ψ b)
  map_add' ψ φ := by
    funext b
    simp only [mean, Pi.add_apply, Finset.sum_add_distrib]
    ring
  map_smul' c ψ := by
    funext b
    simp only [mean, Pi.smul_apply, smul_eq_mul, RingHom.id_apply, ← Finset.mul_sum]
    ring

theorem inversion_apply (ψ : Amplitudes n) (b : Basis n) : inversion ψ b = 2 * mean ψ - ψ b := by
  show mean ψ + (mean ψ - ψ b) = 2 * mean ψ - ψ b
  ring

/-- A uniform state is its own inversion. -/
theorem inversion_const (c : ℝ) : (inversion : Op n) (fun _ => c) = fun _ => c := by
  funext b
  have hcard : (Fintype.card (Basis n) : ℝ) ≠ 0 := Nat.cast_ne_zero.mpr Fintype.card_ne_zero
  have hmean : mean (fun _ : Basis n => c) = c := by
    rw [mean, Finset.sum_const, Finset.card_univ, nsmul_eq_mul, mul_div_cancel_left₀ c hcard]
  rw [inversion_apply, hmean]
  ring

/-- The basis state of ones. -/
def ones : Basis n := fun _ => true

/-- Whether all bits are one. -/
def isOnes (b : Basis n) : Bool := decide (b = ones)

theorem phaseFlip_isOnes (ψ : Amplitudes n) : phaseFlip isOnes ψ = ψ - (2 * ψ ones) • ket ones := by
  funext b
  rw [phaseFlip_apply, Pi.sub_apply, Pi.smul_apply, ket, Pi.single_apply, isOnes]
  by_cases hb : b = ones
  · rw [if_pos (decide_eq_true hb), if_pos hb, hb, smul_eq_mul]
    ring
  · rw [if_neg (by rw [decide_eq_false hb]; exact Bool.false_ne_true), if_neg hb, smul_zero, sub_zero]

/-- The common amplitude of a uniform state. -/
noncomputable def level (n : Nat) : ℝ := (1 / √(2 : ℕ)) ^ n

theorem level_eq_pow : level n = (1 / √2) ^ n := by
  rw [level, Nat.cast_ofNat]

theorem level_sq : level n * level n = 1 / 2 ^ n := by
  rw [level_eq_pow, ← mul_pow, div_mul_div_comm, Real.mul_self_sqrt (by norm_num), one_mul, one_div_pow]

theorem product_const (c : ℝ) : product (fun (_ : Fin n) (_ : Bool) => c) = fun _ => c ^ n := by
  funext b
  rw [product, Finset.prod_const, Finset.card_univ, Fintype.card_fin]

/-- Hadamard gates make the uniform state of the state of zeros. -/
theorem sweep_hadamard_zeros :
    sweep (onQubit hadamard) (List.finRange n) (ket fun _ => false) = fun _ => level n := by
  rw [ket_eq_product, sweep_product _ (List.nodup_finRange n), level_eq_pow, ← product_const]
  refine congrArg product (funext fun q => funext fun v => ?_)
  rw [if_pos (List.mem_finRange q)]
  cases v <;> simp [apply, hadamard_apply]

theorem sweep_hx_ones :
    sweep (onQubit (hadamard * pauliX)) (List.finRange n) (ket ones) = fun _ => level n := by
  rw [ket_eq_product, sweep_product _ (List.nodup_finRange n), level_eq_pow, ← product_const]
  refine congrArg product (funext fun q => funext fun v => ?_)
  rw [if_pos (List.mem_finRange q)]
  cases v <;> simp [apply, mul_bool, hadamard_apply, pauliX, ones]

theorem sweep_xh_ones (ψ : Amplitudes n) :
    sweep (onQubit (pauliX * hadamard)) (List.finRange n) ψ ones = level n * ∑ b, ψ b := by
  have hket : ∀ a : Basis n, sweep (onQubit (pauliX * hadamard)) (List.finRange n) (ket a) ones = level n := by
    intro a
    rw [ket_eq_product, sweep_product _ (List.nodup_finRange n), level_eq_pow]
    have hones : ∀ q, (if q ∈ List.finRange n then apply (pauliX * hadamard) (fun v => if v = a q then 1 else 0)
        else fun v => if v = a q then 1 else 0) (ones q) = 1 / √2 := by
      intro q
      rw [if_pos (List.mem_finRange q)]
      cases ha : a q <;> simp [apply, mul_bool, hadamard_apply, pauliX, ones]
    rw [product, Finset.prod_congr rfl fun q _ => hones q, Finset.prod_const, Finset.card_univ, Fintype.card_fin]
  rw [op_eq_sum, Finset.sum_apply, Finset.mul_sum]
  refine Finset.sum_congr rfl fun a _ => ?_
  rw [Pi.smul_apply, hket, smul_eq_mul, mul_comm]

/-- **H and X on every qubit, a flip of the state of ones and X and H on every qubit are the
inversion about the mean, with the sign reversed.** -/
theorem diffusion : sweep (onQubit (hadamard * pauliX)) (List.finRange n) *
    (phaseFlip isOnes * sweep (onQubit (pauliX * hadamard)) (List.finRange n)) = -(inversion : Op n) := by
  have hundo : hadamard * pauliX * (pauliX * hadamard) = 1 := by
    calc hadamard * pauliX * (pauliX * hadamard)
        = hadamard * (pauliX * pauliX) * hadamard := by simp only [mul_assoc]
      _ = 1 := by rw [pauliX_mul_pauliX, mul_one, hadamard_mul_hadamard]
  refine op_ext fun ψ b => ?_
  simp only [Module.End.mul_apply]
  rw [phaseFlip_isOnes, map_sub, map_smul, ← Module.End.mul_apply, sweep_undo hundo (List.nodup_finRange n), sweep_hx_ones,
    sweep_xh_ones]
  simp only [Module.End.one_apply, Pi.sub_apply, Pi.smul_apply, smul_eq_mul, LinearMap.neg_apply, Pi.neg_apply,
    inversion_apply, mean_eq]
  have hsq : level n * level n = 1 / 2 ^ n := level_sq
  linear_combination (-2 * ∑ b, ψ b) * hsq

/-! ### Two amplitudes -/

/-- One amplitude where a test passes, another where it does not. -/
def split (p : Basis n → Bool) (α β : ℝ) : Amplitudes n := fun b => if p b then α else β

/-- How many basis states pass a test. -/
def size (p : Basis n → Bool) : Nat := (Finset.univ.filter fun b => p b = true).card

theorem phaseFlip_split (p : Basis n → Bool) (α β : ℝ) : phaseFlip p (split p α β) = split p (-α) β := by
  funext b
  rw [phaseFlip_apply, split, split]
  cases p b <;> rfl

theorem size_add_compl (p : Basis n → Bool) :
    (size p : ℝ) + ((Finset.univ.filter fun b => ¬p b = true).card : ℝ) = 2 ^ n := by
  rw [size, ← Nat.cast_add, Finset.card_filter_add_card_filter_not, Finset.card_univ, Fintype.card_fun, Fintype.card_bool,
    Fintype.card_fin, Nat.cast_pow, Nat.cast_ofNat]

theorem sum_split (p : Basis n → Bool) (α β : ℝ) : ∑ b, split p α β b = size p * α + (2 ^ n - size p) * β := by
  have hcompl : ((Finset.univ.filter fun b => ¬p b = true).card : ℝ) = 2 ^ n - size p :=
    eq_sub_of_add_eq' (size_add_compl p)
  simp only [split]
  rw [Finset.sum_ite, Finset.sum_const, Finset.sum_const, nsmul_eq_mul, nsmul_eq_mul, hcompl, size]

theorem inversion_split (p : Basis n → Bool) (α β : ℝ) : inversion (split p α β) =
    split p (2 * mean (split p α β) - α) (2 * mean (split p α β) - β) := by
  funext b
  rw [inversion_apply]
  generalize mean (split p α β) = m
  rw [split, split]
  cases p b <;> rfl

/-- One step: flip the test and invert about the mean, up to the sign. -/
noncomputable def amplification (p : Basis n → Bool) : Op n := -inversion * phaseFlip p

section Angle
variable {p : Basis n → Bool} {θ : ℝ}

/-- The amplitudes after `k` turns, as the coordinates of a point on the unit circle. The sign of
both turns with each step. -/
structure Turned (p : Basis n → Bool) (θ : ℝ) (k : Nat) (α β : ℝ) : Prop where
  passing : √(2 ^ n) * Real.sin θ * α = (-1) ^ k * Real.sin ((2 * k + 1) * θ)
  failing : √(2 ^ n) * Real.cos θ * β = (-1) ^ k * Real.cos ((2 * k + 1) * θ)

theorem level_eq : √(2 ^ n) * level n = 1 := by
  have hroot : √((2 : ℝ) ^ n) = √2 ^ n := by
    rw [Real.sqrt_eq_iff_mul_self_eq (by positivity) (by positivity), ← mul_pow, Real.mul_self_sqrt (by norm_num)]
  rw [hroot, level_eq_pow, ← mul_pow, mul_one_div_cancel (by positivity), one_pow]

theorem turned_zero : Turned p θ 0 (level n) (level n) where
  passing := by
    rw [mul_right_comm, level_eq]
    simp
  failing := by
    rw [mul_right_comm, level_eq]
    simp

/-- One step turns the point by twice the angle. -/
theorem Turned.step (hθ : Real.sin θ ^ 2 = size p / 2 ^ n) {k : Nat} {α β : ℝ} (h : Turned p θ k α β) :
    Turned p θ (k + 1) (-(2 * mean (split p (-α) β) - -α)) (-(2 * mean (split p (-α) β) - β)) := by
  have hpow : (2 : ℝ) ^ n ≠ 0 := by positivity
  have hsize : (size p : ℝ) = Real.sin θ ^ 2 * 2 ^ n := by rw [hθ, div_mul_cancel₀ _ hpow]
  have hmean : mean (split p (-α) β) = Real.cos θ ^ 2 * β - Real.sin θ ^ 2 * α := by
    rw [mean_eq, sum_split, hsize, Real.cos_sq']
    field_simp
    ring
  have hangle : (2 * ((k + 1 : Nat) : ℝ) + 1) * θ = (2 * k + 1) * θ + 2 * θ := by
    push_cast
    ring
  have hone := Real.sin_sq_add_cos_sq θ
  obtain ⟨hpassing, hfailing⟩ := h
  constructor
  · rw [hmean, hangle, Real.sin_add, Real.sin_two_mul, Real.cos_two_mul, pow_succ]
    linear_combination (2 * Real.sin θ ^ 2 - 1) * hpassing - 2 * Real.sin θ * Real.cos θ * hfailing +
      2 * (-1) ^ k * Real.sin ((2 * k + 1) * θ) * hone
  · rw [hmean, hangle, Real.cos_add, Real.sin_two_mul, Real.cos_two_mul, pow_succ]
    linear_combination (1 - 2 * Real.cos θ ^ 2) * hfailing + 2 * Real.sin θ * Real.cos θ * hpassing

/-- **Steps of flip and inversion turn the uniform state by twice the angle each.** -/
theorem amplified (hθ : Real.sin θ ^ 2 = size p / 2 ^ n) (k : Nat) :
    ∃ α β, (amplification p ^ k) (fun _ => level n) = split p α β ∧ Turned p θ k α β := by
  induction k with
  | zero =>
    refine ⟨level n, level n, ?_, turned_zero⟩
    funext b
    rw [pow_zero, Module.End.one_apply, split, ite_self]
  | succ k ih =>
    obtain ⟨α, β, hstate, hturned⟩ := ih
    refine ⟨_, _, ?_, hturned.step hθ⟩
    rw [pow_succ', Module.End.mul_apply, hstate, amplification, Module.End.mul_apply, phaseFlip_split, LinearMap.neg_apply,
      inversion_split]
    funext b
    rw [Pi.neg_apply, split, split]
    cases p b <;> rfl

/-- The probability of a turned state to pass the test. -/
theorem Turned.probability (hθ : Real.sin θ ^ 2 = size p / 2 ^ n) {k : Nat} {α β : ℝ} (h : Turned p θ k α β) :
    size p * α ^ 2 = Real.sin ((2 * k + 1) * θ) ^ 2 := by
  have hpow : (2 : ℝ) ^ n ≠ 0 := by positivity
  have hroot : √((2 : ℝ) ^ n) ^ 2 = 2 ^ n := Real.sq_sqrt (by positivity)
  have hsign : ((-1 : ℝ) ^ k) ^ 2 = 1 := by rw [← pow_mul, mul_comm, pow_mul, neg_one_sq, one_pow]
  have hsize : (size p : ℝ) = Real.sin θ ^ 2 * 2 ^ n := by rw [hθ, div_mul_cancel₀ _ hpow]
  calc (size p : ℝ) * α ^ 2 = (√(2 ^ n) * Real.sin θ * α) ^ 2 := by
        rw [hsize, mul_pow, mul_pow, hroot, mul_comm (2 ^ n : ℝ)]
    _ = Real.sin ((2 * k + 1) * θ) ^ 2 := by rw [h.passing, mul_pow, hsign, one_mul]

end Angle

end

end Circuits
