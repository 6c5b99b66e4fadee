import Mathlib.Analysis.Real.Sqrt
import Mathlib.LinearAlgebra.Pi
import Mathlib.LinearAlgebra.Matrix.ToLin
import Mathlib.Tactic.FieldSimp

/-! Circuits of Hadamard, X, Z and controlled gates, on real amplitudes.

A basis state gives each qubit a bit, and a state gives each basis state its amplitude. A
gate is a linear map on states, and a circuit runs its gates from left to right. What is
done to one qubit commutes with what is done to another, so two sweeps over the qubits are
one (`sweep_mul`), and a sweep acts on a product state qubit by qubit (`sweep_product`). -/
namespace Circuits

abbrev Basis (n : Nat) := Fin n → Bool

abbrev Amplitudes (n : Nat) := Basis n → ℝ

/-- The linear maps of states, with composition as multiplication. -/
abbrev Op (n : Nat) := Module.End ℝ (Amplitudes n)

section
variable {n : Nat}

theorem op_ext {f g : Op n} (h : ∀ ψ b, f ψ b = g ψ b) : f = g := LinearMap.ext fun ψ => funext fun b => h ψ b

/-! ### One qubit -/

noncomputable def hadamard : Matrix Bool Bool ℝ := fun a b => (if a && b then -1 else 1) / √(2 : ℕ)

theorem hadamard_apply (a b : Bool) : hadamard a b = (if a && b then -1 else 1) / √2 := by
  rw [hadamard, Nat.cast_ofNat]

def pauliX : Matrix Bool Bool ℝ := fun a b => if a = b then 0 else 1

def pauliZ : Matrix Bool Bool ℝ := fun a b => if a = b then (if a then -1 else 1) else 0

/-- A one-qubit gate, applied to one qubit of many. -/
def onQubit (g : Matrix Bool Bool ℝ) (q : Fin n) : Op n where
  toFun ψ b := g (b q) false * ψ (Function.update b q false) + g (b q) true * ψ (Function.update b q true)
  map_add' ψ φ := by
    funext b
    simp only [Pi.add_apply]
    ring
  map_smul' c ψ := by
    funext b
    simp only [Pi.smul_apply, smul_eq_mul, RingHom.id_apply]
    ring

theorem onQubit_apply (g : Matrix Bool Bool ℝ) (q : Fin n) (ψ : Amplitudes n) (b : Basis n) :
    onQubit g q ψ b =
      g (b q) false * ψ (Function.update b q false) + g (b q) true * ψ (Function.update b q true) := rfl

theorem mul_bool (g k : Matrix Bool Bool ℝ) (a b : Bool) : (g * k) a b = g a false * k false b + g a true * k true b := by
  rw [Matrix.mul_apply, Fintype.sum_bool]
  exact add_comm _ _

theorem onQubit_mul (g k : Matrix Bool Bool ℝ) (q : Fin n) : onQubit g q * onQubit k q = onQubit (g * k) q := by
  refine op_ext fun ψ b => ?_
  simp only [Module.End.mul_apply, onQubit_apply, mul_bool, Function.update_self, Function.update_idem]
  ring

theorem onQubit_one (q : Fin n) : onQubit (1 : Matrix Bool Bool ℝ) q = 1 := by
  refine op_ext fun ψ b => ?_
  have hb : Function.update b q (b q) = b := Function.update_eq_self q b
  rw [onQubit_apply, Module.End.one_apply]
  cases hq : b q with
  | false =>
    rw [hq] at hb
    simp [hb]
  | true =>
    rw [hq] at hb
    simp [hb]

theorem onQubit_commute (g k : Matrix Bool Bool ℝ) {q r : Fin n} (hne : q ≠ r) : Commute (onQubit g q) (onQubit k r) := by
  refine op_ext fun ψ b => ?_
  simp only [Module.End.mul_apply, onQubit_apply, Function.update_of_ne hne, Function.update_of_ne hne.symm,
    Function.update_comm hne]
  ring

theorem hadamard_mul_hadamard : hadamard * hadamard = 1 := by
  have hroot : √2 * √2 = 2 := Real.mul_self_sqrt (by norm_num)
  have hpos : √2 ≠ 0 := by positivity
  ext a b
  rw [mul_bool]
  cases a <;> cases b <;> simp [hadamard_apply] <;> field_simp <;> linarith

theorem pauliX_mul_pauliX : pauliX * pauliX = 1 := by
  ext a b
  rw [mul_bool]
  cases a <;> cases b <;> simp [pauliX]

/-- X reads the amplitude of the basis state with the other bit. -/
theorem onQubit_pauliX (q : Fin n) (ψ : Amplitudes n) (b : Basis n) :
    onQubit pauliX q ψ b = ψ (Function.update b q (!b q)) := by
  rw [onQubit_apply]
  cases b q <;> simp [pauliX]

/-! ### Controls and signs -/

/-- What is done where all controls are one. -/
def controlled (controls : List (Fin n)) (f : Op n) : Op n where
  toFun ψ b := if controls.all b then f ψ b else ψ b
  map_add' ψ φ := by
    funext b
    rw [map_add]
    simp only [Pi.add_apply]
    split <;> rfl
  map_smul' c ψ := by
    funext b
    rw [map_smul]
    simp only [Pi.smul_apply, RingHom.id_apply]
    split <;> rfl

theorem controlled_apply (controls : List (Fin n)) (f : Op n) (ψ : Amplitudes n) (b : Basis n) :
    controlled controls f ψ b = if controls.all b then f ψ b else ψ b := rfl

/-- Negate the amplitudes of the basis states that pass a test. -/
def phaseFlip (p : Basis n → Bool) : Op n where
  toFun ψ b := if p b then -ψ b else ψ b
  map_add' ψ φ := by
    funext b
    simp only [Pi.add_apply, neg_add]
    split <;> rfl
  map_smul' c ψ := by
    funext b
    simp only [Pi.smul_apply, RingHom.id_apply]
    split
    · exact (smul_neg c (ψ b)).symm
    · rfl

theorem phaseFlip_apply (p : Basis n → Bool) (ψ : Amplitudes n) (b : Basis n) :
    phaseFlip p ψ b = if p b then -ψ b else ψ b := rfl

theorem phaseFlip_mul (p p' : Basis n → Bool) : phaseFlip p * phaseFlip p' = phaseFlip fun b => p b ^^ p' b := by
  refine op_ext fun ψ b => ?_
  simp only [Module.End.mul_apply, phaseFlip_apply]
  cases p b <;> cases p' b <;> simp

theorem phaseFlip_false : phaseFlip (fun _ : Basis n => false) = 1 := op_ext fun _ _ => rfl

theorem phaseFlip_injective : Function.Injective (phaseFlip : (Basis n → Bool) → Op n) := by
  intro p p' h
  funext b
  have hb : phaseFlip p (fun _ => 1) b = phaseFlip p' (fun _ => 1) b := by rw [h]
  rw [phaseFlip_apply, phaseFlip_apply] at hb
  cases hp : p b <;> cases hp' : p' b <;> simp only [hp, hp'] at hb ⊢ <;> norm_num at hb

theorem controlled_nil (f : Op n) : controlled [] f = f := op_ext fun _ _ => rfl

theorem controlled_pauliZ (controls : List (Fin n)) (target : Fin n) :
    controlled controls (onQubit pauliZ target) = phaseFlip fun b => controls.all b && b target := by
  refine op_ext fun ψ b => ?_
  have hb : Function.update b target (b target) = b := Function.update_eq_self target b
  rw [controlled_apply, phaseFlip_apply, onQubit_apply]
  cases controls.all b with
  | false => rfl
  | true =>
    cases ht : b target with
    | false =>
      rw [ht] at hb
      simp [pauliZ, hb]
    | true =>
      rw [ht] at hb
      simp [pauliZ, hb]

theorem all_update {controls : List (Fin n)} {target : Fin n} (h : target ∉ controls) (b : Basis n) (v : Bool) :
    controls.all (Function.update b target v) = controls.all b := by
  refine Bool.eq_iff_iff.mpr ?_
  simp only [List.all_eq_true]
  refine forall₂_congr fun c hc => ?_
  have hne : c ≠ target := fun heq => h (heq ▸ hc)
  rw [Function.update_of_ne hne]

/-- A gate around a controlled one, on the same qubit, goes under the control where it undoes
itself. -/
theorem conj_controlled {g k : Matrix Bool Bool ℝ} {controls : List (Fin n)} {target : Fin n} (hgk : g * k = 1)
    (h : target ∉ controls) (m : Matrix Bool Bool ℝ) :
    onQubit g target * (controlled controls (onQubit m target) * onQubit k target) =
      controlled controls (onQubit (g * m * k) target) := by
  refine op_ext fun ψ b => ?_
  rw [← onQubit_mul, ← onQubit_mul, controlled_apply, mul_assoc]
  simp only [Module.End.mul_apply]
  rw [onQubit_apply]
  simp only [controlled_apply, all_update h]
  split
  · rfl
  · rw [← onQubit_apply g target (onQubit k target ψ), ← Module.End.mul_apply, onQubit_mul, hgk, onQubit_one]
    rfl

theorem hadamard_pauliX_hadamard : hadamard * pauliX * hadamard = pauliZ := by
  have hroot : √2 * √2 = 2 := Real.mul_self_sqrt (by norm_num)
  have hpos : √2 ≠ 0 := by positivity
  ext a b
  rw [mul_bool, mul_bool, mul_bool]
  cases a <;> cases b <;> simp [hadamard_apply, pauliX, pauliZ] <;> field_simp <;> linarith

theorem hadamard_pauliZ_hadamard : hadamard * pauliZ * hadamard = pauliX := by
  rw [← hadamard_pauliX_hadamard]
  calc hadamard * (hadamard * pauliX * hadamard) * hadamard
      = (hadamard * hadamard) * pauliX * (hadamard * hadamard) := by simp only [mul_assoc]
    _ = pauliX := by rw [hadamard_mul_hadamard, one_mul, mul_one]

/-! ### Sweeps -/

/-- An operation for each qubit of a list, from left to right. -/
def sweep (f : Fin n → Op n) : List (Fin n) → Op n
  | [] => 1
  | q :: qs => sweep f qs * f q

theorem sweep_one (qs : List (Fin n)) : sweep (fun _ => 1) qs = 1 := by
  induction qs with
  | nil => rfl
  | cons q qs ih => rw [sweep, ih, one_mul]

theorem sweep_commute {f : Fin n → Op n} {g : Op n} {qs : List (Fin n)} (h : ∀ r ∈ qs, Commute g (f r)) :
    Commute g (sweep f qs) := by
  induction qs with
  | nil => exact Commute.one_right g
  | cons q qs ih =>
    exact (ih fun r hr => h r (List.mem_cons_of_mem _ hr)).mul_right (h q List.mem_cons_self)

/-- Two sweeps are one that does both to each qubit, if what they do to two qubits commutes. -/
theorem sweep_mul {f g : Fin n → Op n} (h : ∀ q r, q ≠ r → Commute (g q) (f r)) {qs : List (Fin n)} (hqs : qs.Nodup) :
    sweep g qs * sweep f qs = sweep (fun q => g q * f q) qs := by
  induction qs with
  | nil => exact one_mul 1
  | cons q qs ih =>
    obtain ⟨hq, hqs⟩ := List.nodup_cons.mp hqs
    have hcommute : Commute (g q) (sweep f qs) := sweep_commute fun r hr => h q r fun heq => hq (heq ▸ hr)
    calc sweep g qs * g q * (sweep f qs * f q)
        = sweep g qs * (g q * sweep f qs) * f q := by simp only [mul_assoc]
      _ = sweep g qs * (sweep f qs * g q) * f q := by rw [hcommute.eq]
      _ = sweep g qs * sweep f qs * (g q * f q) := by simp only [mul_assoc]
      _ = sweep (fun q => g q * f q) (q :: qs) := by rw [ih hqs, sweep]

theorem sweep_onQubit_mul (g k : Matrix Bool Bool ℝ) {qs : List (Fin n)} (hqs : qs.Nodup) :
    sweep (onQubit g) qs * sweep (onQubit k) qs = sweep (onQubit (g * k)) qs := by
  rw [sweep_mul (fun q r hne => onQubit_commute g k hne) hqs]
  exact congrArg (sweep · qs) (funext fun q => onQubit_mul g k q)

/-- A sweep undoes another where it does so on each qubit. -/
theorem sweep_undo {g k : Matrix Bool Bool ℝ} (h : g * k = 1) {qs : List (Fin n)} (hqs : qs.Nodup) :
    sweep (onQubit g) qs * sweep (onQubit k) qs = 1 := by
  rw [sweep_onQubit_mul g k hqs, h, funext onQubit_one, sweep_one]

/-- The bits of some qubits the other way. -/
def toggle (qs : List (Fin n)) (b : Basis n) : Basis n := fun q => b q ^^ decide (q ∈ qs)

theorem toggle_toggle (qs : List (Fin n)) (b : Basis n) : toggle qs (toggle qs b) = b := by
  funext q
  simp only [toggle, Bool.xor_assoc, Bool.xor_self, Bool.xor_false]

theorem sweep_pauliX {qs : List (Fin n)} (hqs : qs.Nodup) (ψ : Amplitudes n) (b : Basis n) :
    sweep (onQubit pauliX) qs ψ b = ψ (toggle qs b) := by
  induction qs generalizing ψ with
  | nil =>
    refine congrArg ψ (funext fun q => ?_)
    simp [toggle]
  | cons q qs ih =>
    obtain ⟨hq, hqs⟩ := List.nodup_cons.mp hqs
    rw [sweep, Module.End.mul_apply, ih hqs, onQubit_pauliX]
    refine congrArg ψ (funext fun r => ?_)
    by_cases hr : r = q
    · subst hr
      simp [toggle, hq]
    · rw [Function.update_of_ne hr]
      simp [toggle, hr]

/-- A flip between two sweeps of X is a flip of the basis states with those bits the other way. -/
theorem conj_flip {qs : List (Fin n)} (hqs : qs.Nodup) (p : Basis n → Bool) :
    sweep (onQubit pauliX) qs * (phaseFlip p * sweep (onQubit pauliX) qs) = phaseFlip fun b => p (toggle qs b) := by
  refine op_ext fun ψ b => ?_
  simp only [Module.End.mul_apply]
  rw [sweep_pauliX hqs, phaseFlip_apply, sweep_pauliX hqs, toggle_toggle, phaseFlip_apply]

/-! ### Product states -/

def product (f : Fin n → Bool → ℝ) : Amplitudes n := fun b => ∏ q, f q (b q)

/-- What a one-qubit gate makes of the amplitudes of one qubit. -/
def apply (g : Matrix Bool Bool ℝ) (f : Bool → ℝ) : Bool → ℝ := fun a => g a false * f false + g a true * f true

theorem product_update (f : Fin n → Bool → ℝ) (b : Basis n) (q : Fin n) (v : Bool) :
    product f (Function.update b q v) = f q v * ∏ r ∈ Finset.univ.erase q, f r (b r) := by
  rw [product, ← Finset.mul_prod_erase Finset.univ _ (Finset.mem_univ q), Function.update_self]
  refine congrArg (f q v * ·) (Finset.prod_congr rfl fun r hr => ?_)
  rw [Function.update_of_ne (Finset.ne_of_mem_erase hr)]

theorem onQubit_product (g : Matrix Bool Bool ℝ) (q : Fin n) (f : Fin n → Bool → ℝ) :
    onQubit g q (product f) = product (Function.update f q (apply g (f q))) := by
  funext b
  have hrest : ∏ r ∈ Finset.univ.erase q, Function.update f q (apply g (f q)) r (b r) =
      ∏ r ∈ Finset.univ.erase q, f r (b r) :=
    Finset.prod_congr rfl fun r hr => by rw [Function.update_of_ne (Finset.ne_of_mem_erase hr)]
  have hself := product_update (Function.update f q (apply g (f q))) b q (b q)
  rw [Function.update_eq_self, Function.update_self, hrest] at hself
  rw [onQubit_apply, product_update, product_update, hself, apply]
  ring

theorem sweep_product (g : Matrix Bool Bool ℝ) {qs : List (Fin n)} (hqs : qs.Nodup) (f : Fin n → Bool → ℝ) :
    sweep (onQubit g) qs (product f) = product fun q => if q ∈ qs then apply g (f q) else f q := by
  induction qs generalizing f with
  | nil => simp [sweep]
  | cons q qs ih =>
    obtain ⟨hq, hqs⟩ := List.nodup_cons.mp hqs
    rw [sweep, Module.End.mul_apply, onQubit_product, ih hqs]
    refine congrArg product (funext fun r => ?_)
    by_cases hr : r = q
    · subst hr
      rw [if_neg hq, if_pos List.mem_cons_self, Function.update_self]
    · simp only [Function.update_of_ne hr, List.mem_cons, hr, false_or]

/-- A basis state. -/
def ket (a : Basis n) : Amplitudes n := Pi.single a 1

theorem ket_eq_product (a : Basis n) : ket a = product fun q v => if v = a q then 1 else 0 := by
  funext b
  rw [ket, product, Pi.single_apply, Finset.prod_ite_zero, Finset.prod_const_one]
  simp only [Finset.mem_univ, true_implies, funext_iff]

/-- A state from its amplitudes. -/
theorem op_eq_sum (f : Op n) (ψ : Amplitudes n) : f ψ = ∑ a, ψ a • f (ket a) := by
  have hψ : ψ = ∑ a, ψ a • ket a := by
    funext b
    simp [ket, Finset.sum_apply, Pi.single_apply]
  conv_lhs => rw [hψ]
  rw [map_sum]
  exact Finset.sum_congr rfl fun a _ => map_smul f (ψ a) (ket a)

/-! ### Circuits -/

inductive Gate (n : Nat) where
  | h (q : Fin n)
  | x (q : Fin n)
  | z (q : Fin n)
  | cz (control target : Fin n)
  | mcx (controls : List (Fin n)) (target : Fin n)
  | barrier
  deriving DecidableEq, Repr

noncomputable def Gate.op : Gate n → Op n
  | .h q => onQubit hadamard q
  | .x q => onQubit pauliX q
  | .z q => onQubit pauliZ q
  | .cz control target => controlled [control] (onQubit pauliZ target)
  | .mcx controls target => controlled controls (onQubit pauliX target)
  | .barrier => 1

noncomputable def run : List (Gate n) → Op n
  | [] => 1
  | g :: gs => run gs * g.op

theorem run_append (gs ks : List (Gate n)) : run (gs ++ ks) = run ks * run gs := by
  induction gs with
  | nil => exact (mul_one _).symm
  | cons g gs ih => rw [List.cons_append, run, run, ih, mul_assoc]

theorem run_map (g : Fin n → Gate n) (qs : List (Fin n)) : run (qs.map g) = sweep (fun q => (g q).op) qs := by
  induction qs with
  | nil => rfl
  | cons q qs ih => rw [List.map_cons, run, ih, sweep]

theorem run_flatMap (gs : Fin n → List (Gate n)) (qs : List (Fin n)) :
    run (qs.flatMap gs) = sweep (fun q => run (gs q)) qs := by
  induction qs with
  | nil => rfl
  | cons q qs ih => rw [List.flatMap_cons, run_append, ih, sweep]

theorem run_replicate (gs : List (Gate n)) (k : Nat) : run (List.replicate k gs).flatten = run gs ^ k := by
  induction k with
  | zero => rfl
  | succ k ih => rw [List.replicate_succ, List.flatten_cons, run_append, ih, pow_succ]

/-- H, a multi-controlled X and H on the target flip a sign. -/
theorem run_hmcxh {controls : List (Fin n)} {target : Fin n} (h : target ∉ controls) :
    run [.h target, .mcx controls target, .h target] = phaseFlip fun b => controls.all b && b target := by
  rw [← controlled_pauliZ, ← hadamard_pauliX_hadamard]
  simp only [run, Gate.op, one_mul, mul_assoc]
  rw [conj_controlled hadamard_mul_hadamard h, mul_assoc]

end

end Circuits
