import SynQc.Grover.Circuit

/-! The Grover circuit of `grover.py`.

The oracle reads each marked string backwards, as Qiskit prints a key, so it negates the
basis states that are counted under a marked key (`buildOracle_spec`); the diffuser is the
inversion about the mean with the sign reversed (`buildDiffuser_spec`). The circuit is then
amplitude amplification with the marked keys as the test (`amplification_law`). -/
namespace SynQc.Grover
open Circuits

/-! ### The circuit -/

/-- The loop body of `build_oracle`. -/
def markBitstring (numQubits : Nat) (bitstring : String) : Except BuildError (List (Gate numQubits)) := do
  if ¬IsBits numQubits bitstring then
    throw (.valueError ("Marked string '" ++ bitstring ++ "' must be " ++ toString numQubits ++ " bits of 0/1"))
  let flip ← hmcxh numQubits
  return xZeros bitstring.toList.reverse ++ flip ++ xZeros bitstring.toList.reverse

def buildOracle (numQubits : Nat) (marked : List String) : Except BuildError (List (Gate numQubits)) := do
  let parts ← marked.mapM (markBitstring numQubits)
  return parts.flatten

def buildDiffuser (numQubits : Nat) : Except BuildError (List (Gate numQubits)) := do
  let flip ← hmcxh numQubits
  return (List.finRange numQubits).flatMap (fun q => [.h q, .x q]) ++ flip ++
    (List.finRange numQubits).flatMap fun q => [.x q, .h q]

structure GroverConfig where
  nQubits : Nat
  marked : List String
  iterations : Option Int := none
  deriving DecidableEq, Repr

/-- How often `range` repeats the oracle and the diffuser; `optimalIterations` rounds a floating
point number. -/
def GroverConfig.rounds (optimalIterations : Nat → Nat → Int) (cfg : GroverConfig) : Nat :=
  (cfg.iterations.getD (optimalIterations cfg.nQubits cfg.marked.length)).toNat

def buildGroverCircuit (optimalIterations : Nat → Nat → Int) (cfg : GroverConfig) :
    Except BuildError (QuantumCircuit cfg.nQubits) := do
  let oracle ← buildOracle cfg.nQubits cfg.marked
  let diffuser ← buildDiffuser cfg.nQubits
  return {
    gates := hRow cfg.nQubits ++ (List.replicate (cfg.rounds optimalIterations) (oracle ++ diffuser)).flatten
    measured := measureAll cfg.nQubits }

section
variable {n : Nat}

/-! ### What the parts do -/

theorem buildOracle_spec (hn : 2 ≤ n) {marked : List String} (hvalid : ∀ s ∈ marked, IsBits n s) (hnodup : marked.Nodup) :
    ∃ gs, buildOracle n marked = .ok gs ∧ run gs = phaseFlip fun b => decide (keyOf b ∈ marked) := by
  obtain ⟨flip, hflip, hrun⟩ := hmcxh_spec hn
  have hparts : ∀ s ∈ marked, markBitstring n s = .ok (xZeros s.toList.reverse ++ flip ++ xZeros s.toList.reverse) := by
    intro s hs
    rw [markBitstring, if_neg (not_not_intro (hvalid s hs)), hflip]
    rfl
  have hmark : ∀ s ∈ marked, run (xZeros s.toList.reverse ++ flip ++ xZeros s.toList.reverse) =
      phaseFlip fun b => decide (keyOf b = id s) := by
    intro s hs
    rw [run_mark _ hrun]
    exact congrArg phaseFlip (funext fun b => decide_eq_decide.mpr (keyOf_eq_iff (hvalid s hs) b).symm)
  refine ⟨marked.flatMap fun s => xZeros s.toList.reverse ++ flip ++ xZeros s.toList.reverse, ?_, ?_⟩
  · rw [buildOracle, Fallible.mapM_ok hparts, List.flatMap_def]
    rfl
  · have hmarks := run_marks _ id hmark (by rwa [List.map_id])
    rwa [List.map_id] at hmarks

theorem buildDiffuser_spec (hn : 2 ≤ n) : ∃ gs, buildDiffuser n = .ok gs ∧ run gs = -(inversion : Op n) := by
  obtain ⟨flip, hflip, hrun⟩ := hmcxh_spec hn
  have hx : ∀ q : Fin n, run [.h q, .x q] = onQubit (pauliX * hadamard) q := fun q => by
    rw [← onQubit_mul]
    rfl
  have hh : ∀ q : Fin n, run [.x q, .h q] = onQubit (hadamard * pauliX) q := fun q => by
    rw [← onQubit_mul]
    rfl
  refine ⟨(List.finRange n).flatMap (fun q => [.h q, .x q]) ++ flip ++
    (List.finRange n).flatMap fun q => [.x q, .h q], ?_, ?_⟩
  · rw [buildDiffuser, hflip]
    rfl
  · rw [run_append, run_append, run_flatMap, run_flatMap, hrun, funext hx, funext hh]
    exact diffusion

/-! ### Amplification -/

/-- The state that is measured: turns of the uniform state. -/
theorem buildGroverCircuit_spec (optimalIterations : Nat → Nat → Int) (cfg : GroverConfig) (hn : 2 ≤ cfg.nQubits)
    (hvalid : ∀ s ∈ cfg.marked, IsBits cfg.nQubits s) (hnodup : cfg.marked.Nodup) :
    ∃ gates, buildGroverCircuit optimalIterations cfg = .ok ⟨gates, measureAll cfg.nQubits⟩ ∧
      run gates (ket fun _ => false) =
        (amplification (fun b => decide (keyOf b ∈ cfg.marked)) ^ cfg.rounds optimalIterations)
          (fun _ => level cfg.nQubits) := by
  obtain ⟨oracle, horacle, hflips⟩ := buildOracle_spec hn hvalid hnodup
  obtain ⟨diffuser, hdiffuser, hinverts⟩ := buildDiffuser_spec hn
  refine ⟨hRow cfg.nQubits ++ (List.replicate (cfg.rounds optimalIterations) (oracle ++ diffuser)).flatten, ?_, ?_⟩
  · rw [buildGroverCircuit, horacle, hdiffuser]
    rfl
  · rw [run_append, run_replicate, run_append, hRow, run_map, hflips, hinverts, Module.End.mul_apply]
    exact congrArg _ sweep_hadamard_zeros

/-- **The Grover circuit finds a marked key with probability `sin² ((2k + 1) θ)` after `k`
rounds, where `sin θ` is the root of the share of the marked keys. All marked keys are equally
likely, and so are all others.** -/
theorem amplification_law (optimalIterations : Nat → Nat → Int) (cfg : GroverConfig) (hn : 2 ≤ cfg.nQubits)
    (hvalid : ∀ s ∈ cfg.marked, IsBits cfg.nQubits s) (hnodup : cfg.marked.Nodup) {θ : ℝ}
    (hθ : Real.sin θ = √(cfg.marked.length / 2 ^ cfg.nQubits)) :
    ∃ qc, buildGroverCircuit optimalIterations cfg = .ok qc ∧
      (cfg.marked.map qc.probability).sum = Real.sin ((2 * cfg.rounds optimalIterations + 1) * θ) ^ 2 ∧
      (∀ s ∈ cfg.marked, ∀ t ∈ cfg.marked, qc.probability s = qc.probability t) ∧
      ∀ s t, IsBits cfg.nQubits s → IsBits cfg.nQubits t → s ∉ cfg.marked → t ∉ cfg.marked →
        qc.probability s = qc.probability t := by
  obtain ⟨gates, hbuild, hrun⟩ := buildGroverCircuit_spec optimalIterations cfg hn hvalid hnodup
  have hsize := size_marks hvalid hnodup
  have hangle : Real.sin θ ^ 2 = size (fun b : Basis cfg.nQubits => decide (keyOf b ∈ cfg.marked)) / 2 ^ cfg.nQubits := by
    rw [hsize, hθ, Real.sq_sqrt (by positivity)]
  obtain ⟨α, β, hstate, hturned⟩ := amplified hangle (cfg.rounds optimalIterations)
  have hprobability : ∀ s, IsBits cfg.nQubits s →
      QuantumCircuit.probability ⟨gates, measureAll cfg.nQubits⟩ s = if s ∈ cfg.marked then α ^ 2 else β ^ 2 := by
    intro s hs
    rw [probability_eq gates hs, hrun, hstate, split, keyOf_basisOf hs]
    by_cases hmem : s ∈ cfg.marked <;> simp [hmem]
  have hmarked : ∀ s ∈ cfg.marked, QuantumCircuit.probability ⟨gates, measureAll cfg.nQubits⟩ s = α ^ 2 := by
    intro s hs
    rw [hprobability s (hvalid s hs), if_pos hs]
  refine ⟨⟨gates, measureAll cfg.nQubits⟩, hbuild, ?_, ?_, ?_⟩
  · rw [List.map_congr_left hmarked, List.map_const', List.sum_replicate, nsmul_eq_mul, ← hsize]
    exact hturned.probability hangle
  · intro s hs t ht
    rw [hmarked s hs, hmarked t ht]
  · intro s t hs ht hmem hmem'
    rw [hprobability s hs, hprobability t ht, if_neg hmem, if_neg hmem']

theorem amplification_law_two_qubits : ∃ qc, buildGroverCircuit (fun _ _ => 1) ⟨2, ["01"], none⟩ = .ok qc ∧
    (["01"].map qc.probability).sum = Real.sin ((2 * (1 : Nat) + 1) * (Real.pi / 6)) ^ 2 := by
  have hsin : Real.sin (Real.pi / 6) = √((["01"].length : ℝ) / 2 ^ 2) := by
    have hroot : ((["01"].length : ℝ) / 2 ^ 2) = (1 / 2) ^ 2 := by norm_num
    rw [Real.sin_pi_div_six, hroot, Real.sqrt_sq (by norm_num)]
  obtain ⟨qc, hbuild, hsum, -⟩ :=
    amplification_law (fun _ _ => 1) ⟨2, ["01"], none⟩ (by decide) (by decide +kernel) (by decide) hsin
  exact ⟨qc, hbuild, hsum⟩

end

end SynQc.Grover
