import SynQc.Grover.Circuit

/-! The Grover circuit of the search agent, `agents/grover.py`.

The sign flip of `n_qubits - 1` is a Z, a CZ or an MCX, and each of them stands between two
Hadamard gates. Around the MCX these make the sign flip (`run_last_hmcxh`); around the Z and
the CZ they undo it, and what is left are an X and a CNOT, which move amplitudes and negate
none. So the circuit is right from three qubits on, and with one or two it is wrong for every
marked state (`circuit_right_iff`). -/
namespace SynQc.Grover.Agent
open Circuits

/-! ### The circuit -/

section
variable {n : Nat}

/-- The gates between the two rows of X gates, in the oracle and in the diffusion. -/
def signFlip (n : Nat) : Except BuildError (List (Gate n)) := do
  let target ← lastQubit n
  if h : n = 1 then return [.h target, .z ⟨0, by omega⟩, .h target]
  else if h : n = 2 then return [.h target, .cz ⟨0, by omega⟩ ⟨1, by omega⟩, .h target]
  else
    let gate ← mcx (controls n) target
    return [.h target, gate, .h target]

def applyOracle (n : Nat) (markedState : String) : Except BuildError (List (Gate n)) := do
  let flip ← signFlip n
  return xZeros markedState.toList ++ flip ++ xZeros markedState.toList

def applyDiffusion (n : Nat) : Except BuildError (List (Gate n)) := do
  let flip ← signFlip n
  return hRow n ++ xRow n ++ flip ++ xRow n ++ hRow n

def buildGroverCircuit (nQubits : Nat) (markedState : String) (iterations : Int) :
    Except BuildError (QuantumCircuit nQubits) := do
  if ¬IsBits nQubits markedState then
    throw (.agentConfigError
      "marked_state must be a bitstring with length == n_qubits (example: n_qubits=3, marked_state='101')."
      nQubits markedState)
  let rounds ← (List.replicate iterations.toNat ()).mapM fun _ => do
    return (← applyOracle nQubits markedState) ++ (← applyDiffusion nQubits)
  return { gates := hRow nQubits ++ rounds.flatten, measured := measureAll nQubits }

/-- The key the agent scores, `marked_state[::-1]`. -/
def displayedKey (markedState : String) : String := reversed markedState

/-! ### Three qubits or more -/

theorem signFlip_of_three (hn : 3 ≤ n) : ∃ gs : List (Gate n), signFlip n = .ok gs ∧ run gs = phaseFlip isOnes := by
  have hpos : 0 < n := by omega
  refine ⟨[.h (last hpos), .mcx (controls n) (last hpos), .h (last hpos)], ?_, run_last_hmcxh hpos⟩
  rw [signFlip, lastQubit_eq hpos]
  show (if h : n = 1 then _ else _) = _
  rw [dif_neg (by omega), dif_neg (by omega), mcx_controls (by omega)]
  rfl

theorem keyOf_eq_displayedKey {s : String} (hs : IsBits n s) (b : Basis n) :
    keyOf b = displayedKey s ↔ b = basisOf s.toList := keyOf_eq_reversed_iff hs b

/-! ### One or two qubits -/

/-- X gates leave a uniform state as it is. -/
theorem run_xZeros_const (bits : List Char) (c : ℝ) : run (xZeros bits : List (Gate n)) (fun _ => c) = fun _ => c := by
  funext b
  rw [run_xZeros, sweep_pauliX ((List.nodup_finRange n).filter _)]

theorem signFlip_one : ∃ gs : List (Gate 1), signFlip 1 = .ok gs ∧ run gs (fun _ => 1) = fun _ => 1 := by
  refine ⟨[.h 0, .z 0, .h 0], rfl, ?_⟩
  have hx : run [.h 0, .z 0, .h 0] = onQubit pauliX (0 : Fin 1) := by
    simp only [run, Gate.op, one_mul, onQubit_mul]
    rw [hadamard_pauliZ_hadamard]
  funext b
  rw [hx, onQubit_pauliX]

theorem signFlip_two : ∃ gs : List (Gate 2), signFlip 2 = .ok gs ∧ run gs (fun _ => 1) = fun _ => 1 := by
  refine ⟨[.h 1, .cz 0 1, .h 1], rfl, ?_⟩
  have hcx : run [.h 1, .cz 0 1, .h 1] = controlled [0] (onQubit pauliX (1 : Fin 2)) := by
    simp only [run, Gate.op, one_mul]
    rw [mul_assoc, conj_controlled hadamard_mul_hadamard (by decide), hadamard_pauliZ_hadamard]
  funext b
  rw [hcx, controlled_apply, onQubit_pauliX, ite_self]

theorem signFlip_small (hpos : 1 ≤ n) (hn : n < 3) :
    ∃ gs : List (Gate n), signFlip n = .ok gs ∧ run gs (fun _ => 1) = fun _ => 1 := by
  have hcases : n = 1 ∨ n = 2 := by omega
  rcases hcases with rfl | rfl
  · exact signFlip_one
  · exact signFlip_two

/-- With one or two qubits, the oracle leaves the uniform state as it is. -/
theorem applyOracle_small (hpos : 1 ≤ n) (hn : n < 3) (markedState : String) :
    ∃ gs : List (Gate n), applyOracle n markedState = .ok gs ∧ run gs (fun _ => 1) = fun _ => 1 := by
  obtain ⟨flip, hflip, hrun⟩ := signFlip_small hpos hn
  refine ⟨xZeros markedState.toList ++ flip ++ xZeros markedState.toList, ?_, ?_⟩
  · rw [applyOracle, hflip]
    rfl
  · rw [run_append, run_append, Module.End.mul_apply, Module.End.mul_apply, run_xZeros_const, hrun, run_xZeros_const]

/-! ### Every width -/

/-- The circuit repeats the oracle and the diffusion, and measures every qubit. -/
theorem buildGroverCircuit_spec {markedState : String} (hvalid : IsBits n markedState) {oracle diffusion : List (Gate n)}
    (horacle : applyOracle n markedState = .ok oracle) (hdiffusion : applyDiffusion n = .ok diffusion) (iterations : Int) :
    buildGroverCircuit n markedState iterations =
      .ok ⟨hRow n ++ (List.replicate iterations.toNat (oracle ++ diffusion)).flatten, measureAll n⟩ := by
  have hround : ∀ u ∈ List.replicate iterations.toNat (), (do
      return (← applyOracle n markedState) ++ (← applyDiffusion n) : Except BuildError _) = .ok (oracle ++ diffusion) := by
    intro u _
    rw [horacle, hdiffusion]
    rfl
  rw [buildGroverCircuit, if_neg (not_not_intro hvalid), Fallible.mapM_ok hround, List.map_replicate]
  rfl

/-- The oracle and the diffusion of a marked state. A circuit of any number of iterations is built of
them, the oracle negates what the circuit counts under the displayed key and nothing else, and
the diffusion is the inversion about the mean, up to the sign. -/
structure Right (n : Nat) (markedState : String) (oracle diffusion : List (Gate n)) : Prop where
  oracle_eq : applyOracle n markedState = .ok oracle
  diffusion_eq : applyDiffusion n = .ok diffusion
  built : ∀ iterations, ∃ qc, buildGroverCircuit n markedState iterations = .ok qc ∧
    qc.gates = hRow n ++ (List.replicate iterations.toNat (oracle ++ diffusion)).flatten ∧
    ∀ (ψ : Amplitudes n) (b : Basis n),
      run oracle ψ b = if keyOf (qc.clbits b) = displayedKey markedState then -ψ b else ψ b
  inverts : run diffusion = inversion ∨ run diffusion = -inversion

theorem right_of_three (hn : 3 ≤ n) {markedState : String} (hvalid : IsBits n markedState) :
    ∃ oracle diffusion, Right n markedState oracle diffusion := by
  obtain ⟨flip, hflip, hrun⟩ := signFlip_of_three hn
  have horacle : applyOracle n markedState = .ok (xZeros markedState.toList ++ flip ++ xZeros markedState.toList) := by
    rw [applyOracle, hflip]
    rfl
  have hdiffusion : applyDiffusion n = .ok (hRow n ++ xRow n ++ flip ++ xRow n ++ hRow n) := by
    rw [applyDiffusion, hflip]
    rfl
  refine ⟨_, _, horacle, hdiffusion, fun iterations => ?_, .inr (run_diffusion hrun)⟩
  refine ⟨_, buildGroverCircuit_spec hvalid horacle hdiffusion iterations, rfl, fun ψ b => ?_⟩
  rw [run_mark _ hrun, phaseFlip_apply, clbits_measureAll]
  simp only [decide_eq_true_eq, keyOf_eq_displayedKey hvalid]

theorem not_right_small (hpos : 1 ≤ n) (hn : n < 3) {markedState : String} (hvalid : IsBits n markedState)
    {oracle diffusion : List (Gate n)} : ¬Right n markedState oracle diffusion := by
  intro h
  obtain ⟨gs, hgs, hrun⟩ := applyOracle_small hpos hn markedState
  cases h.oracle_eq.symm.trans hgs
  obtain ⟨qc, hbuilt, -, hnegates⟩ := h.built 1
  cases hbuilt.symm.trans (buildGroverCircuit_spec hvalid h.oracle_eq h.diffusion_eq 1)
  have hkey : keyOf (basisOf markedState.toList : Basis n) = displayedKey markedState :=
    (keyOf_eq_displayedKey hvalid _).mpr rfl
  have hmarked := hnegates (fun _ => 1) (basisOf markedState.toList)
  rw [hrun, clbits_measureAll, if_pos hkey] at hmarked
  norm_num at hmarked

/-- **The circuit is right from three qubits on, and only then, whatever state is marked.** -/
theorem circuit_right_iff (hpos : 1 ≤ n) {markedState : String} (hvalid : IsBits n markedState) :
    (∃ oracle diffusion, Right n markedState oracle diffusion) ↔ 3 ≤ n := by
  constructor
  · rintro ⟨oracle, diffusion, hright⟩
    by_contra hn
    exact not_right_small hpos (by omega) hvalid hright
  · exact fun hn => right_of_three hn hvalid

theorem circuit_right_three : ∃ oracle diffusion, Right 3 "101" oracle diffusion :=
  (circuit_right_iff (by decide) (by decide +kernel)).mpr (by decide)

/-- One qubit, with `1` marked. -/
theorem circuit_wrong_one : ¬∀ (n : Nat) (markedState : String), 1 ≤ n → IsBits n markedState →
    ∃ oracle diffusion, Right n markedState oracle diffusion := by
  intro hclaim
  obtain ⟨oracle, diffusion, hright⟩ := hclaim 1 "1" (by decide) (by decide +kernel)
  exact not_right_small (by decide) (by decide) (by decide +kernel) hright

end

end SynQc.Grover.Agent
