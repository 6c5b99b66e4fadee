import SynQc.Grover.Agent
import SynQc.Grover.Search
import SynQc.Grover.Utils
import SynQc.Library.Turns
import SynQc.Models

/-! How likely the Grover circuits are to find what is marked.

Each builder ends in some rounds of amplification on the uniform state, and how many decides what
is measured. `grover.py` takes them from the share of the marked keys, by a square root and not by an
angle; if at most half of the keys are marked this finds one with a probability of a half at least,
and near to one where few are marked, but with three of four marked it never does
(`optimalIterations_finds`). The agent marks one key and counts its rounds in the same way
(`run_finds`). `grover_utils.py` makes one round whatever is marked, and scores keys that are not those
its oracle marks (`oneRound_finds`). -/
namespace SynQc.Grover
open Circuits

/-! ### Rounds on the uniform state -/

section Amplifies
variable {n : Nat}

/-- A circuit that ends in `k` rounds with some keys marked, and measures every qubit. -/
structure Amplifies (keys : List String) (k : Nat) (qc : QuantumCircuit n) : Prop where
  measured : qc.measured = measureAll n
  rounds : run qc.gates (ket fun _ => false) =
    (amplification (fun b => decide (keyOf b ∈ keys)) ^ k) (fun _ => level n)
  valid : ∀ s ∈ keys, IsBits n s
  nodup : keys.Nodup

variable {keys : List String} {k : Nat} {qc : QuantumCircuit n}

/-- The probability of a key, from the two amplitudes that the rounds end with. -/
theorem Amplifies.probability_split (h : Amplifies keys k qc) {α β : ℝ}
    (hstate : (amplification (fun b : Basis n => decide (keyOf b ∈ keys)) ^ k) (fun _ => level n) =
      split (fun b => decide (keyOf b ∈ keys)) α β) {s : String} (hs : IsBits n s) :
    qc.probability s = if s ∈ keys then α ^ 2 else β ^ 2 := by
  have hqc : qc = ⟨qc.gates, measureAll n⟩ := by rw [← h.measured]
  rw [hqc, probability_eq _ hs, h.rounds, hstate, split, keyOf_basisOf hs]
  by_cases hmem : s ∈ keys <;> simp [hmem]

theorem Amplifies.sin_sq (h : Amplifies keys k qc) {θ : ℝ} (hθ : Real.sin θ ^ 2 = keys.length / 2 ^ n) :
    Real.sin θ ^ 2 = size (fun b : Basis n => decide (keyOf b ∈ keys)) / 2 ^ n := by
  rw [size_marks h.valid h.nodup, hθ]

/-- One of the keys is found as often as the turned state passes. -/
theorem Amplifies.found (h : Amplifies keys k qc) {θ : ℝ} (hθ : Real.sin θ ^ 2 = keys.length / 2 ^ n) :
    (keys.map qc.probability).sum = Real.sin ((2 * k + 1) * θ) ^ 2 := by
  obtain ⟨α, β, hstate, hturned⟩ := amplified (h.sin_sq hθ) k
  have hkeys : ∀ s ∈ keys, qc.probability s = α ^ 2 := by
    intro s hs
    rw [h.probability_split hstate (h.valid s hs), if_pos hs]
  rw [List.map_congr_left hkeys, List.map_const', List.sum_replicate, nsmul_eq_mul, ← size_marks h.valid h.nodup]
  exact hturned.probability (h.sin_sq hθ)

/-- After one round, the odds of each key. -/
theorem Amplifies.probability_once (h : Amplifies keys 1 qc) {s : String} (hs : IsBits n s) :
    qc.probability s =
      (if s ∈ keys then (3 - 4 * (keys.length / 2 ^ n : ℝ)) ^ 2
        else (1 - 4 * (keys.length / 2 ^ n : ℝ)) ^ 2) / 2 ^ n := by
  have hsize := size_marks h.valid h.nodup
  generalize hp : (fun b : Basis n => decide (keyOf b ∈ keys)) = p at hsize
  have hmean : mean (split p (-level n) (level n)) = level n * (1 - 2 * (keys.length / 2 ^ n)) := by
    have hpow : (2 : ℝ) ^ n ≠ 0 := by positivity
    rw [mean_eq, sum_split, hsize]
    field_simp
    ring
  have hconst : (fun _ : Basis n => level n) = split p (level n) (level n) := by
    funext b
    rw [split, ite_self]
  have hstate : (amplification p ^ 1) (fun _ => level n) =
      split p (-(level n * (3 - 4 * (keys.length / 2 ^ n)))) (-(level n * (1 - 4 * (keys.length / 2 ^ n)))) := by
    rw [pow_one, hconst, amplification, Module.End.mul_apply, phaseFlip_split, LinearMap.neg_apply, inversion_split,
      hmean]
    funext b
    rw [Pi.neg_apply, split, split]
    cases p b
    · simp only [Bool.false_eq_true, if_false]
      ring
    · simp only [if_true]
      ring
  subst hp
  rw [h.probability_split hstate hs]
  have hlevel : level n ^ 2 = 1 / 2 ^ n := by rw [sq, level_sq]
  split <;> rw [neg_sq, mul_pow, hlevel] <;> ring

end Amplifies

/-! ### `optimal_iterations` -/

noncomputable def optimalIterations (nQubits numMarked : Nat) : Int :=
  max 1 ⌊Real.pi / (4 : ℕ) * √((2 ^ nQubits : ℕ) / (max 1 numMarked : ℕ))⌋

section Rounds
variable {n m : Nat}

theorem optimalIterations_eq (n : Nat) (hpos : 0 < m) :
    optimalIterations n m = max 1 ⌊Real.pi / 4 / √(m / 2 ^ n)⌋ := by
  have hroot : √((2 ^ n : ℕ) / (max 1 m : ℕ)) = 1 / √(m / 2 ^ n : ℝ) := by
    rw [one_div, ← Real.sqrt_inv, inv_div, max_eq_right hpos]
    push_cast
    rfl
  rw [optimalIterations, hroot, mul_one_div]
  rfl

/-- The angle whose sine is the root of a share of at most a half. -/
theorem exists_angle (hpos : 0 < m) (hhalf : 2 * m ≤ 2 ^ n) :
    ∃ θ, 0 < θ ∧ θ ≤ Real.pi / 4 ∧ Real.sin θ = √(m / 2 ^ n : ℝ) := by
  have hpow : (0 : ℝ) < 2 ^ n := by positivity
  have hm : (0 : ℝ) < m := by exact_mod_cast hpos
  have hshare : (m / 2 ^ n : ℝ) ≤ 1 / 2 := by
    rw [div_le_iff₀ hpow]
    have hcast : (2 * m : ℝ) ≤ 2 ^ n := by exact_mod_cast hhalf
    linarith
  have hroot : √(m / 2 ^ n : ℝ) ≤ Real.sin (Real.pi / 4) := by
    rw [Real.sin_pi_div_four, Real.sqrt_le_left (by positivity), div_pow, Real.sq_sqrt (by norm_num)]
    linarith
  have hone : √(m / 2 ^ n : ℝ) ≤ 1 := hroot.trans (Real.sin_le_one _)
  refine ⟨Real.arcsin √(m / 2 ^ n : ℝ), Real.arcsin_pos.mpr (Real.sqrt_pos.mpr (by positivity)), ?_,
    Real.sin_arcsin (by linarith [Real.sqrt_nonneg (m / 2 ^ n : ℝ)]) hone⟩
  refine Real.arcsin_le_iff_le_sin' ?_ |>.mpr hroot
  constructor <;> linarith [Real.pi_pos]

/-- With at most half of the keys marked, the rounds are those that the sine asks for. -/
theorem asked_optimalIterations (hpos : 0 < m) {θ : ℝ} (h0 : 0 < θ) (hle : θ ≤ Real.pi / 4)
    (hsin : Real.sin θ = √(m / 2 ^ n : ℝ)) : Turns.Asked θ (optimalIterations n m).toNat := by
  have hmem := Turns.sin_mem h0 hle
  have hone : 1 ≤ ⌊Real.pi / 4 / √(m / 2 ^ n : ℝ)⌋ := by
    rw [Int.le_floor, ← hsin, Int.cast_one, one_le_div hmem.1]
    exact hmem.2.trans hle
  have hfloor : (optimalIterations n m).toNat = ⌊Real.pi / 4 / Real.sin θ⌋₊ := by
    rw [optimalIterations_eq n hpos, max_eq_right hone, hsin]
    rfl
  rw [hfloor]
  exact Turns.asked_floor hmem.1

/-- With more of them marked, there is one round. -/
theorem optimalIterations_one (hmost : 2 ^ n < 2 * m) : optimalIterations n m = 1 := by
  have hpos : 0 < m := by
    by_contra hzero
    have hpow : 0 < 2 ^ n := by positivity
    omega
  have hshare : (1 / 2 : ℝ) < m / 2 ^ n := by
    have hcast : ((2 : ℝ) ^ n) < 2 * m := by exact_mod_cast hmost
    rw [lt_div_iff₀ (by positivity)]
    linarith
  have hroot : (7 / 10 : ℝ) < √(m / 2 ^ n : ℝ) := by
    rw [Real.lt_sqrt (by norm_num)]
    norm_num at hshare ⊢
    linarith
  have hfloor : ⌊Real.pi / 4 / √(m / 2 ^ n : ℝ)⌋ ≤ 1 := by
    have hlt : Real.pi / 4 / √(m / 2 ^ n : ℝ) < (1 : ℤ) + 1 := by
      rw [div_lt_iff₀ (by linarith)]
      have hpi := Real.pi_lt_d2
      push_cast
      linarith
    have hfloor := Int.floor_lt.mpr (by exact_mod_cast hlt : Real.pi / 4 / √(m / 2 ^ n : ℝ) < ((1 + 1 : ℤ) : ℝ))
    omega
  rw [optimalIterations_eq n hpos, max_eq_left hfloor]

end Rounds

/-! ### The circuit of `grover.py` -/

theorem amplifies_build (optimal : Nat → Nat → Int) (cfg : GroverConfig) (hn : 2 ≤ cfg.nQubits)
    (hvalid : ∀ s ∈ cfg.marked, IsBits cfg.nQubits s) (hnodup : cfg.marked.Nodup) :
    ∃ qc, buildGroverCircuit optimal cfg = .ok qc ∧ Amplifies cfg.marked (cfg.rounds optimal) qc := by
  obtain ⟨gates, hbuild, hrun⟩ := buildGroverCircuit_spec optimal cfg hn hvalid hnodup
  exact ⟨_, hbuild, rfl, hrun, hvalid, hnodup⟩

/-- The rounds of `optimal_iterations` find one of at most half the keys with these odds. -/
theorem Amplifies.likely {n : Nat} {keys : List String} {qc : QuantumCircuit n}
    (h : Amplifies keys (optimalIterations n keys.length).toNat qc) (hkeys : keys ≠ [])
    (hhalf : 2 * keys.length ≤ 2 ^ n) :
    1 / 2 ≤ (keys.map qc.probability).sum ∧ 1 - 2 * (keys.length / 2 ^ n : ℝ) ≤ (keys.map qc.probability).sum := by
  have hpos := List.length_pos_iff.mpr hkeys
  obtain ⟨θ, h0, hle, hsin⟩ := exists_angle hpos hhalf
  have hshare : Real.sin θ ^ 2 = keys.length / 2 ^ n := by rw [hsin, Real.sq_sqrt (by positivity)]
  obtain ⟨htwice, hquarter⟩ := (asked_optimalIterations hpos h0 hle hsin).cos_sq_le h0 hle
  rw [h.found hshare, ← hshare, Real.sin_sq]
  constructor <;> linarith

/-- **The default rounds find a marked key at least half of the time, if at most half of the keys are marked.** The
fewer are marked, the nearer to always; with more than half, there is one round and the odds are those of one, which
are nought for three of four. -/
theorem optimalIterations_finds (cfg : GroverConfig) (hn : 2 ≤ cfg.nQubits)
    (hvalid : ∀ s ∈ cfg.marked, IsBits cfg.nQubits s) (hnodup : cfg.marked.Nodup) (hmarked : cfg.marked ≠ [])
    (hdefault : cfg.iterations = none) : ∃ qc, buildGroverCircuit optimalIterations cfg = .ok qc ∧
      (2 * cfg.marked.length ≤ 2 ^ cfg.nQubits → 1 / 2 ≤ (cfg.marked.map qc.probability).sum ∧
        1 - 2 * (cfg.marked.length / 2 ^ cfg.nQubits : ℝ) ≤ (cfg.marked.map qc.probability).sum) ∧
      (2 ^ cfg.nQubits < 2 * cfg.marked.length → (cfg.marked.map qc.probability).sum =
        cfg.marked.length / 2 ^ cfg.nQubits * (3 - 4 * (cfg.marked.length / 2 ^ cfg.nQubits)) ^ 2) := by
  obtain ⟨qc, hbuild, hamplifies⟩ := amplifies_build optimalIterations cfg hn hvalid hnodup
  rw [GroverConfig.rounds, hdefault, Option.getD_none] at hamplifies
  refine ⟨qc, hbuild, hamplifies.likely hmarked, fun hmost => ?_⟩
  rw [optimalIterations_one hmost] at hamplifies
  have hkeys : ∀ s ∈ cfg.marked, qc.probability s =
      (3 - 4 * (cfg.marked.length / 2 ^ cfg.nQubits : ℝ)) ^ 2 / 2 ^ cfg.nQubits := by
    intro s hs
    rw [hamplifies.probability_once (hvalid s hs), if_pos hs]
  rw [List.map_congr_left hkeys, List.map_const', List.sum_replicate, nsmul_eq_mul]
  ring

/-- The search of the engine's presets. -/
theorem optimalIterations_finds_preset :
    ∃ qc, buildGroverCircuit optimalIterations ⟨5, ["10101", "01010"], none⟩ = .ok qc ∧
    7 / 8 ≤ (["10101", "01010"].map qc.probability).sum := by
  obtain ⟨qc, hbuild, hlikely, -⟩ := optimalIterations_finds ⟨5, ["10101", "01010"], none⟩ (by decide)
    (by decide +kernel) (by decide) (by decide) rfl
  have hodds := (hlikely (by decide)).2
  norm_num at hodds
  exact ⟨qc, hbuild, by simpa using hodds⟩

/-! ### The search agent -/

namespace Agent

/-- What the agent reads of its input, with `int` and `str` taken and the marked state stripped. -/
structure AgentRunInput where
  shots : Nat
  nQubits : Int := 3
  markedState : String := "101"
  iterations : Option Int := none
  shots_pos : 0 < shots

inductive RunError where
  | agentConfigError (message : String) (nQubits : Int)
  | build (exc : BuildError)
  | simulator (message : String)

structure AgentRunOutput where
  fidelity : ℚ
  backaction : ℚ
  nQubits : Nat
  iterations : Int
  markedState : String
  counts : Counts
  displayedMarkedStateKey : String

/-- A marked state of another length is replaced by ones. -/
def chosenState (nQubits : Nat) (markedState : String) : String :=
  if markedState.toList.length ≠ nQubits then String.ofList (List.replicate nQubits '1') else markedState

/-- `params.get("iterations", …)` -/
noncomputable def defaultIterations (nQubits : Nat) : Int := max 1 ⌊Real.pi / (4 : ℕ) * √(2 ^ nQubits : ℕ)⌋

/-- The KPIs, without their rounding, and the data of a run. -/
def score (shots nQubits : Nat) (iterations : Int) (markedState : String) (counts : Counts) : AgentRunOutput :=
  let displayedKey := displayedKey markedState
  let hitProb : ℚ := ((counts.get? displayedKey).getD 0 : Int) / shots
  { fidelity := hitProb
    backaction := max 0 (1 - hitProb)
    nQubits := nQubits
    iterations := iterations
    markedState := markedState
    counts := counts
    displayedMarkedStateKey := displayedKey }

/-- `GroverSearchAgent.run`; `runCounts` is the simulator. -/
noncomputable def run (runCounts : (n : Nat) → QuantumCircuit n → Nat → Except RunError Counts)
    (input : AgentRunInput) :
    Except RunError AgentRunOutput :=
  if input.nQubits < 1 ∨ 10 < input.nQubits then
    .error (.agentConfigError "n_qubits must be between 1 and 10 for this preset." input.nQubits)
  else
    let nQubits := input.nQubits.toNat
    let markedState := chosenState nQubits input.markedState
    let iterations := input.iterations.getD (defaultIterations nQubits)
    match buildGroverCircuit nQubits markedState iterations with
    | .error exc => .error (.build exc)
    | .ok qc => (runCounts nQubits qc input.shots).map (score input.shots nQubits iterations markedState)

section
variable {n : Nat} {markedState : String}

theorem isBits_chosenState (hbits : markedState.toList.length = n → IsBits n markedState) :
    IsBits n (chosenState n markedState) := by
  rw [chosenState]
  split
  · rw [IsBits, String.toList_ofList]
    refine ⟨List.length_replicate, fun c hc => .inr ?_⟩
    exact List.eq_of_mem_replicate hc
  · rename_i hlength
    exact hbits (not_not.mp hlength)

theorem defaultIterations_eq (n : Nat) : defaultIterations n = optimalIterations n 1 := by
  rw [defaultIterations, optimalIterations, max_self, Nat.cast_one, div_one]

/-- From three qubits on, the circuit makes its rounds with the displayed key marked. -/
theorem amplifies_build (hn : 3 ≤ n) (hvalid : IsBits n markedState) (iterations : Int) :
    ∃ qc, buildGroverCircuit n markedState iterations = .ok qc ∧
      Amplifies [displayedKey markedState] iterations.toNat qc := by
  obtain ⟨flip, hflip, hrun⟩ := signFlip_of_three hn
  have horacle : applyOracle n markedState = .ok (xZeros markedState.toList ++ flip ++ xZeros markedState.toList) := by
    rw [applyOracle, hflip]
    rfl
  have hdiffusion : applyDiffusion n = .ok (hRow n ++ xRow n ++ flip ++ xRow n ++ hRow n) := by
    rw [applyDiffusion, hflip]
    rfl
  have hflips : Circuits.run (xZeros markedState.toList ++ flip ++ xZeros markedState.toList) =
      phaseFlip fun b : Basis n => decide (keyOf b ∈ [displayedKey markedState]) := by
    rw [run_mark _ hrun]
    refine congrArg phaseFlip (funext fun b => decide_eq_decide.mpr ?_)
    rw [List.mem_singleton, keyOf_eq_displayedKey hvalid]
  refine ⟨_, buildGroverCircuit_spec hvalid horacle hdiffusion iterations, rfl, ?_, ?_, List.nodup_singleton _⟩
  · rw [run_append, run_replicate, run_append, hRow, run_map, hflips, ← hRow, run_diffusion hrun, Module.End.mul_apply]
    exact congrArg _ sweep_hadamard_zeros
  · intro s hs
    obtain rfl := List.mem_singleton.mp hs
    exact isBits_reversed hvalid

end

/-- **With its default rounds the agent misses what it scores with a probability of at most `2 / 2 ^ n`.** From three
qubits on a run is the simulator's run of a circuit with these odds. -/
theorem run_finds (runCounts : (n : Nat) → QuantumCircuit n → Nat → Except RunError Counts) (input : AgentRunInput)
    (hn : 3 ≤ input.nQubits) (hle : input.nQubits ≤ 10) (hdefault : input.iterations = none)
    (hbits : input.markedState.toList.length = input.nQubits.toNat → IsBits input.nQubits.toNat input.markedState) :
    let n := input.nQubits.toNat
    let markedState := chosenState n input.markedState
    ∃ qc, buildGroverCircuit n markedState (defaultIterations n) = .ok qc ∧
      1 - 2 / 2 ^ n ≤ qc.probability (displayedKey markedState) ∧
      run runCounts input =
        (runCounts n qc input.shots).map (score input.shots n (defaultIterations n) markedState) := by
  intro n markedState
  have hwide : 3 ≤ n := by omega
  obtain ⟨qc, hbuild, hamplifies⟩ := amplifies_build hwide (isBits_chosenState hbits) (defaultIterations n)
  refine ⟨qc, hbuild, ?_, ?_⟩
  · rw [defaultIterations_eq] at hamplifies
    have hhalf : 2 * 1 ≤ 2 ^ n := (show 2 * 1 ≤ 2 ^ 3 by decide).trans (Nat.pow_le_pow_right (by decide) hwide)
    have hlikely := (hamplifies.likely (List.cons_ne_nil _ _) hhalf).2
    rw [List.map_singleton, List.sum_singleton, List.length_singleton, Nat.cast_one, mul_one_div] at hlikely
    exact hlikely
  · rw [run, if_neg (by omega), hdefault]
    dsimp only [Option.getD_none]
    rw [hbuild]

/-- Three qubits, as by default. -/
theorem run_finds_default : ∃ qc, buildGroverCircuit 3 "101" (defaultIterations 3) = .ok qc ∧
    1 - 2 / 2 ^ 3 ≤ qc.probability (displayedKey "101") := by
  obtain ⟨qc, hbuild, hodds, -⟩ := run_finds (fun _ _ _ => .ok Dict.empty) { shots := 64, shots_pos := by decide }
    (by decide) (by decide) rfl (by decide +kernel)
  exact ⟨qc, hbuild, hodds⟩

end Agent

/-! ### The circuit of `grover_utils.py` -/

namespace Utils

/-- One round, with the reversals of the marked strings marked. -/
theorem amplifies_build (cfg : GroverConfig) (hn : 2 ≤ cfg.nQubits) (hvalid : ∀ s ∈ cfg.marked, IsBits cfg.nQubits s)
    (hnodup : cfg.marked.Nodup) : Amplifies (cfg.marked.map reversed) 1 (buildGroverCircuit cfg) := by
  refine ⟨rfl, ?_, ?_, ?_⟩
  · have hbarrier : run [.barrier] = (1 : Op cfg.nQubits) := mul_one _
    rw [buildGroverCircuit, run_append, run_append, run_append, run_append, hbarrier, hRow, run_map,
      run_oracle cfg hvalid hnodup, run_diffusion_of_two cfg.nQubits_pos hn, one_mul, one_mul, pow_one,
      Module.End.mul_apply, Module.End.mul_apply, amplification, Module.End.mul_apply]
    exact congrArg (fun ψ => (-inversion : Op cfg.nQubits) (phaseFlip _ ψ)) sweep_hadamard_zeros
  · intro s hs
    obtain ⟨t, ht, rfl⟩ := List.mem_map.mp hs
    exact isBits_reversed (hvalid t ht)
  · exact hnodup.map fun s t h => by rw [← reversed_reversed s, h, reversed_reversed]

/-- A sum of two values, by how often there is the first. -/
theorem sum_map_ite {α : Type} (p : α → Bool) (a b : ℝ) (l : List α) :
    (l.map fun s => if p s then a else b).sum = l.countP p * a + (l.length - l.countP p) * b := by
  induction l with
  | nil => simp
  | cons s l ih =>
    rw [List.map_cons, List.sum_cons, ih, List.countP_cons, List.length_cons]
    by_cases hs : p s = true
    · rw [if_pos hs, if_pos hs]
      push_cast
      ring
    · rw [if_neg hs, if_neg hs]
      push_cast
      ring

/-- **The odds of a scored key after the one round.** A scored key whose reversal is scored too has those of a marked
key, and any other those of an unmarked one. -/
theorem oneRound_finds (cfg : GroverConfig) (hn : 2 ≤ cfg.nQubits) (hvalid : ∀ s ∈ cfg.marked, IsBits cfg.nQubits s)
    (hnodup : cfg.marked.Nodup) :
    let share : ℝ := cfg.marked.length / 2 ^ cfg.nQubits
    let both := cfg.marked.countP fun s => decide (reversed s ∈ cfg.marked)
    (cfg.marked.map (buildGroverCircuit cfg).probability).sum =
      (both * (3 - 4 * share) ^ 2 + (cfg.marked.length - both) * (1 - 4 * share) ^ 2) / 2 ^ cfg.nQubits := by
  intro share both
  have hamplifies := amplifies_build cfg hn hvalid hnodup
  have hkeys : ∀ s ∈ cfg.marked, (buildGroverCircuit cfg).probability s =
      if decide (reversed s ∈ cfg.marked) = true then (3 - 4 * share) ^ 2 / 2 ^ cfg.nQubits
      else (1 - 4 * share) ^ 2 / 2 ^ cfg.nQubits := by
    intro s hs
    have hmem : s ∈ cfg.marked.map reversed ↔ reversed s ∈ cfg.marked := by
      constructor
      · intro h
        obtain ⟨t, ht, rfl⟩ := List.mem_map.mp h
        rwa [reversed_reversed]
      · intro h
        exact List.mem_map.mpr ⟨_, h, reversed_reversed s⟩
    rw [hamplifies.probability_once (hvalid s hs), List.length_map, ite_div]
    simp only [hmem, decide_eq_true_eq]
    rfl
  rw [List.map_congr_left hkeys, sum_map_ite]
  ring

/-- Two qubits and one string that is not its own reversal: the round never finds it. -/
theorem oneRound_finds_never :
    (["01"].map (buildGroverCircuit ⟨2, ["01"], 128, by decide, by decide⟩).probability).sum = 0 := by
  have hodds := oneRound_finds ⟨2, ["01"], 128, by decide, by decide⟩ (by decide) (by decide +kernel) (by decide)
  have hboth : ["01"].countP (fun s => decide (reversed s ∈ ["01"])) = 0 := by decide +kernel
  simp only [hboth] at hodds
  norm_num at hodds
  rw [List.map_singleton, List.sum_singleton]
  exact hodds

end Utils

end SynQc.Grover
