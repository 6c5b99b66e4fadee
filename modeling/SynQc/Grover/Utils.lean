import SynQc.Grover.Circuit

/-! The Grover circuit of `grover_utils.py`.

Its oracle reads a marked string forwards, so what it negates is counted under the string
backwards (`run_oracle`), while `success_probability` looks the string itself up. With one
qubit, the diffusion is a Z gate (`run_diffusion_one`). It marks what it scores exactly when
there are two qubits or more and the marked strings are closed under reversal
(`marks_scored_iff`). -/
namespace SynQc.Grover.Utils
open Circuits

/-! ### The circuit -/

structure GroverConfig where
  nQubits : Nat
  marked : List String
  shots : Nat := 128
  nQubits_pos : 0 < nQubits
  shots_pos : 0 < shots

section
variable {n : Nat}

/-- The loop body of the oracle. A state of another length is passed over. -/
def markState (h : 0 < n) (state : String) : List (Gate n) :=
  if state.toList.length ≠ n then []
  else
    xZeros state.toList ++
      (if n = 1 then [.z ⟨0, h⟩] else [.h (last h), .mcx (controls n) (last h), .h (last h)]) ++
      xZeros state.toList ++ [.barrier]

def diffusion (h : 0 < n) : List (Gate n) :=
  hRow n ++ xRow n ++
    [.h (last h), if 1 < n then .mcx (controls n) (last h) else .z ⟨0, h⟩, .h (last h)] ++ xRow n ++ hRow n

def oracle (cfg : GroverConfig) : List (Gate cfg.nQubits) := cfg.marked.flatMap (markState cfg.nQubits_pos)

def buildGroverCircuit (cfg : GroverConfig) : QuantumCircuit cfg.nQubits where
  gates := hRow cfg.nQubits ++ [.barrier] ++ oracle cfg ++ diffusion cfg.nQubits_pos ++ [.barrier]
  measured := measureAll cfg.nQubits

/-! ### What the parts do -/

theorem run_markState (h : 0 < n) {s : String} (hs : IsBits n s) :
    run (markState h s) = phaseFlip fun b => decide (keyOf b = reversed s) := by
  have hflip : run (if n = 1 then [.z ⟨0, h⟩] else [.h (last h), .mcx (controls n) (last h), .h (last h)]) =
      phaseFlip isOnes := by
    by_cases hone : n = 1
    · subst hone
      rw [if_pos rfl, ← funext (all_controls h)]
      exact (controlled_nil _).symm.trans (controlled_pauliZ [] (last h))
    · rw [if_neg hone, run_last_hmcxh h]
  rw [markState, if_neg (not_not_intro hs.1), run_append, run_mark _ hflip]
  refine (one_mul _).trans (congrArg phaseFlip (funext fun b => ?_))
  exact decide_eq_decide.mpr (keyOf_eq_reversed_iff hs b).symm

/-- The oracle negates what is counted under a marked string backwards. -/
theorem run_oracle (cfg : GroverConfig) (hvalid : ∀ s ∈ cfg.marked, IsBits cfg.nQubits s) (hnodup : cfg.marked.Nodup) :
    run (oracle cfg) = phaseFlip fun b => decide (keyOf b ∈ cfg.marked.map reversed) := by
  have hreversed : (cfg.marked.map reversed).Nodup :=
    hnodup.map fun s t h => by rw [← reversed_reversed s, h, reversed_reversed]
  exact run_marks _ reversed (fun s hs => run_markState cfg.nQubits_pos (hvalid s hs)) hreversed

theorem run_diffusion_of_two (h : 0 < n) (hn : 2 ≤ n) : run (diffusion h) = -inversion := by
  rw [diffusion, if_pos (by omega)]
  exact run_diffusion (run_last_hmcxh h)

/-- With one qubit, the diffusion is a Z gate. -/
theorem run_diffusion_one (h : 0 < 1) : run (diffusion h) = onQubit pauliZ 0 := by
  have hgates : diffusion h = [.h 0, .x 0, .h 0, .z 0, .h 0, .x 0, .h 0] := rfl
  have hmatrix : hadamard * (pauliX * (hadamard * (pauliZ * (hadamard * (pauliX * hadamard))))) = pauliZ := by
    calc hadamard * (pauliX * (hadamard * (pauliZ * (hadamard * (pauliX * hadamard)))))
        = hadamard * (pauliX * (hadamard * pauliZ * hadamard) * pauliX) * hadamard := by simp only [mul_assoc]
      _ = pauliZ := by
        rw [hadamard_pauliZ_hadamard, pauliX_mul_pauliX, one_mul, hadamard_pauliX_hadamard]
  rw [hgates]
  simp only [run, Gate.op, one_mul, mul_assoc, onQubit_mul]
  rw [hmatrix]

theorem diffusion_one_not_inversion (h : 0 < 1) :
    ¬(run (diffusion h) = inversion ∨ run (diffusion h) = -inversion) := by
  rw [run_diffusion_one]
  have hz : ∀ v, onQubit pauliZ (0 : Fin 1) (fun _ => 1) (fun _ => v) = if v then -1 else 1 := by
    intro v
    rw [onQubit_apply]
    cases v <;> simp [pauliZ]
  rintro (heq | heq)
  · have htrue := hz true
    rw [heq, inversion_const] at htrue
    norm_num at htrue
  · have hfalse := hz false
    rw [heq, LinearMap.neg_apply, inversion_const] at hfalse
    norm_num at hfalse

theorem diffusion_iff (h : 0 < n) : (run (diffusion h) = inversion ∨ run (diffusion h) = -inversion) ↔ 2 ≤ n := by
  constructor
  · intro hinverts
    by_contra hn
    obtain rfl : n = 1 := by omega
    exact diffusion_one_not_inversion h hinverts
  · exact fun hn => .inr (run_diffusion_of_two h hn)

/-! ### What is scored -/

theorem clbits_buildGroverCircuit (cfg : GroverConfig) (b : Basis cfg.nQubits) : (buildGroverCircuit cfg).clbits b = b :=
  clbits_measureAll _ b

/-- The oracle negates what is counted under a marked key. -/
def MarksScored (cfg : GroverConfig) : Prop :=
  ∀ (ψ : Amplitudes cfg.nQubits) (b : Basis cfg.nQubits), run (oracle cfg) ψ b =
    if keyOf ((buildGroverCircuit cfg).clbits b) ∈ cfg.marked then -ψ b else ψ b

theorem oracle_iff (cfg : GroverConfig) (hvalid : ∀ s ∈ cfg.marked, IsBits cfg.nQubits s) (hnodup : cfg.marked.Nodup) :
    MarksScored cfg ↔ ∀ s ∈ cfg.marked, reversed s ∈ cfg.marked := by
  have hscored : MarksScored cfg ↔ run (oracle cfg) = phaseFlip fun b => decide (keyOf b ∈ cfg.marked) := by
    constructor
    · intro h
      refine op_ext fun ψ b => ?_
      rw [h ψ b, clbits_buildGroverCircuit, phaseFlip_apply]
      simp only [decide_eq_true_eq]
    · intro h ψ b
      rw [h, clbits_buildGroverCircuit, phaseFlip_apply]
      simp only [decide_eq_true_eq]
  rw [hscored, run_oracle cfg hvalid hnodup]
  constructor
  · intro h s hs
    have hkey : keyOf (basisOf (reversed s).toList.reverse : Basis cfg.nQubits) = reversed s :=
      keyOf_basisOf (isBits_reversed (hvalid s hs))
    have hb := congrFun (phaseFlip_injective h) (basisOf (reversed s).toList.reverse)
    rw [hkey] at hb
    exact (decide_eq_decide.mp hb).mp (List.mem_map_of_mem hs)
  · intro h
    refine congrArg phaseFlip (funext fun b => decide_eq_decide.mpr ⟨fun hb => ?_, fun hb => ?_⟩)
    · obtain ⟨s, hs, heq⟩ := List.mem_map.mp hb
      exact heq ▸ h s hs
    · exact List.mem_map.mpr ⟨_, h _ hb, reversed_reversed _⟩

/-- **The circuit marks what is scored, and diffuses, exactly when it has two qubits or more and
the marked strings are closed under reversal.** -/
theorem marks_scored_iff (cfg : GroverConfig) (hvalid : ∀ s ∈ cfg.marked, IsBits cfg.nQubits s)
    (hnodup : cfg.marked.Nodup) :
    ((∀ (ψ : Amplitudes cfg.nQubits) (b : Basis cfg.nQubits), run (oracle cfg) ψ b =
        if keyOf ((buildGroverCircuit cfg).clbits b) ∈ cfg.marked then -ψ b else ψ b) ∧
      (run (diffusion cfg.nQubits_pos) = inversion ∨ run (diffusion cfg.nQubits_pos) = -inversion)) ↔
    2 ≤ cfg.nQubits ∧ ∀ s ∈ cfg.marked, reversed s ∈ cfg.marked := by
  rw [diffusion_iff]
  exact (and_congr_left' (oracle_iff cfg hvalid hnodup)).trans and_comm

theorem marks_scored_both_ways :
    let cfg : GroverConfig := ⟨2, ["01", "10"], 128, by decide, by decide⟩
    (∀ (ψ : Amplitudes cfg.nQubits) (b : Basis cfg.nQubits), run (oracle cfg) ψ b =
        if keyOf ((buildGroverCircuit cfg).clbits b) ∈ cfg.marked then -ψ b else ψ b) ∧
      (run (diffusion cfg.nQubits_pos) = inversion ∨ run (diffusion cfg.nQubits_pos) = -inversion) :=
  (marks_scored_iff ⟨2, ["01", "10"], 128, by decide, by decide⟩ (by decide +kernel) (by decide)).mpr ⟨by decide, by decide⟩

/-- One string that is not its own reversal: `01` is scored, `10` is marked. -/
theorem marks_not_scored : ¬∀ cfg : GroverConfig, (∀ s ∈ cfg.marked, IsBits cfg.nQubits s) → cfg.marked.Nodup →
    (∀ (ψ : Amplitudes cfg.nQubits) (b : Basis cfg.nQubits), run (oracle cfg) ψ b =
        if keyOf ((buildGroverCircuit cfg).clbits b) ∈ cfg.marked then -ψ b else ψ b) ∧
      (run (diffusion cfg.nQubits_pos) = inversion ∨ run (diffusion cfg.nQubits_pos) = -inversion) := by
  intro hclaim
  have hscored := (hclaim ⟨2, ["01"], 128, by decide, by decide⟩ (by decide +kernel) (by decide)).1
  have hreversed := (oracle_iff ⟨2, ["01"], 128, by decide, by decide⟩ (by decide +kernel) (by decide)).mp hscored "01"
    List.mem_cons_self
  exact absurd hreversed (by decide)

end

end SynQc.Grover.Utils
