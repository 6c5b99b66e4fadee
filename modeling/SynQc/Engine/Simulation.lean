import Mathlib.Data.List.GetD
import SynQc.Engine.Backends
import SynQc.Grover.Reference
import SynQc.Kpi.Mixing
import SynQc.Kpi.Percentile
import SynQc.Library.Choices

/-! The simulated devices of `hardware_backends.py` and `provider_clients.py`, with their generators.

The backends of the engine take their draws from a world. Here are the draws themselves: the expected
distribution of a preset with its jitter, the device's distribution mixed from it, and the shots chosen by
weight. Over exact arithmetic no step of this raises, whatever is drawn, and the counts are some that the engine's
backend can have (`simulation_sound`). An outcome is counted as often as the run's own draws fall into an interval of
the length of its probability (`sampleCounts_spec`), so one of probability nought is never counted. The stub clients
of the vendors sample in the same way, and one behind the registry runs exactly what it is asked for
(`stub_runExperiment`). -/
namespace SynQc.Engine.Simulation
open SynQc.Kpi Fallible

/-! ### Expected distributions -/

/-- The probabilities of four outcomes, in percent. -/
def percent (outcomes : List String) (shares : List ℚ) : Dict String ℚ :=
  (outcomes.zip shares).foldl (fun d e => d.set e.1 (e.2 / 100)) Dict.empty

/-- `base` -/
def baseDistribution : ExperimentPreset → Dict String ℚ
  | .latency => percent ["00", "01", "10", "11"] [55, 22, 14, 9]
  | .groverDemo => Grover.idealMarkedDistribution 5 ["10101", "01010"] (1 / 100)
  | .backendCompare => percent ["00", "01", "10", "11"] [42, 22, 20, 16]
  | .helloQuantumSim => percent ["00", "01", "10", "11"] [70, 15, 10, 5]
  | _ => percent ["00", "11", "01", "10"] [64, 28, 5, 3]

/-- `{k: v + rng.uniform(-width, width) for k, v in base.items()}` -/
def jitter (width : ℚ) (rng : Rng) (base : Dict String ℚ) : Dict String ℚ :=
  base.mapIdx fun i v => v + uniform (-width) width (rng.draw i)

def expectedDistribution (preset : ExperimentPreset) (rng : Rng) : Except Exc (Dict String ℚ × Rng) := do
  let base := baseDistribution preset
  let q ← normalizeDistribution (jitter (1 / 100) rng base)
  return (q, rng.skip base.size)

theorem keys_baseDistribution (preset : ExperimentPreset) :
    (baseDistribution preset).keys = expectedOutcomes preset := by
  cases preset <;> decide +kernel

/-- Each preset has an outcome that the jitter cannot take. -/
theorem exists_base_above (preset : ExperimentPreset) :
    ∃ k v, (baseDistribution preset).get? k = some v ∧ 1 / 100 < v := by
  cases preset with
  | groverDemo => exact ⟨"10101", 35 / 100, by decide +kernel, by norm_num⟩
  | latency => exact ⟨"00", 55 / 100, by decide +kernel, by norm_num⟩
  | backendCompare => exact ⟨"00", 42 / 100, by decide +kernel, by norm_num⟩
  | helloQuantumSim => exact ⟨"00", 70 / 100, by decide +kernel, by norm_num⟩
  | health => exact ⟨"00", 64 / 100, by decide +kernel, by norm_num⟩
  | dpdDemo => exact ⟨"00", 64 / 100, by decide +kernel, by norm_num⟩
  | multicallDualClocking => exact ⟨"00", 64 / 100, by decide +kernel, by norm_num⟩

theorem length_expectedOutcomes (preset : ExperimentPreset) : (expectedOutcomes preset).length ≤ 32 := by
  cases preset <;> decide +kernel

/-- The jittered distribution is one over the outcomes of the preset. -/
theorem expectedDistribution_spec (preset : ExperimentPreset) (rng : Rng) :
    ∃ q, expectedDistribution preset rng = .ok (q, rng.skip (baseDistribution preset).size) ∧
      q.keys = expectedOutcomes preset ∧ Probabilities q := by
  obtain ⟨k, v, hk, hv⟩ := exists_base_above preset
  have huniform := rng.uniform_ge (1 / 100) (by norm_num) ((baseDistribution preset).keys.idxOf k)
  have hget : (jitter (1 / 100) rng (baseDistribution preset)).get? k =
      some (v + uniform (-(1 / 100)) (1 / 100) (rng.draw ((baseDistribution preset).keys.idxOf k))) := by
    rw [jitter, Dict.get?_mapIdx, hk, Option.map_some]
  obtain ⟨q, hq, hkeys, hprobabilities⟩ := normalizeDistribution_ok (mass_pos hget (by linarith))
  refine ⟨q, ?_, ?_, hprobabilities⟩
  · rw [expectedDistribution, hq]
    rfl
  · rw [hkeys, jitter, Dict.keys_mapIdx, keys_baseDistribution]

/-! ### Sampling -/

/-- `rng.choices(outcomes, weights=weights, k=shots)` -/
def choices (outcomes : List String) (weights : List ℚ) (shots : ℕ) (rng : Rng) : Except Exc (List String) :=
  if outcomes = [] then .error (.other "list index out of range")
  else if weights.sum ≤ 0 then .error (.valueError "Total of weights must be greater than zero")
  else .ok ((List.range shots).map fun i => outcomes.getD (Choices.pick weights (rng.draw i)) "")

def sampleCounts (dist : Dict String ℚ) (shots : Int) (rng : Rng) : Except Exc (Counts × Rng) := do
  let draws ← choices dist.keys dist.values shots.toNat rng
  return (draws.foldl bump (zeros dist.keys), rng.skip shots.toNat)

/-- The probabilities of the outcomes before one. -/
def before (dist : Dict String ℚ) (o : String) : ℚ := (dist.values.take (dist.keys.idxOf o)).sum

/-- A draw that picks an outcome: between the probabilities before it and with it. -/
def Falls (dist : Dict String ℚ) (o : String) (r : ℚ) : Prop :=
  before dist o ≤ r ∧ r < before dist o + (dist.get? o).getD 0

instance (dist : Dict String ℚ) (o : String) (r : ℚ) : Decidable (Falls dist o r) :=
  inferInstanceAs (Decidable (_ ∧ _))

section Sampling
variable {dist : Dict String ℚ} {r : ℚ}

theorem countOf_bump (c : Counts) (o k : String) : countOf (bump c o) k = countOf c k + if o = k then 1 else 0 := by
  rw [countOf, countOf, bump, Dict.get?_set]
  split
  · rename_i h
    rw [h, Option.getD_some]
  · rw [add_zero]

theorem countOf_foldl_bump (draws : List String) (c : Counts) (k : String) :
    countOf (draws.foldl bump c) k = countOf c k + draws.countP (fun d => decide (d = k)) := by
  induction draws generalizing c with
  | nil => simp
  | cons d draws ih =>
    rw [List.foldl_cons, ih, countOf_bump, List.countP_cons]
    by_cases hd : d = k
    · rw [if_pos hd, if_pos (decide_eq_true hd)]
      push_cast
      ring
    · rw [if_neg hd, if_neg (by simpa using hd)]
      push_cast
      ring

theorem countOf_zeros (outcomes : List String) (k : String) : countOf (zeros outcomes) k = 0 := by
  have hget : (zeros outcomes).get? k = if k ∈ outcomes then some 0 else none :=
    Dict.get?_setEach Dict.empty outcomes (fun _ => 0) k
  rw [countOf, hget]
  split <;> rfl

theorem values_sum (hq : Probabilities dist) : dist.values.sum = 1 := hq.sum

theorem values_nonneg (hq : Probabilities dist) : ∀ w ∈ dist.values, 0 ≤ w := by
  intro w hw
  obtain ⟨k, hk⟩ := Dict.get?_of_mem_values hw
  exact hq.nonneg k w hk

theorem length_values (dist : Dict String ℚ) : dist.values.length = dist.keys.length := by
  rw [Dict.values, Dict.keys, List.length_map, List.length_map]

theorem pick_lt (hq : Probabilities dist) (h0 : 0 ≤ r) (h1 : r < 1) :
    Choices.pick dist.values r < dist.keys.length := by
  have hpos : 0 < dist.values.sum := by
    rw [values_sum hq]
    exact zero_lt_one
  rw [← length_values]
  exact (Choices.picks_pick hpos h0 h1).lt_length

/-- The draws that pick an outcome are those that fall into its interval. -/
theorem chosen_iff (hq : Probabilities dist) (h0 : 0 ≤ r) (h1 : r < 1) (o : String) :
    dist.keys.getD (Choices.pick dist.values r) "" = o ↔ Falls dist o r := by
  have hsum := values_sum hq
  have hnodup : dist.keys.Nodup := dist.nodup
  have hplace := Dict.get?_eq_getElem? dist o
  have hpick := Choices.pick_eq_iff (i := dist.keys.idxOf o) (values_nonneg hq) (hsum ▸ zero_lt_one) h0 h1
  have hlt := pick_lt hq h0 h1
  rw [List.getD_eq_getElem _ _ hlt]
  by_cases ho : o ∈ dist.keys
  · have hidx := List.idxOf_lt_length_of_mem ho
    have hidx' : dist.keys.idxOf o < dist.values.length := by rwa [length_values]
    have hfalls : Falls dist o r ↔ Choices.Picks dist.values r (dist.keys.idxOf o) := by
      rw [List.getElem?_eq_getElem hidx'] at hplace
      rw [Falls, hplace, Option.getD_some, before]
      constructor
      · intro h
        refine ⟨hidx', by rw [hsum, mul_one]; exact h.1, ?_⟩
        rw [hsum, mul_one, Choices.cumulated, List.sum_take_succ _ _ hidx']
        exact h.2
      · intro h
        have hbefore := h.ge_before
        have hwith := h.lt_with
        rw [hsum, mul_one] at hbefore hwith
        rw [Choices.cumulated, List.sum_take_succ _ _ hidx'] at hwith
        exact ⟨hbefore, hwith⟩
    rw [hfalls, ← hpick]
    constructor
    · intro h
      rw [← h, hnodup.idxOf_getElem]
    · intro h
      simp only [h, List.getElem_idxOf]
  · constructor
    · intro h
      exact absurd (h ▸ List.getElem_mem hlt) ho
    · intro h
      -- all the probabilities are before it
      have hall : before dist o = 1 := by
        rw [before, List.idxOf_eq_length ho, ← length_values, List.take_length, hsum]
      have hle := h.1
      rw [hall] at hle
      exact absurd (hle.trans_lt h1) (lt_irrefl _)

/-- The place of the outcome that a shot picks. -/
def picked (dist : Dict String ℚ) (rng : Rng) (i : ℕ) : ℕ := Choices.pick dist.values (rng.draw i)

/-- **Sampling counts the draws**: as many shots as asked for, those of an outcome are the draws that fall into its
interval, and the counts are the engine's for these picks. -/
theorem sampleCounts_spec (hq : Probabilities dist) (shots : Int) (rng : Rng) :
    ∃ counts, sampleCounts dist shots rng = .ok (counts, rng.skip shots.toNat) ∧
      counts = Engine.sampleCounts dist.keys shots (picked dist rng) ∧
      ∀ o, countOf counts o = (List.range shots.toNat).countP fun i => decide (Falls dist o (rng.draw i)) := by
  have hne : dist.keys ≠ [] := keys_ne_nil_of_size hq.size_ne_zero
  have hsum := values_sum hq
  have hpos : ¬dist.values.sum ≤ 0 := by
    rw [hsum]
    exact not_le.mpr zero_lt_one
  refine ⟨_, by rw [sampleCounts, choices, if_neg hne, if_neg hpos]; rfl, ?_, ?_⟩
  · rw [Engine.sampleCounts, List.foldl_map]
    congr 1
    funext c i
    rw [picked, Nat.mod_eq_of_lt (pick_lt hq (rng.nonneg i) (rng.lt_one i))]
  · intro o
    rw [countOf_foldl_bump, countOf_zeros, zero_add, List.countP_map]
    refine congrArg Nat.cast (List.countP_congr fun i _ => ?_)
    rw [Function.comp_apply, decide_eq_true_eq, decide_eq_true_eq]
    exact chosen_iff hq (rng.nonneg i) (rng.lt_one i) o

end Sampling

/-! ### A simulated run -/

/-- What a simulated run ends with; `actualQ` is what it samples from. -/
structure Simulated where
  expectedQ : Dict String ℚ
  actualQ : Dict String ℚ
  rawCounts : Counts
  fidelity : Option ℝ
  latencyUs : ℚ
  backaction : ℚ

/-- `base + rng.random() * span` -/
structure Prior where
  base : ℚ
  span : ℚ

def Prior.at (prior : Prior) (draw : ℚ) : ℚ := prior.base + draw * prior.span

/-- `try: … except ValueError: None` around the estimate. -/
noncomputable def estimate (rawCounts : Counts) (expectedQ : Dict String ℚ) : Except Exc (Option ℝ) :=
  match fidelityDistFromCounts rawCounts (asReal expectedQ) with
  | .ok f => .ok (some f)
  | .error (.valueError _) => .ok none
  | .error exc => .error exc

/-- Both backends from the target on. -/
noncomputable def measure (expectedQ : Dict String ℚ) (targetFidelity : Option ℚ) (shotsUsed : Int)
    (latencyUs backaction : ℚ) (rng : Rng) : Except Exc Simulated := do
  let mix ← mixTowardUniform expectedQ targetFidelity rng
  let sample ← sampleCounts mix.1 shotsUsed mix.2
  let fidelity ← if targetFidelity.isSome then estimate sample.1 expectedQ else .ok none
  return ⟨expectedQ, mix.1, sample.1, fidelity, latencyUs, backaction⟩

namespace LocalSimulator

structure Priors where
  targetFidelity : Option Prior
  latencyUs : Prior
  backaction : Prior

/-- `GROVER_DEMO` runs a circuit instead. -/
def priors : ExperimentPreset → Priors
  | .health => ⟨some ⟨94 / 100, 4 / 100⟩, ⟨15, 6⟩, ⟨15 / 100, 10 / 100⟩⟩
  | .latency => ⟨none, ⟨10, 15⟩, ⟨10 / 100, 10 / 100⟩⟩
  | .backendCompare => ⟨some ⟨93 / 100, 5 / 100⟩, ⟨18, 10⟩, ⟨20 / 100, 10 / 100⟩⟩
  | .helloQuantumSim => ⟨some ⟨975 / 1000, 15 / 1000⟩, ⟨9, 4⟩, ⟨8 / 100, 4 / 100⟩⟩
  | _ => ⟨some ⟨90 / 100, 6 / 100⟩, ⟨12, 8⟩, ⟨10 / 100, 10 / 100⟩⟩

noncomputable def runExperiment (s : Settings) (preset : ExperimentPreset) (shotBudget : Int) (rng : Rng) :
    Except Exc Simulated := do
  let shotsUsed := min shotBudget s.maxShotsPerExperiment
  let expected ← expectedDistribution preset rng
  let p := priors preset
  let target := p.targetFidelity.map fun prior => prior.at expected.2.random
  let rng := if p.targetFidelity.isSome then expected.2.skip 1 else expected.2
  measure expected.1 target shotsUsed (p.latencyUs.at (rng.draw 0)) (p.backaction.at (rng.draw 1)) (rng.skip 2)

end LocalSimulator

namespace ProviderBackend

/-- The priors of a provider, given to its constructor. -/
structure Priors where
  fidelityFloor : ℚ
  fidelityCeiling : ℚ
  latencyUs : Prior
  backaction : Prior

noncomputable def simulate (s : Settings) (p : Priors) (preset : ExperimentPreset) (shotBudget : Int) (rng : Rng) :
    Except Exc Simulated := do
  let shotsUsed := min shotBudget s.maxShotsPerExperiment
  let latencyUs := p.latencyUs.at (rng.draw 0)
  let backaction := p.backaction.at (rng.draw 1)
  let expected ← expectedDistribution preset (rng.skip 2)
  let target := if preset = .latency then none
    else some (max 0 (min 1 (p.fidelityFloor + expected.2.random * (p.fidelityCeiling - p.fidelityFloor))))
  let rng := if preset = .latency then expected.2 else expected.2.skip 1
  measure expected.1 target shotsUsed latencyUs backaction rng

end ProviderBackend

/-! ### What a run comes to -/

/-- The draws of a run before its shots: the jitter and the tilt take one for each outcome, latency and backaction one
each, and one more is the target's; where there is none, each candidate takes one for its score. -/
def drawsBefore (preset : ExperimentPreset) : ℕ :=
  2 * (expectedOutcomes preset).length + 2 + if preset = .latency then candidates.length else 1

/-- A run of a preset with some shots, on a generator. -/
structure Sound (preset : ExperimentPreset) (shots : Int) (rng : Rng) (run : Simulated) : Prop where
  expected : Probabilities run.expectedQ
  actual : Probabilities run.actualQ
  outcomes : run.expectedQ.keys = expectedOutcomes preset ∧ run.actualQ.keys = expectedOutcomes preset
  /-- The counts are the engine's, for what the run's draws pick. -/
  counts : run.rawCounts =
    Engine.sampleCounts (expectedOutcomes preset) shots (picked run.actualQ (rng.skip (drawsBefore preset)))
  /-- Each outcome is counted as often as the run's draws fall into its interval. -/
  drawn : ∀ o, countOf run.rawCounts o =
    (List.range shots.toNat).countP fun i => decide (Falls run.actualQ o (rng.draw (drawsBefore preset + i)))
  /-- What the device never measures is not counted. -/
  support : ∀ o, run.actualQ.get? o = some 0 → countOf run.rawCounts o = 0
  /-- There is a fidelity where there is a target and a shot, and it is the one of the counts. -/
  fidelity : run.fidelity.isSome ↔ preset ≠ .latency ∧ 0 < shots
  estimated : ∀ f, run.fidelity = some f →
    fidelityDistFromCounts run.rawCounts (asReal run.expectedQ) = .ok f ∧ 0 ≤ f ∧ f ≤ 1

section Runs
variable {preset : ExperimentPreset} {shots : Int} {q : Dict String ℚ}

theorem size_of_keys {dist : Dict String ℚ} (hkeys : dist.keys = expectedOutcomes preset) :
    dist.size = (expectedOutcomes preset).length := by
  rw [← hkeys, Dict.keys, List.length_map, Dict.size]

theorem skip_target (rng : Rng) (n : ℕ) (b : Bool) :
    rng.skip (n + if b then 1 else 0) = if b then (rng.skip n).skip 1 else rng.skip n := by
  cases b with
  | false => rfl
  | true => exact (Rng.skip_skip rng n 1).symm

/-- One draw is for a target, or one for each candidate where there is none. -/
theorem scoreDraws_eq {targetFidelity : Option ℚ} (htarget : targetFidelity.isSome ↔ preset ≠ .latency) :
    (if targetFidelity.isSome then 1 else 0) + scoreDraws targetFidelity =
      if preset = .latency then candidates.length else 1 := by
  rw [scoreDraws]
  by_cases hlatency : preset = .latency
  · have hnone : ¬targetFidelity.isSome = true := fun h => htarget.mp h hlatency
    rw [if_neg hnone, if_neg hnone, if_pos hlatency, Nat.zero_add]
  · rw [if_pos (htarget.mpr hlatency), if_pos (htarget.mpr hlatency), if_neg hlatency]

/-- The estimate is missing only where nothing was measured. -/
theorem estimate_spec {counts : Counts} (hnonneg : ∀ k n, counts.get? k = some n → 0 ≤ n) (hq : Probabilities q)
    (hsum : counts.sum = shots.toNat) :
    ∃ fidelity, estimate counts q = .ok fidelity ∧ (fidelity.isSome ↔ 0 < shots) ∧
      ∀ f, fidelity = some f → fidelityDistFromCounts counts (asReal q) = .ok f ∧ 0 ≤ f ∧ f ≤ 1 := by
  by_cases hshots : 0 < shots
  · have hc : ValidCounts counts := ⟨hnonneg, by omega⟩
    have hok := fidelityDistFromCounts_eq hc hq.isDistribution fun k => mem_outcomes
    refine ⟨_, by rw [estimate, hok], iff_of_true rfl hshots, ?_⟩
    intro f hf
    obtain rfl := Option.some.inj hf
    exact ⟨hok, fidelityDistFromCounts_range hok⟩
  · have hempty : counts.sum ≤ 0 := by omega
    obtain ⟨message, herror⟩ : ∃ message, fidelityDistFromCounts counts (asReal q) = .error (.valueError message) := by
      rw [fidelityDistFromCounts, distributionFromCounts]
      by_cases hkeys : counts.keys = []
      · exact ⟨_, by rw [if_pos hkeys]; rfl⟩
      · exact ⟨_, by rw [if_neg hkeys, if_pos hempty]; rfl⟩
    refine ⟨none, by rw [estimate, herror], iff_of_false (by decide) hshots, ?_⟩
    intro f hf
    exact absurd hf.symm (Option.some_ne_none f)

theorem measure_sound (hq : Probabilities q) (hkeys : q.keys = expectedOutcomes preset) (targetFidelity : Option ℚ)
    (htarget : targetFidelity.isSome ↔ preset ≠ .latency) (shots : Int) (latencyUs backaction : ℚ) (rng : Rng) {taken : ℕ}
    (htaken : taken + (scoreDraws targetFidelity + q.size) = drawsBefore preset) :
    ∃ run, measure q targetFidelity shots latencyUs backaction (rng.skip taken) = .ok run ∧ Sound preset shots rng run := by
  have hsize : q.size < 200 := by
    have hlength := size_of_keys hkeys
    have := length_expectedOutcomes preset
    omega
  obtain ⟨-, -, actual, hmix, -, hactual, hprobabilities, -⟩ :=
    mixTowardUniform_spec hq hsize targetFidelity (rng.skip taken)
  rw [Rng.skip_skip, htaken] at hmix
  obtain ⟨counts, hsample, hpick, hfalls⟩ := sampleCounts_spec hprobabilities shots (rng.skip (drawsBefore preset))
  rw [hactual, hkeys] at hpick
  have hsum : counts.sum = shots.toNat := by
    rw [hpick]
    exact Engine.sampleCounts_sum _ _ _
  have hnonneg : ∀ k n, counts.get? k = some n → 0 ≤ n := by
    intro k n hn
    have hcount := hfalls k
    rw [countOf, hn, Option.getD_some] at hcount
    omega
  obtain ⟨fidelity, hestimate, hsome, hvalue⟩ := estimate_spec hnonneg hq hsum
  have hsupport : ∀ o, actual.get? o = some 0 → countOf counts o = 0 := by
    intro o ho
    rw [hfalls o, List.countP_eq_zero.mpr, Nat.cast_zero]
    intro i _ hfall
    have hinterval := of_decide_eq_true hfall
    rw [Falls, ho, Option.getD_some, add_zero] at hinterval
    exact absurd (hinterval.1.trans_lt hinterval.2) (lt_irrefl _)
  by_cases hlatency : preset = .latency
  · have hnone : ¬targetFidelity.isSome = true := fun h => htarget.mp h hlatency
    refine ⟨⟨q, actual, counts, none, latencyUs, backaction⟩, ?_, hq, hprobabilities, ⟨hkeys, hactual.trans hkeys⟩,
      hpick, hfalls, hsupport, ?_, ?_⟩
    · rw [measure, hmix]
      dsimp only [bind, Except.bind]
      rw [hsample]
      dsimp only
      rw [if_neg hnone]
      rfl
    · exact iff_of_false Bool.false_ne_true fun h => h.1 hlatency
    · intro f hf
      exact absurd hf.symm (Option.some_ne_none f)
  · refine ⟨⟨q, actual, counts, fidelity, latencyUs, backaction⟩, ?_, hq, hprobabilities, ⟨hkeys, hactual.trans hkeys⟩,
      hpick, hfalls, hsupport, ?_, hvalue⟩
    · rw [measure, hmix]
      dsimp only [bind, Except.bind]
      rw [hsample]
      dsimp only
      rw [if_pos (htarget.mpr hlatency), hestimate]
      rfl
    · rw [hsome]
      exact (and_iff_right hlatency).symm

theorem LocalSimulator.isSome_target (preset : ExperimentPreset) :
    (LocalSimulator.priors preset).targetFidelity.isSome ↔ preset ≠ .latency := by
  cases preset <;> decide

end Runs

/-- **Simulated runs are sound**: whatever is drawn, neither backend raises, and it counts its own draws by a
distribution over the outcomes of the preset. -/
theorem simulation_sound (s : Settings) (preset : ExperimentPreset) (shotBudget : Int) (rng : Rng) :
    (∃ run, LocalSimulator.runExperiment s preset shotBudget rng = .ok run ∧
        Sound preset (min shotBudget s.maxShotsPerExperiment) rng run) ∧
      ∀ p : ProviderBackend.Priors, ∃ run, ProviderBackend.simulate s p preset shotBudget rng = .ok run ∧
        Sound preset (min shotBudget s.maxShotsPerExperiment) rng run := by
  have hbase := size_of_keys (keys_baseDistribution preset)
  constructor
  · obtain ⟨q, hexpected, hkeys, hq⟩ := expectedDistribution_spec preset rng
    have hqsize := size_of_keys hkeys
    let target := (LocalSimulator.priors preset).targetFidelity.map fun prior =>
      prior.at (rng.skip (baseDistribution preset).size).random
    have hsome : target.isSome = (LocalSimulator.priors preset).targetFidelity.isSome := Option.isSome_map
    have htarget : target.isSome ↔ preset ≠ .latency := hsome.symm ▸ LocalSimulator.isSome_target preset
    have htaken : ((baseDistribution preset).size + if target.isSome then 1 else 0) + 2 +
        (scoreDraws target + q.size) = drawsBefore preset := by
      have hscore := scoreDraws_eq htarget
      rw [drawsBefore, ← hscore]
      omega
    obtain ⟨run, hrun, hsound⟩ := measure_sound hq hkeys target htarget (min shotBudget s.maxShotsPerExperiment)
      _ _ rng htaken
    refine ⟨run, ?_, hsound⟩
    rw [LocalSimulator.runExperiment, hexpected]
    refine Eq.trans ?_ hrun
    rw [← Rng.skip_skip, skip_target, hsome]
    rfl
  · intro p
    obtain ⟨q, hexpected, hkeys, hq⟩ := expectedDistribution_spec preset (rng.skip 2)
    have hqsize := size_of_keys hkeys
    let drawn := ((rng.skip 2).skip (baseDistribution preset).size).random
    let target := if preset = .latency then none
      else some (max 0 (min 1 (p.fidelityFloor + drawn * (p.fidelityCeiling - p.fidelityFloor))))
    have htarget : target.isSome ↔ preset ≠ .latency := by
      by_cases h : preset = .latency
      · simp only [target, if_pos h, Option.isSome_none]
        exact iff_of_false Bool.false_ne_true fun hne => hne h
      · simp only [target, if_neg h, Option.isSome_some]
        exact iff_of_true trivial h
    have htaken : (2 + (baseDistribution preset).size + if target.isSome then 1 else 0) +
        (scoreDraws target + q.size) = drawsBefore preset := by
      have hscore := scoreDraws_eq htarget
      rw [drawsBefore, ← hscore]
      omega
    obtain ⟨run, hrun, hsound⟩ := measure_sound hq hkeys target htarget (min shotBudget s.maxShotsPerExperiment)
      _ _ rng htaken
    refine ⟨run, ?_, hsound⟩
    rw [ProviderBackend.simulate, hexpected]
    refine Eq.trans ?_ hrun
    have hskip : (if target.isSome then ((rng.skip 2).skip (baseDistribution preset).size).skip 1
        else (rng.skip 2).skip (baseDistribution preset).size) =
          if preset = .latency then (rng.skip 2).skip (baseDistribution preset).size
          else ((rng.skip 2).skip (baseDistribution preset).size).skip 1 := by
      by_cases h : preset = .latency
      · rw [if_pos h, if_neg fun hsome => htarget.mp hsome h]
      · rw [if_neg h, if_pos (htarget.mpr h)]
    rw [skip_target, ← Rng.skip_skip rng 2, hskip]
    rfl

/-! ### Live clients -/

/-- What a live run refuses of its reply's distribution is what cannot be normalized. -/
theorem positiveMass_iff (dist : Dict String ℚ) :
    Engine.ProviderBackend.positiveMass dist = true ↔ ∃ q, normalizeDistribution dist = .ok q := by
  rw [Engine.ProviderBackend.positiveMass, decide_eq_true_eq]
  constructor
  · intro h
    exact ⟨_, if_neg (not_le.mpr h)⟩
  · intro h
    obtain ⟨q, hq⟩ := h
    by_contra hmass
    rw [normalizeDistribution, if_pos (not_lt.mp hmass)] at hq
    cases hq

/-- The stub client of a vendor. -/
structure StubClient where
  expectedDistribution : ExperimentPreset → Dict String ℚ
  maxShots : Int
  fidelity : Prior
  latencyUs : Prior
  backaction : Prior
  /-- What it raises before it runs anything. -/
  refusal : Option Exc := none

/-- Its run; the generator is seeded from the preset and the budget. -/
def StubClient.run (client : StubClient) (rngOf : ExperimentPreset → Int → Rng) : LiveClient := fun preset shotBudget =>
  match client.refusal with
  | some exc => .error exc
  | none => do
    let expected := client.expectedDistribution preset
    let shotsUsed := max 1 (min shotBudget client.maxShots)
    let sample ← sampleCounts expected shotsUsed (rngOf preset shotBudget)
    return {
      rawCounts := sample.1
      expectedDistribution := some expected
      fidelity := some (client.fidelity.at (sample.2.draw 0))
      latencyUs := some (client.latencyUs.at (sample.2.draw 1))
      backaction := some (client.backaction.at (sample.2.draw 2))
      shotsUsed := some shotsUsed }

/-- The four distributions of a vendor, in percent. -/
def shapes (latency backendCompare helloQuantumSim others : List ℚ) : ExperimentPreset → Dict String ℚ
  | .latency => percent ["00", "01", "10", "11"] latency
  | .backendCompare => percent ["00", "01", "10", "11"] backendCompare
  | .helloQuantumSim => percent ["00", "01", "10", "11"] helloQuantumSim
  | _ => percent ["00", "01", "10", "11"] others

def ionqProviderClient : StubClient where
  expectedDistribution := shapes [45, 25, 18, 12] [48, 19, 19, 14] [66, 17, 11, 6] [60, 20, 12, 8]
  maxShots := 100000
  fidelity := ⟨93 / 100, 5 / 100⟩
  latencyUs := ⟨85, 180⟩
  backaction := ⟨11 / 100, 12 / 100⟩

/-- `not self.access_token` -/
def missing (token : Option String) : Bool := token.getD "" = ""

def azureQuantumStubClient (accessToken : Option String) (queueBusy : Bool) : StubClient where
  expectedDistribution := shapes [52, 18, 17, 13] [41, 21, 20, 18] [68, 18, 9, 5] [60, 22, 10, 8]
  maxShots := 500000
  fidelity := ⟨92 / 100, 5 / 100⟩
  latencyUs := ⟨140, 120⟩
  backaction := ⟨13 / 100, 10 / 100⟩
  refusal :=
    if missing accessToken then
      some (.provider "Azure Quantum credentials missing." .providerCredentials
        (some "Set SYNQC_AZURE_API_KEY to enable Azure Quantum runs."))
    else if queueBusy then
      some (.provider "Azure Quantum queue is currently busy." .providerQueueBackpressure
        (some "Wait for capacity or target a different backend."))
    else none

def rigettiForestStubClient (apiKey : Option String) (capacityExhausted : Bool) : StubClient where
  expectedDistribution := shapes [50, 20, 16, 14] [46, 18, 19, 17] [65, 16, 13, 6] [58, 24, 10, 8]
  maxShots := 100000
  fidelity := ⟨91 / 100, 5 / 100⟩
  latencyUs := ⟨60, 160⟩
  backaction := ⟨14 / 100, 9 / 100⟩
  refusal :=
    if missing apiKey then
      some (.provider "Rigetti Forest credentials missing." .providerCredentials
        (some "Set SYNQC_RIGETTI_API_KEY to enable Rigetti runs."))
    else if capacityExhausted then
      some (.provider "Rigetti Forest capacity exhausted for the selected region." .providerCapacity
        (some "Retry later or route to a simulator."))
    else none

/-- The stub client of a target. -/
inductive StubOf : HardwareTarget → StubClient → Prop
  | ionq : StubOf .ionqCloud ionqProviderClient
  | azure (accessToken : Option String) (queueBusy : Bool) :
      StubOf .azureQuantum (azureQuantumStubClient accessToken queueBusy)
  | rigetti (apiKey : Option String) (capacityExhausted : Bool) :
      StubOf .rigettiForest (rigettiForestStubClient apiKey capacityExhausted)

section Stubs
variable {target : HardwareTarget} {client : StubClient} {rngOf : ExperimentPreset → Int → Rng} {s : Settings} {w : World}
  {preset : ExperimentPreset} {shotBudget : Int} {kpis : KpiBundle}

theorem probabilities_of_entries {dist : Dict String ℚ} (hnonneg : ∀ e ∈ dist.entries, 0 ≤ e.2)
    (hsum : dist.values.sum = 1) :
    Probabilities dist :=
  ⟨fun k v hk => hnonneg (k, v) (Dict.mem_entries.mpr hk), hsum⟩

theorem shapes_probabilities {latency backendCompare helloQuantumSim others : List ℚ}
    (h : ∀ shares ∈ [latency, backendCompare, helloQuantumSim, others],
      Probabilities (percent ["00", "01", "10", "11"] shares)) (preset : ExperimentPreset) :
    Probabilities (shapes latency backendCompare helloQuantumSim others preset) := by
  cases preset <;> exact h _ (by simp)

/-- The distributions of the stubs are some. -/
theorem StubOf.probabilities (h : StubOf target client) (preset : ExperimentPreset) :
    Probabilities (client.expectedDistribution preset) := by
  cases h <;>
    refine shapes_probabilities (fun shares hshares => ?_) preset <;>
    fin_cases hshares <;>
    exact probabilities_of_entries (by decide +kernel) (by decide +kernel)

/-- Their cap is the one the registry has for the target. -/
theorem StubOf.maxShots_eq (h : StubOf target client) (s : Settings) :
    Providers.maxShots s target = some client.maxShots := by
  cases h <;> rfl

theorem StubOf.refuses (h : StubOf target client) {exc : Exc} (hrefusal : client.refusal = some exc) :
    ∃ message code hint detail, exc = .providerClientError message code hint detail := by
  have hprovider : ∀ (c₁ c₂ : Bool) (e₁ e₂ : Exc),
      (∃ message code hint detail, e₁ = .providerClientError message code hint detail) →
      (∃ message code hint detail, e₂ = .providerClientError message code hint detail) →
      (if c₁ then some e₁ else if c₂ then some e₂ else none) = some exc →
      ∃ message code hint detail, exc = .providerClientError message code hint detail := by
    intro c₁ c₂ e₁ e₂ h₁ h₂ heq
    split_ifs at heq
    · exact Option.some.inj heq ▸ h₁
    · exact Option.some.inj heq ▸ h₂
  cases h with
  | ionq => cases hrefusal
  | azure => exact hprovider _ _ _ _ ⟨_, _, _, _, rfl⟩ ⟨_, _, _, _, rfl⟩ hrefusal
  | rigetti => exact hprovider _ _ _ _ ⟨_, _, _, _, rfl⟩ ⟨_, _, _, _, rfl⟩ hrefusal

/-- A stub that does not refuse runs exactly the shots of a budget within its cap. -/
theorem stub_run (h : StubOf target client) (rngOf : ExperimentPreset → Int → Rng) (preset : ExperimentPreset)
    (hpos : 0 < shotBudget) (hcap : shotBudget ≤ client.maxShots) (hrefusal : client.refusal = none) :
    ∃ result, client.run rngOf preset shotBudget = .ok result ∧ result.reported = shotBudget ∧
      result.rawCounts.sum = shotBudget ∧
      result.expectedDistribution = some (client.expectedDistribution preset) ∧ result.fidelity.isSome := by
  obtain ⟨counts, hsample, hcounts, -⟩ :=
    sampleCounts_spec (h.probabilities preset) (max 1 (min shotBudget client.maxShots)) (rngOf preset shotBudget)
  have hshots : max 1 (min shotBudget client.maxShots) = shotBudget := by omega
  have hsum : counts.sum = shotBudget := by
    rw [hcounts, Engine.sampleCounts_sum, hshots]
    omega
  refine ⟨_, by rw [StubClient.run, hrefusal]; dsimp only; rw [hsample]; rfl, ?_, hsum, rfl, rfl⟩
  rw [ProviderLiveResult.reported]
  dsimp only
  rw [hshots, if_neg hpos.ne']

/-- A live run of a stub through the provider's shell: its refusal, or KPIs with exactly the shots of the budget. -/
theorem stub_runLive (h : StubOf target client) (rngOf : ExperimentPreset → Int → Rng) (w : World)
    (preset : ExperimentPreset) (hpos : 0 < shotBudget) (hcap : shotBudget ≤ client.maxShots) :
    (∀ exc, client.refusal = some exc →
        Engine.ProviderBackend.runLive w (client.run rngOf) preset shotBudget = .error exc) ∧
      (client.refusal = none → ∃ kpis counts,
        Engine.ProviderBackend.runLive w (client.run rngOf) preset shotBudget = .ok kpis ∧
          kpis.shotsUsed = shotBudget ∧ kpis.rawCounts = some counts ∧ counts.sum = shotBudget) := by
  constructor
  · intro exc hrefusal
    obtain ⟨message, code, hint, detail, rfl⟩ := h.refuses hrefusal
    rw [Engine.ProviderBackend.runLive, StubClient.run, hrefusal]
  · intro hrefusal
    obtain ⟨result, hrun, hreported, hsum, hexpected, hfidelity⟩ := stub_run h rngOf preset hpos hcap hrefusal
    obtain ⟨f, hf⟩ := Option.isSome_iff_exists.mp hfidelity
    have hmass : Engine.ProviderBackend.positiveMass (client.expectedDistribution preset) = true :=
      (positiveMass_iff _).mpr ⟨_, (h.probabilities preset).normalize⟩
    have haccepted : ¬(result.expectedDistribution.any fun dist =>
        dist.size ≠ 0 ∧ !Engine.ProviderBackend.positiveMass dist) = true := by
      rw [hexpected, Option.any_some, hmass]
      simp
    have hlive : Engine.ProviderBackend.runLive w (client.run rngOf) preset shotBudget = .ok {
        fidelity := some f
        latencyUs := some (result.latencyUs.getD w.latencyUs)
        backaction := some (result.backaction.getD w.backaction)
        rawCounts := some result.rawCounts
        shotsUsed := result.reported
        shotBudget := shotBudget
        status := Engine.ProviderBackend.statusOf (some f) (result.backaction.getD w.backaction) } := by
      rw [Engine.ProviderBackend.runLive, hrun]
      dsimp only
      rw [if_neg haccepted, hf]
    exact ⟨_, _, hlive, hreported, rfl, hsum⟩

/-- A vendor's target, as the registry has it. -/
def Remote (target : HardwareTarget) : Prop := target ≠ .simLocal ∧ ∀ id, target ≠ .unknown id

theorem StubOf.remote (h : StubOf target client) : Remote target := by
  cases h <;> exact ⟨fun heq => (by cases heq), fun id heq => by cases heq⟩

theorem registry_over {cap : Int} (hremote : Remote target) (s : Settings) (w : World) (preset : ExperimentPreset)
    (hmax : Providers.maxShots s target = some cap) (hover : cap < shotBudget) :
    ∃ message hint detail, Providers.runExperiment s w target preset shotBudget =
      .error (.providerClientError message .providerCapacity hint detail) := by
  have hfilter : (Providers.maxShots s target).filter (fun cap => cap < shotBudget) = some cap := by
    rw [hmax, Option.filter_some, if_pos (decide_eq_true hover)]
  exact ⟨_, _, _, by rw [Providers.runExperiment.eq_2 _ _ _ _ _ fun id heq => hremote.2 id heq, hfilter]⟩

/-- Within the cap the registry passes on what the shell returns. -/
theorem registry_within (hremote : Remote target) (s : Settings) (w : World) (preset : ExperimentPreset)
    (hcap : ∀ cap, Providers.maxShots s target = some cap → shotBudget ≤ cap) :
    (∀ kpis, Providers.runExperiment s w target preset shotBudget = .ok kpis ↔
        Engine.ProviderBackend.runExperiment s w preset shotBudget = .ok kpis) ∧
      ∀ message code hint detail,
        Engine.ProviderBackend.runExperiment s w preset shotBudget =
            .error (.providerClientError message code hint detail) →
          Providers.runExperiment s w target preset shotBudget =
            .error (.providerClientError message code hint detail) := by
  have hfilter : (Providers.maxShots s target).filter (fun cap => cap < shotBudget) = none := by
    cases hmax : Providers.maxShots s target with
    | none => rfl
    | some cap => rw [Option.filter_some, if_neg (by simpa using hcap cap hmax)]
  have hbackend : Providers.runBackend s w target preset shotBudget =
      Engine.ProviderBackend.runExperiment s w preset shotBudget := by
    cases target with
    | simLocal => exact absurd rfl hremote.1
    | _ => rfl
  rw [Providers.runExperiment.eq_2 _ _ _ _ _ fun id heq => hremote.2 id heq, hfilter, hbackend]
  constructor
  · intro kpis
    cases Engine.ProviderBackend.runExperiment s w preset shotBudget with
    | ok kpis' => exact Iff.rfl
    | error exc => cases exc <;> exact iff_of_false (fun heq => by cases heq) fun heq => by cases heq
  · intro message code hint detail herror
    rw [herror]

/-- A stub within its cap runs exactly its shots, or ends with its own refusal, or is simulated. -/
theorem stub_within (h : StubOf target client) (hlive : w.live = some (client.run rngOf)) (s : Settings)
    (preset : ExperimentPreset) (hpos : 0 < shotBudget) (hcap : shotBudget ≤ client.maxShots) :
    (client.refusal = none → ∃ kpis counts, Providers.runExperiment s w target preset shotBudget = .ok kpis ∧
        kpis.shotsUsed = shotBudget ∧ kpis.rawCounts = some counts ∧ counts.sum = shotBudget) ∧
      ∀ exc, client.refusal = some exc →
        (s.allowProviderSimulation = false → Providers.runExperiment s w target preset shotBudget = .error exc) ∧
        (s.allowProviderSimulation = true → ∀ kpis,
          Providers.runExperiment s w target preset shotBudget = .ok kpis → Within shotBudget kpis) := by
  have hcap' : ∀ cap, Providers.maxShots s target = some cap → shotBudget ≤ cap := fun cap hmax =>
    Option.some.inj ((h.maxShots_eq s).symm.trans hmax) ▸ hcap
  obtain ⟨hok, herror⟩ := registry_within h.remote s w preset hcap'
  obtain ⟨hrefused, hruns⟩ := stub_runLive h rngOf w preset hpos hcap
  constructor
  · intro hrefusal
    obtain ⟨kpis, counts, hrun, hshots, hcounts, hsum⟩ := hruns hrefusal
    refine ⟨kpis, counts, (hok kpis).mpr ?_, hshots, hcounts, hsum⟩
    rw [Engine.ProviderBackend.runExperiment, hlive]
    dsimp only
    rw [hrun]
  · intro exc hrefusal
    obtain ⟨message, code, hint, detail, rfl⟩ := h.refuses hrefusal
    have hrun := hrefused _ hrefusal
    constructor
    · intro hsimulation
      refine herror _ _ _ _ ?_
      rw [Engine.ProviderBackend.runExperiment, hlive]
      dsimp only
      rw [hrun]
      dsimp only
      rw [hsimulation]
      rfl
    · intro hsimulation kpis hkpis
      have hsimulated := (hok kpis).mp hkpis
      rw [Engine.ProviderBackend.runExperiment, hlive] at hsimulated
      dsimp only at hsimulated
      rw [hrun] at hsimulated
      dsimp only at hsimulated
      rw [if_pos hsimulation] at hsimulated
      exact Engine.ProviderBackend.simulate_within hpos hsimulated

/-- **A stub behind the registry runs what it is asked for.** A request over its cap is refused by the registry; one
within it runs exactly its shots, or ends with the stub's own refusal, or is simulated within its budget where the
deployment simulates. -/
theorem stub_runExperiment (h : StubOf target client) (hlive : w.live = some (client.run rngOf)) (s : Settings)
    (preset : ExperimentPreset) (hpos : 0 < shotBudget) :
    (client.maxShots < shotBudget → ∃ message hint detail, Providers.runExperiment s w target preset shotBudget =
        .error (.providerClientError message .providerCapacity hint detail)) ∧
      (shotBudget ≤ client.maxShots →
        (client.refusal = none → ∃ kpis counts, Providers.runExperiment s w target preset shotBudget = .ok kpis ∧
          kpis.shotsUsed = shotBudget ∧ kpis.rawCounts = some counts ∧ counts.sum = shotBudget) ∧
        ∀ exc, client.refusal = some exc →
          (s.allowProviderSimulation = false → Providers.runExperiment s w target preset shotBudget = .error exc) ∧
          (s.allowProviderSimulation = true → ∀ kpis,
            Providers.runExperiment s w target preset shotBudget = .ok kpis → Within shotBudget kpis)) :=
  ⟨registry_over h.remote s w preset (h.maxShots_eq s), stub_within h hlive s preset hpos⟩

end Stubs

/-- A hundred shots at IonQ, with a generator that draws nothing but nought. -/
theorem stub_runExperiment_ionq : ∃ kpis counts, Providers.runExperiment {} {
      pick := fun _ => 0
      fidelityOf := fun _ => .ok 1
      latencyUs := 0
      backaction := 0
      runGrover := fun _ => .error (.dependency "")
      live := some (ionqProviderClient.run fun _ _ => Rng.still) } .ionqCloud .health 100 = .ok kpis ∧
    kpis.shotsUsed = 100 ∧ kpis.rawCounts = some counts ∧ counts.sum = 100 :=
  ((stub_runExperiment .ionq rfl {} .health (by decide)).2 (by decide)).1 rfl

end SynQc.Engine.Simulation
