import SynQc.Engine.Admission
import SynQc.Engine.Run
import SynQc.Kpi.Percentile

/-! What a response carries beside its KPIs.

`run_experiment` attaches to a run a physics contract, a descriptor of each KPI, the provider's artifacts and a
workflow trace. All of it is computed from the run, and none of it can make the run fail (`response_sound`): the
bootstrap raises nothing but the `ValueError` that is caught. The control profile moves the KPIs a run reports, never
what was measured: the counts, the shots and the interval of the fidelity are the same under every profile
(`controls_only_steer`). -/
namespace SynQc.Engine.Response
open Kpi Admission Fallible

/-- A truth test on an optional dictionary. -/
def nonEmpty {α : Type} (d : Option (Dict String α)) : Option (Dict String α) := d.filter fun d => d.size ≠ 0

/-! ### The physics contract -/

inductive PlantKind where
  | quantumDevice
  | simulator
  | unknown
  deriving DecidableEq, Repr

inductive StateModel where
  | statevector
  | densityMatrix
  | hardwareUnknown
  | unknown
  deriving DecidableEq, Repr

inductive MeasurementModel where
  | projective
  | povm
  | unknown
  deriving DecidableEq, Repr

inductive NoiseModel where
  | ideal
  | channel
  | lindblad
  | hardwareEmpirical
  | unknown
  deriving DecidableEq, Repr

/-- `PhysicsContract` with the specs it is made of. -/
structure PhysicsContract where
  plantKind : PlantKind
  plantTarget : String
  backendId : Option String
  stateModel : StateModel
  nQubits : Option Int
  hilbertDim : Option Int
  measurementModel : MeasurementModel
  basis : Option String
  sampling : SamplingSpec
  noiseModel : NoiseModel
  assumptions : List String

/-- `word in text` -/
def mentions (text word : String) : Bool := decide (word.toList <:+: text.toList)

structure Plant where
  kind : PlantKind
  state : StateModel
  noise : NoiseModel
  assumptions : List String

/-- What the name of a target says about the plant behind it. -/
def plantOf (target : String) : Plant :=
  let t := (if target = "" then "unknown" else target).toLower
  if mentions t "sim" || mentions t "local" then
    ⟨.simulator, .statevector, .ideal,
      ["SIMULATOR_IDEAL_UNLESS_DECLARED", "MEASUREMENT_PROJECTIVE_UNLESS_DECLARED"]⟩
  else if mentions t "ibm" || mentions t "ionq" || mentions t "rigetti" || mentions t "braket" ||
      mentions t "azure" then
    ⟨.quantumDevice, .hardwareUnknown, .hardwareEmpirical,
      ["HARDWARE_STATE_UNOBSERVED", "READOUT_ERROR_UNMODELED_UNLESS_DECLARED"]⟩
  else ⟨.unknown, .unknown, .unknown, ["UNSPECIFIED_TARGET"]⟩

def inferContract (target : String) (shotsRequested shotsExecuted : Int) (nQubits : Option Int)
    (backendId basis : Option String) : Except Exc PhysicsContract := do
  let plant := plantOf target
  let sampling ← SamplingSpec.build shotsRequested shotsExecuted
  return {
    plantKind := plant.kind
    plantTarget := target
    backendId := backendId
    stateModel := plant.state
    nQubits := nQubits
    hilbertDim := (nQubits.filter (· ≠ 0)).map fun n => 2 ^ n.toNat
    measurementModel := if (basis.getD "") = "" then .unknown else .projective
    basis := basis
    sampling := sampling
    noiseModel := plant.noise
    assumptions := plant.assumptions }

/-! ### The descriptors of the KPIs -/

structure KpiDefinition where
  name : String
  kind : String
  unit : String
  simulatorOnly : Bool

/-- `KPI_DEFINITIONS` -/
def kpiDefinitions : Dict String KpiDefinition :=
  (((Dict.empty.set "fidelity_dist_v1" ⟨"fidelity", "distribution", "unitless", false⟩).set
    "latency_us_v1" ⟨"latency_us", "system", "us", false⟩).set
    "backaction_proxy_v1" ⟨"backaction", "proxy", "unitless", true⟩).set
    "unknown_kpi_v1" ⟨"unknown_metric", "system", "arbitrary", false⟩

def kpiDefinitionIdForName (kpiName : String) : String :=
  let n := kpiName.toLower
  if mentions n "fidelity" then "fidelity_dist_v1"
  else if mentions n "latency" then "latency_us_v1"
  else if mentions n "backaction" then "backaction_proxy_v1"
  else "unknown_kpi_v1"

/-- `KpiDetail`; `ci_95` and `definition_ref` repeat `ci95` and `definition_id`. -/
structure KpiDetail where
  name : String
  value : ℚ
  definitionId : String
  kind : String
  units : Option String
  ci95 : Option (ℝ × ℝ)

/-- An entry of `kpi_map`. -/
structure KpiEntry where
  name : String
  value : Option ℚ
  units : Option String
  kind : String

def kpiMap (kpis : KpiBundle) : List KpiEntry :=
  [⟨"fidelity", kpis.fidelity, none, "estimate"⟩,
   ⟨"latency_us", kpis.latencyUs, some "microseconds", "latency"⟩,
   ⟨"backaction", kpis.backaction, none, "estimate"⟩]

/-- The interval of the fidelity; where the inputs are degenerate there is none. -/
noncomputable def interval (choices : Choices) (rawCounts : Option Counts) (expected : Option (Dict String ℚ)) :
    Except Exc (Option (ℝ × ℝ)) :=
  match nonEmpty rawCounts, nonEmpty expected with
  | some counts, some q =>
    match fidelityDistCi95FromCounts choices counts (asReal q) 200 0 with
    | .ok ci => .ok (some ci)
    | .error (.valueError _) => .ok none
    | .error exc => .error exc
  | _, _ => .ok none

noncomputable def kpiDetail (choices : Choices) (rawCounts : Option Counts) (expected : Option (Dict String ℚ))
    (entry : KpiEntry) (value : ℚ) : Except Exc KpiDetail := do
  let definitionId := kpiDefinitionIdForName entry.name
  let ci95 ← if definitionId = "fidelity_dist_v1" then interval choices rawCounts expected else .ok none
  return ⟨entry.name, value, definitionId, entry.kind, entry.units, ci95⟩

/-- The loop over `kpi_map`. -/
noncomputable def addDetail (choices : Choices) (rawCounts : Option Counts) (expected : Option (Dict String ℚ))
    (kpiDetails : List KpiDetail) (entry : KpiEntry) : Except Exc (List KpiDetail) :=
  match entry.value with
  | none => .ok kpiDetails
  | some value => do
    let detail ← kpiDetail choices rawCounts expected entry value
    return kpiDetails ++ [detail]

noncomputable def buildKpiDetails (choices : Choices) (kpis : KpiBundle) (expected : Option (Dict String ℚ)) :
    Except Exc (List KpiDetail) :=
  (kpiMap kpis).foldlM (addDetail choices kpis.rawCounts expected) []

/-! ### The workflow trace -/

/-- `round(x)`: ties go to the even neighbour. -/
def roundHalfEven (x : ℚ) : ℤ :=
  let n := ⌊x⌋
  let rest := x - n
  if rest < 1 / 2 then n
  else if 1 / 2 < rest then n + 1
  else if n % 2 = 0 then n else n + 1

/-- `f"{x:.{digits}f}"` -/
def fixed (digits : ℕ) (x : ℚ) : String :=
  let scaled := (roundHalfEven (|x| * 10 ^ digits)).toNat
  let fraction := toString (scaled % 10 ^ digits)
  (if x < 0 then "-" else "") ++ toString (scaled / 10 ^ digits) ++ "." ++
    String.ofList (List.replicate (digits - fraction.length) '0') ++ fraction

structure WorkflowStep where
  id : String
  label : String
  description : String
  percentComplete : ℕ
  dwellMs : ℕ

/-- `preset.value` -/
def presetValue : ExperimentPreset → String
  | .helloQuantumSim => "hello_quantum_sim"
  | .health => "health"
  | .latency => "latency"
  | .backendCompare => "backend_compare"
  | .dpdDemo => "dpd_demo"
  | .groverDemo => "grover_demo"
  | .multicallDualClocking => "multicall_dual_clocking"

/-- `final_note.strip()` -/
def finalNote (kpis : KpiBundle) : String :=
  " ".intercalate (
    (kpis.fidelity.map fun f => "Fidelity ≈ " ++ fixed 3 f ++ ".").toList ++
    (kpis.latencyUs.map fun l => "Latency ≈ " ++ fixed 1 l ++ " µs.").toList ++
    (kpis.backaction.map fun b => "Backaction " ++ fixed 2 b ++ ".").toList)

def buildWorkflowTrace (req : RunExperimentRequest) (kpis : KpiBundle) (controls : ControlProfile) :
    List WorkflowStep :=
  let hardware := targetId req.hardwareTarget
  let preset := (presetValue req.preset).map fun c => if c = '_' then ' ' else c
  [⟨"ingest", "Ingest", "Budget + calibrations locked for " ++ hardware ++ " (" ++ preset ++ ").", 12, 420⟩,
   ⟨"shape", "Drive shaping",
    "Synthesizing composite drive envelope with bias=" ++ fixed 2 controls.driveBias ++ " and clamp=" ++
      toString controls.safetyClampNs ++ " ns.", 28, 520⟩,
   ⟨"probe", "Probe readout",
    "Mid-circuit probe window set to " ++ toString controls.probeWindowNs ++ " ns with feedback gain " ++
      fixed 2 controls.feedbackGain ++ ".", 44, 560⟩,
   ⟨"adapt", "Adaptive drive",
    "Routing probe residuals into drive/feedback synthesis for stabilization.", 63, 520⟩,
   ⟨"infer", "Inference", "Neural estimator aggregates traces to derive fidelity/latency envelope.", 82, 600⟩,
   ⟨"commit", "Commit",
    if finalNote kpis = "" then "Results recorded; waiting for downstream consumers." else finalNote kpis, 100, 700⟩]

/-! ### The run -/

/-- What the provider returned beside its KPIs. -/
structure Provided where
  expectedDistribution : Option (Dict String ℚ)
  /-- `backend_name` of a live client -/
  backendName : Option String

structure Artifacts where
  rawCounts : Option Counts
  expectedDistribution : Option (Dict String ℚ)
  providerBackend : Option String

/-- The artifacts of `providers.run_experiment`; without any there is no dictionary. -/
def artifactsOf (provided : Provided) (rawCounts : Option Counts) : Option Artifacts :=
  let artifacts : Artifacts :=
    ⟨nonEmpty rawCounts, nonEmpty provided.expectedDistribution, provided.backendName.filter (· ≠ "")⟩
  if artifacts.rawCounts.isSome ∨ artifacts.expectedDistribution.isSome ∨ artifacts.providerBackend.isSome then
    some artifacts
  else none

/-- What a response carries beside the fields that other functions read back; the descriptors of measurement and
noise repeat the contract's models, the observations repeat the details. -/
structure Attached where
  measurement : MeasurementModel × Option String
  noise : NoiseModel
  assumptions : List String
  physicsContract : PhysicsContract
  kpiDetails : Option (List KpiDetail)
  artifacts : Option Artifacts
  workflowTrace : List WorkflowStep

/-- `Engine.execute` with everything the response carries. -/
noncomputable def execute (s : Settings) (i : RunInputs) (req : RunExperimentRequest) (runId : Option RunId)
    (extra : Provided) (choices : Choices) (effective : Int × Bool) :
    Except Exc (RunExperimentResponse × Attached) := do
  let shotBudget := effective.1
  let controls := req.controlOverrides.getD i.controls
  let provided ← Providers.runExperiment s i.world req.hardwareTarget req.preset shotBudget
  let qubitsUsed := estimateQubitsUsed s req (applyControlProfile provided controls) shotBudget i.jitter
  let kpis := finalKpis i controls effective provided
  let contract ←
    inferContract (targetId req.hardwareTarget) shotBudget kpis.shotsUsed (some qubitsUsed) none (some "Z")
  let kpiDetails ← buildKpiDetails choices kpis extra.expectedDistribution
  return (
    { id := runId.getD i.uuid
      preset := req.preset
      hardwareTarget := req.hardwareTarget
      kpis := kpis
      createdAt := i.finish
      shots := some { requested := some shotBudget, executed := some kpis.shotsUsed }
      sampling := some contract.sampling
      qubitsUsed := qubitsUsed
      notes := req.notes
      controlProfile := some controls },
    { measurement := (contract.measurementModel, contract.basis)
      noise := contract.noiseModel
      assumptions := contract.assumptions
      physicsContract := contract
      kpiDetails := if kpiDetails.isEmpty then none else some kpiDetails
      artifacts := artifactsOf extra provided.rawCounts
      workflowTrace := buildWorkflowTrace req kpis controls })

noncomputable def runExperiment (s : Settings) (i : RunInputs) (req : RunExperimentRequest) (runId : Option RunId)
    (extra : Provided) (choices : Choices) : Except Exc (RunExperimentResponse × Attached) := do
  let effective ← applyShotGuardrails s i req
  execute s i req runId extra choices effective

/-! ### The interval -/

def IsValueError (exc : Exc) : Prop := ∃ message, exc = .valueError message

theorem raises_valueError {α : Type} (message : String) :
    Raises IsValueError (.error (.valueError message) : Except Exc α) :=
  Raises.error ⟨message, rfl⟩

section Interval
variable {choices : Choices} {counts : Counts}

theorem distributionFromCounts_raises (support : Option (List String)) :
    Raises IsValueError (distributionFromCounts counts support) := by
  unfold distributionFromCounts
  split
  · exact raises_valueError _
  · split
    · exact raises_valueError _
    · exact Raises.ok _

theorem addOverlap_raises (p q : Dict String ℝ) (k : String) (sum : ℝ) :
    Raises IsValueError (addOverlap p q sum k) := by
  unfold addOverlap
  split
  · exact raises_valueError _
  · exact Raises.ok _

theorem distributionFidelity_raises (p q : Dict String ℝ) : Raises IsValueError (distributionFidelity p q) := by
  refine Raises.bind ?_ fun _ _ => Raises.ok _
  unfold overlapSum
  split
  · exact raises_valueError _
  · exact Raises.foldlM fun k _ sum => addOverlap_raises p q k sum

theorem fidelityDistFromCounts_raises (q : Dict String ℝ) : Raises IsValueError (fidelityDistFromCounts counts q) :=
  (distributionFromCounts_raises _).bind fun pHat _ => distributionFidelity_raises pHat q

theorem multinomialResample_raises (n : Option ℤ) (seed : ℤ) :
    Raises IsValueError (multinomialResample choices counts n seed) := by
  refine Raises.bind ?_ fun normal _ => ?_
  · unfold normalizeCounts
    split
    · exact raises_valueError _
    · split
      · exact raises_valueError _
      · exact Raises.ok _
  · obtain ⟨outcomes, probs, total⟩ := normal
    dsimp only
    split
    · exact raises_valueError _
    · exact Raises.ok _

/-- The bootstrap of the fidelity has samples to rank, so that all it raises is a `ValueError`. -/
theorem fidelityDistCi95_raises (choices : Choices) (counts : Counts) (q : Dict String ℝ) :
    Raises IsValueError (fidelityDistCi95FromCounts choices counts q 200 0) := by
  rw [fidelityDistCi95FromCounts, bootstrapCi, if_neg (by norm_num)]
  refine Raises.bind ?_ fun samples hsamples => ?_
  · exact Raises.mapM fun i _ => (multinomialResample_raises none _).bind fun res _ => fidelityDistFromCounts_raises q
  · have hlength : samples.length = 200 := by
      rw [(mapM_spec hsamples).1, List.length_range]
      rfl
    have hne : samples ≠ [] := by
      rintro rfl
      cases hlength
    have h0 : (0 : ℚ) ≤ 1 / 20 := by norm_num
    have h1 : (1 / 20 : ℚ) ≤ 1 := by norm_num
    obtain ⟨lo, hi, hci, -⟩ := exists_percentileCi hne h0 h1
    rw [hci]
    exact Raises.ok _

/-- There is an interval, of fidelities, or none; but no error. -/
theorem interval_spec (choices : Choices) (rawCounts : Option Counts) (expected : Option (Dict String ℚ)) :
    ∃ ci95, interval choices rawCounts expected = .ok ci95 ∧
      ∀ ci, ci95 = some ci → 0 ≤ ci.1 ∧ ci.1 ≤ ci.2 ∧ ci.2 ≤ 1 := by
  unfold interval
  split
  · rename_i counts q _ _
    have hraises := fidelityDistCi95_raises choices counts (asReal q)
    split
    · rename_i ci hci
      refine ⟨some ci, rfl, ?_⟩
      rintro _ ⟨rfl⟩
      exact fidelityDistCi95_range hci
    · exact ⟨none, rfl, fun ci h => absurd h.symm (Option.some_ne_none ci)⟩
    · rename_i exc hother hexc
      obtain ⟨message, rfl⟩ := hraises exc hexc
      exact absurd rfl (hother message)
  · exact ⟨none, rfl, fun ci h => absurd h.symm (Option.some_ne_none ci)⟩

end Interval

/-! ### The details -/

/-- The detail of an entry, when this is the interval of the fidelity. -/
noncomputable def detailWith (ci95 : Option (ℝ × ℝ)) (entry : KpiEntry) (value : ℚ) : KpiDetail :=
  let definitionId := kpiDefinitionIdForName entry.name
  ⟨entry.name, value, definitionId, entry.kind, entry.units,
    if definitionId = "fidelity_dist_v1" then ci95 else none⟩

noncomputable def detailsWith (ci95 : Option (ℝ × ℝ)) (entries : List KpiEntry) : List KpiDetail :=
  entries.filterMap fun entry => entry.value.map (detailWith ci95 entry)

section Details
variable {choices : Choices} {rawCounts : Option Counts} {expected : Option (Dict String ℚ)}
  {ci95 : Option (ℝ × ℝ)}

theorem kpiDetail_eq (h : interval choices rawCounts expected = .ok ci95) (entry : KpiEntry) (value : ℚ) :
    kpiDetail choices rawCounts expected entry value = .ok (detailWith ci95 entry value) := by
  rw [kpiDetail, detailWith, h]
  dsimp only
  split_ifs <;> rfl

theorem addDetail_eq (h : interval choices rawCounts expected = .ok ci95) (kpiDetails : List KpiDetail)
    (entry : KpiEntry) :
    addDetail choices rawCounts expected kpiDetails entry =
      .ok (kpiDetails ++ (entry.value.map (detailWith ci95 entry)).toList) := by
  rw [addDetail]
  cases entry.value with
  | none => rw [Option.map_none, Option.toList_none, List.append_nil]
  | some value =>
    simp only [kpiDetail_eq h]
    rfl

theorem foldlM_addDetail (h : interval choices rawCounts expected = .ok ci95) (kpiDetails : List KpiDetail)
    (entries : List KpiEntry) :
    entries.foldlM (addDetail choices rawCounts expected) kpiDetails =
      .ok (kpiDetails ++ detailsWith ci95 entries) := by
  induction entries generalizing kpiDetails with
  | nil => rw [detailsWith, List.filterMap_nil, List.append_nil]; rfl
  | cons entry entries ih =>
    rw [List.foldlM_cons, addDetail_eq h]
    refine (ih _).trans ?_
    rw [detailsWith, detailsWith, List.filterMap_cons, List.append_assoc]
    cases entry.value <;> rfl

/-- The details of a run are those of its KPIs, the one of the fidelity with the interval. -/
theorem buildKpiDetails_eq {kpis : KpiBundle} (h : interval choices kpis.rawCounts expected = .ok ci95) :
    buildKpiDetails choices kpis expected = .ok (detailsWith ci95 (kpiMap kpis)) :=
  foldlM_addDetail h [] (kpiMap kpis)

end Details

/-! ### The estimate of the qubits -/

theorem presetScale_ge (preset : ExperimentPreset) : 45 / 100 ≤ presetScale preset := by
  cases preset <;> norm_num [presetScale]

theorem qubitBounds_span (target : HardwareTarget) :
    1 ≤ (qubitBounds target).1 ∧ (qubitBounds target).1 + 12 ≤ (qubitBounds target).2 := by
  unfold qubitBounds
  split <;> decide

/-- Whatever is drawn, the estimate stays within the bounds of the target. -/
theorem estimateQubitsUsed_range (s : Settings) (req : RunExperimentRequest) (kpis : KpiBundle)
    {shotBudget jitter : Int} (hshots : 0 < shotBudget) (hjitter : -2 ≤ jitter ∧ jitter ≤ 3) :
    (qubitBounds req.hardwareTarget).1 < estimateQubitsUsed s req kpis shotBudget jitter ∧
      estimateQubitsUsed s req kpis shotBudget jitter ≤ (qubitBounds req.hardwareTarget).2 := by
  obtain ⟨hmin, hspan⟩ := qubitBounds_span req.hardwareTarget
  unfold estimateQubitsUsed
  generalize qubitBounds req.hardwareTarget = bounds at hmin hspan ⊢
  obtain ⟨minQ, maxQ⟩ := bounds
  dsimp only at hmin hspan ⊢
  have hpreset := presetScale_ge req.preset
  have hbackaction : 0 ≤ min 1 (max 0 (kpis.backaction.getD (2 / 10) / (6 / 10))) :=
    le_min zero_le_one (le_max_left _ _)
  have hcap : (0 : ℚ) ≤ (max 1 s.maxShotsPerExperiment : Int) := by
    exact_mod_cast zero_le_one.trans (le_max_left 1 s.maxShotsPerExperiment)
  have hscale : 0 ≤ min 1 ((shotBudget : ℚ) / (max 1 s.maxShotsPerExperiment : Int)) :=
    le_min zero_le_one (div_nonneg (by exact_mod_cast hshots.le) hcap)
  generalize min 1 (max 0 (kpis.backaction.getD (2 / 10) / (6 / 10))) = backactionScale at hbackaction ⊢
  generalize min 1 ((shotBudget : ℚ) / (max 1 s.maxShotsPerExperiment : Int)) = shotScale at hscale ⊢
  have hspan' : (12 : ℚ) ≤ (maxQ - minQ : Int) := by
    exact_mod_cast le_sub_iff_add_le'.mpr hspan
  -- half of the narrowest span is more than the jitter takes
  have hfloor : 3 ≤ Rat.floor ((maxQ - minQ : Int) * (35 / 100 + presetScale req.preset * (35 / 100) +
      backactionScale * (2 / 10) + shotScale * (1 / 10))) := by
    refine Rat.le_floor_iff.mpr ?_
    push_cast at hspan' ⊢
    nlinarith
  omega

/-! ### Runs -/

section Runs
variable {s : Settings} {i : RunInputs} {req : RunExperimentRequest} {runId : Option RunId} {extra : Provided}
  {choices : Choices} {effective : Int × Bool}

theorem finalKpis_rawCounts (controls : ControlProfile) (kpis : KpiBundle) :
    (finalKpis i controls effective kpis).rawCounts = kpis.rawCounts := by
  unfold finalKpis warn
  split <;> rfl

theorem finalKpis_fidelity (controls : ControlProfile) (kpis : KpiBundle) :
    (finalKpis i controls effective kpis).fidelity = (applyControlProfile kpis controls).fidelity := by
  unfold finalKpis warn
  split <;> rfl

theorem finalKpis_backaction (controls : ControlProfile) (kpis : KpiBundle) :
    (finalKpis i controls effective kpis).backaction = (applyControlProfile kpis controls).backaction := by
  unfold finalKpis warn
  split <;> rfl

theorem finalKpis_latencyUs (controls : ControlProfile) (kpis : KpiBundle) :
    (finalKpis i controls effective kpis).latencyUs =
      some ((applyControlProfile kpis controls).latencyUs.getD ((i.finish - i.start) * 1000000)) := by
  unfold finalKpis warn
  split <;> rfl

theorem clamp_range {x : ℚ} : 0 ≤ max 0 (min 1 x) ∧ max 0 (min 1 x) ≤ 1 :=
  ⟨le_max_left _ _, max_le zero_le_one (min_le_left _ _)⟩

theorem inferContract_eq (target : String) (requested executed : Int) (nQubits : Option Int)
    (backendId basis : Option String) :
    inferContract target requested executed nQubits backendId basis =
      (SamplingSpec.build requested executed).map fun sampling =>
        { plantKind := (plantOf target).kind
          plantTarget := target
          backendId := backendId
          stateModel := (plantOf target).state
          nQubits := nQubits
          hilbertDim := (nQubits.filter (· ≠ 0)).map fun n => 2 ^ n.toNat
          measurementModel := if (basis.getD "") = "" then .unknown else .projective
          basis := basis
          sampling := sampling
          noiseModel := (plantOf target).noise
          assumptions := (plantOf target).assumptions } := by
  rw [inferContract]
  cases SamplingSpec.build requested executed <;> rfl

theorem build_shots {requested executed : Int} {sampling : SamplingSpec}
    (h : SamplingSpec.build requested executed = .ok sampling) :
    sampling.shotsRequested = requested ∧ sampling.shotsExecuted = executed := by
  unfold SamplingSpec.build at h
  split_ifs at h
  cases h
  exact ⟨rfl, rfl⟩

/-- Without what is attached, a run is the engine's. -/
theorem execute_fst :
    (execute s i req runId extra choices effective).map Prod.fst = Engine.execute s i req runId effective := by
  unfold execute Engine.execute
  dsimp only
  cases Providers.runExperiment s i.world req.hardwareTarget req.preset effective.1 with
  | error exc => rfl
  | ok provided =>
    obtain ⟨ci95, hci, -⟩ := interval_spec choices provided.rawCounts extra.expectedDistribution
    dsimp only [bind, Except.bind]
    rw [inferContract_eq, buildKpiDetails_eq (by rw [finalKpis_rawCounts]; exact hci)]
    cases SamplingSpec.build effective.1
      (finalKpis i (req.controlOverrides.getD i.controls) effective provided).shotsUsed <;> rfl

theorem runExperiment_fst :
    (runExperiment s i req runId extra choices).map Prod.fst = Engine.runExperiment s i req runId := by
  unfold runExperiment Engine.runExperiment
  cases applyShotGuardrails s i req with
  | error exc => rfl
  | ok effective => exact execute_fst

/-- The KPIs a run has, by name. -/
def reported (kpis : KpiBundle) : List (String × ℚ) :=
  (kpiMap kpis).filterMap fun entry => entry.value.map fun value => (entry.name, value)

/-- Everything a response says hangs together. -/
structure Sound (i : RunInputs) (req : RunExperimentRequest) (run : RunExperimentResponse) (attached : Attached) :
    Prop where
  fidelity : ∀ f, run.kpis.fidelity = some f → 0 ≤ f ∧ f ≤ 1
  backaction : ∀ b, run.kpis.backaction = some b → 0 ≤ b ∧ b ≤ 1
  latency : ∃ l, run.kpis.latencyUs = some l ∧ (1 ≤ l ∨ l = (i.finish - i.start) * 1000000)
  qubits : (qubitBounds req.hardwareTarget).1 < run.qubitsUsed ∧ run.qubitsUsed ≤ (qubitBounds req.hardwareTarget).2
  /-- The contract is about the target of the request, and a simulator only where this is one. -/
  plant : attached.physicsContract.plantTarget = targetId req.hardwareTarget ∧
    attached.physicsContract.plantKind = if req.hardwareTarget = .simLocal then .simulator else .quantumDevice
  shots : run.sampling = some attached.physicsContract.sampling ∧
    run.shots = some ⟨some attached.physicsContract.sampling.shotsRequested,
      some attached.physicsContract.sampling.shotsExecuted⟩
  dimension : attached.physicsContract.nQubits = some run.qubitsUsed ∧
    attached.physicsContract.hilbertDim = some (2 ^ run.qubitsUsed.toNat)
  details : ∃ details, attached.kpiDetails = some details ∧
    details.map (fun d => (d.name, d.value)) = reported run.kpis ∧
    -- each cites the definition of its KPI, and only the fidelity has an interval
    ∀ d ∈ details, (kpiDefinitions.get? d.definitionId).map KpiDefinition.name = some d.name ∧
      ∀ ci, d.ci95 = some ci → d.name = "fidelity" ∧ 0 ≤ ci.1 ∧ ci.1 ≤ ci.2 ∧ ci.2 ≤ 1
  trace : (attached.workflowTrace.map WorkflowStep.percentComplete).Pairwise (· < ·) ∧
    (attached.workflowTrace.map WorkflowStep.percentComplete).getLast? = some 100

theorem known_of_ok {target : HardwareTarget} {preset : ExperimentPreset} {shotBudget : Int} {kpis : KpiBundle}
    (h : Providers.runExperiment s i.world target preset shotBudget = .ok kpis) : ∀ id, target ≠ .unknown id := by
  rintro id rfl
  cases h

theorem plantOf_kind {target : HardwareTarget} (h : ∀ id, target ≠ .unknown id) :
    (plantOf (targetId target)).kind = if target = .simLocal then .simulator else .quantumDevice := by
  cases target with
  | unknown id => exact absurd rfl (h id)
  | _ => decide +kernel

theorem definition_of_name : ∀ name ∈ ["fidelity", "latency_us", "backaction"],
    (kpiDefinitions.get? (kpiDefinitionIdForName name)).map KpiDefinition.name = some name ∧
      (kpiDefinitionIdForName name = "fidelity_dist_v1" → name = "fidelity") := by
  decide +kernel

theorem definition_of_entry (kpis : KpiBundle) :
    ∀ entry ∈ kpiMap kpis, (kpiDefinitions.get? (kpiDefinitionIdForName entry.name)).map KpiDefinition.name =
        some entry.name ∧
      (kpiDefinitionIdForName entry.name = "fidelity_dist_v1" → entry.name = "fidelity") := by
  intro entry hentry
  exact definition_of_name entry.name (List.mem_map.mpr ⟨entry, hentry, rfl⟩)

theorem detailsWith_reported (ci95 : Option (ℝ × ℝ)) (kpis : KpiBundle) :
    (detailsWith ci95 (kpiMap kpis)).map (fun d => (d.name, d.value)) = reported kpis := by
  rw [detailsWith, reported, List.map_filterMap]
  refine List.filterMap_congr fun entry _ => ?_
  cases entry.value <;> rfl

theorem detailsWith_cited {ci95 : Option (ℝ × ℝ)}
    (hci : ∀ ci, ci95 = some ci → 0 ≤ ci.1 ∧ ci.1 ≤ ci.2 ∧ ci.2 ≤ 1) (kpis : KpiBundle) :
    ∀ d ∈ detailsWith ci95 (kpiMap kpis),
      (kpiDefinitions.get? d.definitionId).map KpiDefinition.name = some d.name ∧
        ∀ ci, d.ci95 = some ci → d.name = "fidelity" ∧ 0 ≤ ci.1 ∧ ci.1 ≤ ci.2 ∧ ci.2 ≤ 1 := by
  intro d hd
  obtain ⟨entry, hentry, hvalue⟩ := List.mem_filterMap.mp hd
  obtain ⟨value, -, rfl⟩ := Option.map_eq_some_iff.mp hvalue
  obtain ⟨hdefinition, hfidelity⟩ := definition_of_entry kpis entry hentry
  refine ⟨hdefinition, fun ci h => ?_⟩
  unfold detailWith at h
  dsimp only at h
  split at h
  · rename_i hid
    exact ⟨hfidelity hid, hci ci h⟩
  · cases h

/-- There is a latency to describe. -/
theorem details_some (ci95 : Option (ℝ × ℝ)) {kpis : KpiBundle} {l : ℚ} (h : kpis.latencyUs = some l) :
    (if (detailsWith ci95 (kpiMap kpis)).isEmpty then none else some (detailsWith ci95 (kpiMap kpis))) =
      some (detailsWith ci95 (kpiMap kpis)) := by
  refine if_neg ?_
  have hmem : detailWith ci95 ⟨"latency_us", kpis.latencyUs, some "microseconds", "latency"⟩ l ∈
      detailsWith ci95 (kpiMap kpis) := by
    refine List.mem_filterMap.mpr ⟨⟨"latency_us", kpis.latencyUs, some "microseconds", "latency"⟩, ?_, ?_⟩
    · exact List.mem_cons_of_mem _ List.mem_cons_self
    · rw [h, Option.map_some]
  rw [List.isEmpty_iff]
  exact List.ne_nil_of_mem hmem

theorem trace_spec (req : RunExperimentRequest) (kpis : KpiBundle) (controls : ControlProfile) :
    ((buildWorkflowTrace req kpis controls).map WorkflowStep.percentComplete).Pairwise (· < ·) ∧
      ((buildWorkflowTrace req kpis controls).map WorkflowStep.percentComplete).getLast? = some 100 := by
  have hpercent : (buildWorkflowTrace req kpis controls).map WorkflowStep.percentComplete =
      [12, 28, 44, 63, 82, 100] := rfl
  rw [hpercent]
  decide

theorem execute_sound (hpos : 0 < effective.1) (hjitter : -2 ≤ i.jitter ∧ i.jitter ≤ 3)
    {run : RunExperimentResponse} {attached : Attached}
    (h : execute s i req runId extra choices effective = .ok (run, attached)) :
    Sound i req run attached := by
  unfold execute at h
  obtain ⟨provided, hprovided, h⟩ := bind_eq_ok.mp h
  obtain ⟨contract, hcontract, h⟩ := bind_eq_ok.mp h
  obtain ⟨details, hdetails, h⟩ := bind_eq_ok.mp h
  obtain ⟨rfl, rfl⟩ := Prod.mk.inj (Except.ok.inj h)
  obtain ⟨ci95, hci, hrange⟩ := interval_spec choices provided.rawCounts extra.expectedDistribution
  rw [buildKpiDetails_eq (by rw [finalKpis_rawCounts]; exact hci)] at hdetails
  obtain rfl := Except.ok.inj hdetails
  rw [inferContract_eq] at hcontract
  cases hbuild : SamplingSpec.build effective.1
      (finalKpis i (req.controlOverrides.getD i.controls) effective provided).shotsUsed with
  | error exc =>
    rw [hbuild] at hcontract
    cases hcontract
  | ok sampling =>
    rw [hbuild] at hcontract
    obtain rfl := Except.ok.inj hcontract
    obtain ⟨hrequested, hexecuted⟩ := build_shots hbuild
    have hqubits := estimateQubitsUsed_range s req
      (applyControlProfile provided (req.controlOverrides.getD i.controls)) hpos hjitter
    have hmin := (qubitBounds_span req.hardwareTarget).1
    constructor
    case fidelity =>
      intro f hf
      rw [finalKpis_fidelity] at hf
      obtain ⟨x, -, rfl⟩ := Option.map_eq_some_iff.mp hf
      exact clamp_range
    case backaction =>
      intro b hb
      rw [finalKpis_backaction] at hb
      obtain ⟨x, -, rfl⟩ := Option.map_eq_some_iff.mp hb
      exact clamp_range
    case latency =>
      refine ⟨_, finalKpis_latencyUs _ _, ?_⟩
      unfold applyControlProfile
      cases provided.latencyUs with
      | none => exact .inr rfl
      | some l => exact .inl (le_max_left _ _)
    case qubits => exact hqubits
    case plant => exact ⟨rfl, plantOf_kind (known_of_ok hprovided)⟩
    case shots =>
      refine ⟨rfl, ?_⟩
      rw [hrequested, hexecuted]
    case dimension =>
      refine ⟨rfl, ?_⟩
      have hne : estimateQubitsUsed s req (applyControlProfile provided (req.controlOverrides.getD i.controls))
          effective.1 i.jitter ≠ 0 := by omega
      dsimp only
      rw [Option.filter_some, if_pos (decide_eq_true hne)]
      rfl
    case details =>
      refine ⟨_, details_some ci95 (finalKpis_latencyUs _ _), detailsWith_reported ci95 _, ?_⟩
      exact detailsWith_cited hrange _
    case trace => exact trace_spec _ _ _

/-- **What a response carries is sound**: computing it never makes a run fail, for it raises nothing that is not
caught, and it agrees with the KPIs, the shots and the target of the run. -/
theorem response_sound (hjitter : -2 ≤ i.jitter ∧ i.jitter ≤ 3) :
    (runExperiment s i req runId extra choices).map Prod.fst = Engine.runExperiment s i req runId ∧
      ∀ run attached,
        runExperiment s i req runId extra choices = .ok (run, attached) → Sound i req run attached := by
  refine ⟨runExperiment_fst, fun run attached h => ?_⟩
  obtain ⟨effective, heffective, hrun⟩ := bind_eq_ok.mp h
  have hpos : 0 < effective.1 := by
    unfold applyShotGuardrails at heffective
    split at heffective
    · cases heffective
    · rename_i cleared hcleared
      obtain ⟨rfl, -⟩ := afterReserve_ok heffective
      exact precheck_pos hcleared
  exact execute_sound hpos hjitter hrun

/-- A run on the local simulator. -/
theorem response_sound_local :
    let req : RunExperimentRequest := { preset := .health, hardwareTarget := .simLocal, shotBudget := some 4 }
    let expected := Simulation.percent ["00", "11"] [50, 50]
    ∃ run attached,
      runExperiment {} (plainInputs none) req none ⟨some expected, none⟩ (fun _ _ _ n => List.replicate n "00") =
        .ok (run, attached) ∧ Sound (plainInputs none) req run attached := by
  intro req expected
  obtain ⟨hfst, hsound⟩ := @response_sound {} (plainInputs none) req none ⟨some expected, none⟩
    (fun _ _ _ n => List.replicate n "00") (by decide)
  have hok : (Engine.runExperiment {} (plainInputs none) req).isOk = true := by decide +kernel
  rw [← hfst] at hok
  cases hrun : runExperiment {} (plainInputs none) req none ⟨some expected, none⟩
      (fun _ _ _ n => List.replicate n "00") with
  | error exc =>
    rw [hrun] at hok
    cases hok
  | ok r => exact ⟨r.1, r.2, rfl, hsound r.1 r.2 hrun⟩

/-! ### The control profile -/

/-- A response without what the profile may move. -/
def unsteered (r : RunExperimentResponse × Attached) : RunExperimentResponse × Attached :=
  ({r.1 with
      kpis := {r.1.kpis with fidelity := none, latencyUs := none, backaction := none, status := .ok}
      qubitsUsed := 0
      controlProfile := none},
   {r.2 with
      physicsContract := {r.2.physicsContract with nQubits := none, hilbertDim := none}
      kpiDetails := r.2.kpiDetails.map (List.map fun d => {d with value := 0})
      workflowTrace := []})

theorem finalKpis_shotBudget (controls : ControlProfile) (kpis : KpiBundle) :
    (finalKpis i controls effective kpis).shotBudget =
      if kpis.shotBudget = 0 then effective.1 else kpis.shotBudget := by
  unfold finalKpis warn
  split <;> rfl

/-- An entry without its value; whether there is one still shows. -/
def KpiEntry.blank (entry : KpiEntry) : KpiEntry := {entry with value := entry.value.map fun _ => 0}

theorem detailsWith_blank (ci95 : Option (ℝ × ℝ)) (entries : List KpiEntry) :
    (detailsWith ci95 entries).map (fun d => {d with value := 0}) = detailsWith ci95 (entries.map KpiEntry.blank) := by
  rw [detailsWith, detailsWith, List.map_filterMap, List.filterMap_map]
  refine List.filterMap_congr fun entry _ => ?_
  obtain ⟨name, value, units, kind⟩ := entry
  cases value <;> rfl

/-- Whichever the profile, the same KPIs are reported. -/
theorem kpiMap_blank (controls : ControlProfile) (kpis : KpiBundle) :
    (kpiMap (finalKpis i controls effective kpis)).map KpiEntry.blank =
      (kpiMap {kpis with latencyUs := some 0}).map KpiEntry.blank := by
  unfold kpiMap
  rw [finalKpis_fidelity, finalKpis_backaction, finalKpis_latencyUs]
  unfold applyControlProfile KpiEntry.blank
  simp only [List.map_cons, List.map_nil, Option.map_map, Option.map_some]
  rfl

theorem execute_unsteered (controls : ControlProfile) (overrides : Option ControlProfile) :
    (execute s {i with controls := controls} {req with controlOverrides := overrides} runId extra choices effective).map
        unsteered =
      (execute s i req runId extra choices effective).map unsteered := by
  unfold execute
  dsimp only
  refine map_bind_congr fun provided => ?_
  obtain ⟨ci95, hci, -⟩ := interval_spec choices provided.rawCounts extra.expectedDistribution
  have hdetails (i : RunInputs) (controls : ControlProfile) :
      buildKpiDetails choices (finalKpis i controls effective provided) extra.expectedDistribution =
        .ok (detailsWith ci95 (kpiMap (finalKpis i controls effective provided))) :=
    buildKpiDetails_eq (by rw [finalKpis_rawCounts]; exact hci)
  simp only [hdetails, inferContract_eq, finalKpis_shotsUsed]
  cases SamplingSpec.build effective.1 (correctedShots provided.shotsUsed provided.rawCounts) with
  | error exc => simp only [Except.map, bind, Except.bind]
  | ok sampling =>
    simp only [Except.map, bind, Except.bind, pure, Except.pure, unsteered, Option.map_some, detailsWith_blank,
      details_some ci95 (finalKpis_latencyUs _ _), kpiMap_blank, finalKpis_rawCounts, finalKpis_shotsUsed,
      finalKpis_shotBudget]

/-- **The profile only steers**: whatever the stored profile and the overrides of the request, the run succeeds or
fails alike, and has measured the same; the fidelity, its companions and the status are all that moves. -/
theorem controls_only_steer (controls : ControlProfile) (overrides : Option ControlProfile) :
    (runExperiment s {i with controls := controls} {req with controlOverrides := overrides} runId extra choices).map
        unsteered =
      (runExperiment s i req runId extra choices).map unsteered := by
  unfold runExperiment
  have hguardrails : applyShotGuardrails s {i with controls := controls} {req with controlOverrides := overrides} =
      applyShotGuardrails s i req := rfl
  rw [hguardrails]
  exact map_bind_congr fun effective => execute_unsteered controls overrides

end Runs

end SynQc.Engine.Response
