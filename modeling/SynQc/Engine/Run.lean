import SynQc.Engine.Backends

/-! `SynQcEngine.run_experiment`.

A run first clears the shot guardrails: a look at the session's usage, and a reserve on
the budget. The two are separate calls, so they are separate functions here
(`precheck`, `afterReserve`), with what the budget answered as their input. What comes after
the guardrails is `execute`: it asks the provider, adjusts the KPIs and corrects
`shots_used` to the counts where these say more. -/
namespace SynQc.Engine
open Binary64

/-- What a run reads besides its request. -/
structure RunInputs where
  /-- `get_usage(session_id)` -/
  usage : Int
  /-- What `reserve` returned or raised. -/
  reserve : Except Exc (Bool × Int)
  /-- The active profile of the control store. -/
  controls : ControlProfile
  world : World
  start : Time
  finish : Time
  /-- `rng.randint(-2, 3)` -/
  jitter : Int
  /-- `uuid.uuid4()` -/
  uuid : RunId

/-- A world with a live client or none, no Aer, and nothing left to chance. -/
def plainInputs (live : Option LiveClient) : RunInputs where
  usage := 0
  reserve := .ok (true, 0)
  controls := {}
  world := ⟨fun _ => 0, fun _ => .ok 1, 20, 0, fun _ => .error (.dependency ""), live⟩
  start := 0
  finish := 1
  jitter := 0
  uuid := 1

/-! ### Shot guardrails -/

/-- `req.shot_budget or settings.default_shot_budget` -/
def requestedShots (s : Settings) (req : RunExperimentRequest) : Int :=
  match req.shotBudget with
  | some n => if n = 0 then s.defaultShotBudget else n
  | none => s.defaultShotBudget

/-- The effective shot budget of a request that clears the guardrails. -/
def effectiveShots (s : Settings) (req : RunExperimentRequest) : Int :=
  min (requestedShots s req) s.maxShotsPerExperiment

/-- The guardrails before the reserve: the effective shot budget, and whether to warn. -/
def precheck (s : Settings) (req : RunExperimentRequest) (usage : Int) : Except Exc (Int × Bool) :=
  let requested := requestedShots s req
  if requested > s.maxShotsPerSession ∨ requested > max 0 (s.maxShotsPerSession - usage) then
    .error (.budgetExceeded (max (s.maxShotsPerSession - usage) 0))
  else if requested ≤ 0 then
    .error (.valueError "shot_budget must be positive")
  else
    let shotBudget := min requested s.maxShotsPerExperiment
    .ok (shotBudget, decide (req.hardwareTarget ≠ .simLocal ∧ shotBudget > s.defaultShotBudget))

/-- What the reply to the reserve decides. -/
def afterReserve (s : Settings) (effective : Int × Bool) :
    Except Exc (Bool × Int) → Except Exc (Int × Bool)
  | .error exc => .error exc
  | .ok (true, _) => .ok effective
  | .ok (false, usage) => .error (.budgetExceeded (max (s.maxShotsPerSession - usage) 0))

def applyShotGuardrails (s : Settings) (i : RunInputs) (req : RunExperimentRequest) :
    Except Exc (Int × Bool) :=
  match precheck s req i.usage with
  | .error exc => .error exc
  | .ok effective => afterReserve s effective i.reserve

/-- Whatever clears the precheck asks for at least one shot. -/
theorem precheck_pos {s : Settings} {req : RunExperimentRequest} {usage : Int}
    {effective : Int × Bool} (h : precheck s req usage = .ok effective) : 0 < effective.1 := by
  unfold precheck at h
  simp only at h
  split at h
  · cases h
  · split at h
    · cases h
    · cases h
      have := s.experiment_pos
      show 0 < min (requestedShots s req) s.maxShotsPerExperiment
      omega

theorem afterReserve_ok {s : Settings} {effective r : Int × Bool} {reply : Except Exc (Bool × Int)}
    (h : afterReserve s effective reply = .ok r) : r = effective ∧ ∃ usage, reply = .ok (true, usage) := by
  match reply, h with
  | .ok (true, usage), h => exact ⟨(Except.ok.inj h).symm, usage, rfl⟩

/-- What a run that clears the guardrails goes on with. -/
theorem applyShotGuardrails_ok {s : Settings} {i : RunInputs} {req : RunExperimentRequest} {effective : Int × Bool}
    (h : applyShotGuardrails s i req = .ok effective) :
    effective = (effectiveShots s req,
      decide (req.hardwareTarget ≠ .simLocal ∧ effectiveShots s req > s.defaultShotBudget)) := by
  unfold applyShotGuardrails at h
  split at h
  · cases h
  · rename_i cleared hcleared
    obtain ⟨rfl, _⟩ := afterReserve_ok h
    unfold precheck at hcleared
    simp only at hcleared
    split at hcleared
    · cases hcleared
    · split at hcleared
      · cases hcleared
      · cases hcleared
        rfl

/-! ### KPIs -/

/-- `_apply_control_profile`, rounding as it goes -/
def applyControlProfile (kpis : KpiBundle) (controls : ControlProfile) : KpiBundle :=
  let fidelity := kpis.fidelity.map fun f =>
    let fidelityGain := double (double (8 / 100) * double (controls.driveBias - 1))
    max 0 (min 1 (double (f + fidelityGain)))
  let backaction := kpis.backaction.map fun b =>
    let delta := double (double (5 / 100) * double (double (double controls.probeWindowNs / 500) - 1))
    let delta := if controls.thermalGuardEnabled then delta else double (delta + double (4 / 100))
    max 0 (min 1 (double (b + delta)))
  let latencyUs := kpis.latencyUs.map fun l =>
    let latencyScale := double (1 - min (double (controls.feedbackGain * double (4 / 100))) (25 / 100))
    max 1 (double (l * latencyScale))
  -- WARN if safety clamp is disabled and backaction is high
  let status :=
    if backaction.any (fun b => decide (double (32 / 100) < b)) ∧
        (!controls.thermalGuardEnabled ∨ controls.safetyClampNs = 0) then .warn
    else kpis.status
  {kpis with fidelity := fidelity, backaction := backaction, latencyUs := latencyUs, status := status}

/-- `shots_used` after the counts were added up: the measured total where it says more. -/
def correctedShots (used : Int) (rawCounts : Option Counts) : Int :=
  match rawCounts with
  | none => used
  | some counts => if 0 < counts.sum ∧ (used = 0 ∨ counts.sum > used) then counts.sum else used

/-- Missing KPI fields and the shots that were measured. -/
def fillShots (shotBudget : Int) (kpis : KpiBundle) : KpiBundle :=
  {kpis with
    shotBudget := if kpis.shotBudget = 0 then shotBudget else kpis.shotBudget
    shotsUsed := correctedShots kpis.shotsUsed kpis.rawCounts}

/-- Bump the status to WARN, if not already FAIL. -/
def warn (warnForTarget : Bool) (kpis : KpiBundle) : KpiBundle :=
  if warnForTarget ∧ kpis.status ≠ .fail then {kpis with status := .warn} else kpis

/-- The KPIs a run ends with, from what the provider returned. -/
def finalKpis (i : RunInputs) (controls : ControlProfile) (effective : Int × Bool) (kpis : KpiBundle) :
    KpiBundle :=
  let kpis := warn effective.2 (fillShots effective.1 (applyControlProfile kpis controls))
  {kpis with latencyUs := some (kpis.latencyUs.getD ((i.finish - i.start) * 1000000))}

theorem correctedShots_within {n : Int} {kpis : KpiBundle} (h : Within n kpis) :
    correctedShots kpis.shotsUsed kpis.rawCounts ≤ n := by
  unfold correctedShots
  split
  · exact h.used
  · rename_i counts hcounts
    split
    · exact h.counted counts hcounts
    · exact h.used

theorem finalKpis_shotsUsed (i : RunInputs) (controls : ControlProfile) (effective : Int × Bool)
    (kpis : KpiBundle) :
    (finalKpis i controls effective kpis).shotsUsed = correctedShots kpis.shotsUsed kpis.rawCounts := by
  unfold finalKpis warn
  split <;> rfl

/-! ### Qubits -/

def qubitBounds : HardwareTarget → Int × Int
  | .simLocal => (6, 18)
  | .awsBraket => (20, 48)
  | .ibmQuantum => (16, 44)
  | .azureQuantum => (14, 38)
  | .unknown "ionq_labs" => (12, 32)
  | .unknown "rigetti_qcs" => (18, 40)
  | _ => (10, 36)

def presetScale : ExperimentPreset → ℚ
  | .helloQuantumSim => 55 / 100
  | .latency => 45 / 100
  | .health => 65 / 100
  | .dpdDemo => 50 / 100
  | .backendCompare => 90 / 100
  | _ => 65 / 100

def estimateQubitsUsed (s : Settings) (req : RunExperimentRequest) (kpis : KpiBundle)
    (shotBudget jitter : Int) : Int :=
  let (minQ, maxQ) := qubitBounds req.hardwareTarget
  let backaction := kpis.backaction.getD (2 / 10)
  let backactionScale := min 1 (max 0 (backaction / (6 / 10)))
  let shotScale := min 1 ((shotBudget : ℚ) / (max 1 s.maxShotsPerExperiment : Int))
  let span : ℚ := (maxQ - minQ : Int)
  let scaled := minQ + Rat.floor (span * (35 / 100 + presetScale req.preset * (35 / 100) +
    backactionScale * (2 / 10) + shotScale * (1 / 10)))
  max 1 (min maxQ (scaled + jitter))

/-! ### The run -/

/-- The sampling bounds of the physics contract; a breach is a pydantic `ValidationError`,
which is a `ValueError`. -/
def SamplingSpec.build (shotsRequested shotsExecuted : Int) : Except Exc SamplingSpec :=
  if hr : 1 ≤ shotsRequested then
    if he : 0 ≤ shotsExecuted then .ok ⟨shotsRequested, shotsExecuted, hr, he⟩
    else .error (.valueError "1 validation error for SamplingSpec: shots_executed")
  else .error (.valueError "1 validation error for SamplingSpec: shots_requested")

theorem SamplingSpec.build_ok {requested executed : Int} (hr : 1 ≤ requested) (he : 0 ≤ executed) :
    build requested executed = .ok ⟨requested, executed, hr, he⟩ := by
  rw [build, dif_pos hr, dif_pos he]

theorem SamplingSpec.build_bounds {requested executed : Int} {spec : SamplingSpec}
    (h : build requested executed = .ok spec) : 1 ≤ requested ∧ 0 ≤ executed := by
  unfold build at h
  split at h
  · rename_i hr
    split at h
    · rename_i he
      exact ⟨hr, he⟩
    · cases h
  · cases h

/-- `run_experiment` past the guardrails. -/
def execute (s : Settings) (i : RunInputs) (req : RunExperimentRequest) (runId : Option RunId)
    (effective : Int × Bool) : Except Exc RunExperimentResponse :=
  let shotBudget := effective.1
  let controls := req.controlOverrides.getD i.controls
  match Providers.runExperiment s i.world req.hardwareTarget req.preset shotBudget with
  | .error exc => .error exc
  | .ok provided =>
    let qubitsUsed := estimateQubitsUsed s req (applyControlProfile provided controls) shotBudget i.jitter
    let kpis := finalKpis i controls effective provided
    match SamplingSpec.build shotBudget kpis.shotsUsed with
    | .error exc => .error exc
    | .ok sampling =>
      .ok {
        id := runId.getD i.uuid
        preset := req.preset
        hardwareTarget := req.hardwareTarget
        kpis := kpis
        createdAt := i.finish
        shots := some { requested := some shotBudget, executed := some kpis.shotsUsed }
        sampling := some sampling
        qubitsUsed := qubitsUsed
        notes := req.notes
        controlProfile := some controls }

/-- A run; what it returns is also what it adds to the store, just before returning. -/
def runExperiment (s : Settings) (i : RunInputs) (req : RunExperimentRequest)
    (runId : Option RunId := none) : Except Exc RunExperimentResponse :=
  match applyShotGuardrails s i req with
  | .error exc => .error exc
  | .ok effective => execute s i req runId effective

section Results
variable {s : Settings} {i : RunInputs} {req : RunExperimentRequest} {runId : Option RunId}
  {run : RunExperimentResponse}

theorem execute_ok {effective : Int × Bool} (h : execute s i req runId effective = .ok run) :
    ∃ provided controls,
      Providers.runExperiment s i.world req.hardwareTarget req.preset effective.1 = .ok provided ∧
      run.kpis = finalKpis i controls effective provided ∧
      run.id = runId.getD i.uuid ∧ run.errorCode = none ∧ run.createdAt = i.finish := by
  unfold execute at h
  simp only at h
  split at h
  · cases h
  · rename_i provided hprovided
    split at h
    · cases h
    · cases h
      exact ⟨provided, _, hprovided, rfl, rfl, rfl, rfl⟩

/-- A run says which profile it ran with: the request's own, or the store's. -/
theorem execute_controls {effective : Int × Bool} (h : execute s i req runId effective = .ok run) :
    run.controlProfile = some (req.controlOverrides.getD i.controls) := by
  unfold execute at h
  simp only at h
  split at h
  · cases h
  · split at h
    · cases h
    · cases h
      rfl

/-- The KPIs of a run are the provider's, under the profile it ran with. -/
theorem execute_kpis {effective : Int × Bool} {provided : KpiBundle}
    (hprovided : Providers.runExperiment s i.world req.hardwareTarget req.preset effective.1 = .ok provided)
    (h : execute s i req runId effective = .ok run) :
    run.kpis = finalKpis i (req.controlOverrides.getD i.controls) effective provided := by
  unfold execute at h
  simp only [hprovided] at h
  split at h
  · cases h
  · cases h
    rfl

/-- A run says what it may use. -/
theorem execute_requested {effective : Int × Bool} (h : execute s i req runId effective = .ok run) :
    run.shots.map ShotUsage.requested = some (some effective.1) := by
  unfold execute at h
  simp only at h
  split at h
  · cases h
  · split at h
    · cases h
    · cases h
      rfl

/-- A run in a world that stays within the budget uses no more shots than its budget. -/
theorem execute_within {effective : Int × Bool} (hpos : 0 < effective.1)
    (hobeys : i.world.Obeys req.preset effective.1)
    (h : execute s i req runId effective = .ok run) : run.kpis.shotsUsed ≤ effective.1 := by
  obtain ⟨provided, controls, hprovided, hkpis, _⟩ := execute_ok h
  rw [hkpis, finalKpis_shotsUsed]
  exact correctedShots_within (Providers.runExperiment_within hobeys hpos hprovided)

theorem runExperiment_ok (h : runExperiment s i req runId = .ok run) :
    ∃ effective, applyShotGuardrails s i req = .ok effective ∧
      execute s i req runId effective = .ok run := by
  unfold runExperiment at h
  split at h
  · cases h
  · rename_i effective heffective
    exact ⟨effective, heffective, h⟩

/-- A run carries the id it was given and no error. -/
theorem runExperiment_id (h : runExperiment s i req runId = .ok run) :
    run.id = runId.getD i.uuid ∧ run.errorCode = none := by
  obtain ⟨effective, _, hrun⟩ := runExperiment_ok h
  obtain ⟨_, _, _, _, hid, hcode, _⟩ := execute_ok hrun
  exact ⟨hid, hcode⟩

end Results

end SynQc.Engine
