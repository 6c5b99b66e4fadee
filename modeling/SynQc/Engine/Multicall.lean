import SynQc.Engine.Run

/-! `run_multicall_agent`: the dual-clocking workflow.

One workflow step starts a provider job and polls it until it is done or ten minutes have
passed. The HTTP side is simulated: the first poll answers RUNNING and every later one
SUCCEEDED, so what decides is the clock. No budget is consulted. -/
namespace SynQc.Engine.Multicall

/-- Clock readings of a workflow: when the step started, one before each poll, and at the
end. -/
structure Clock where
  start : Time
  poll : Nat → Time
  created : Time

inductive PollStatus where
  | running
  | succeeded
  deriving DecidableEq

/-- `_simulate_http` on the poll call -/
def simulateHttp (attempt : Nat) : PollStatus := if attempt = 0 then .running else .succeeded

/-- `timeout_seconds` of the step -/
def timeoutSeconds : Time := 600

/-- The poll loop: the number of the poll that found the job done. -/
def poll (clock : Clock) (attempt : Nat) : Except Exc Nat :=
  if clock.poll attempt < clock.start + timeoutSeconds then
    if simulateHttp attempt = .succeeded then .ok attempt
    else poll clock (attempt + 1)
  else .error .timeoutError
termination_by 1 - attempt
decreasing_by
  unfold simulateHttp at *
  split at * <;> simp_all

/-- The loop makes two polls, and both have to come before the deadline. -/
def Clock.InTime (clock : Clock) : Prop :=
  clock.poll 0 < clock.start + timeoutSeconds ∧ clock.poll 1 < clock.start + timeoutSeconds

instance (clock : Clock) : Decidable clock.InTime := inferInstanceAs (Decidable (_ ∧ _))

theorem poll_eq (clock : Clock) : poll clock 0 = if clock.InTime then .ok 1 else .error .timeoutError := by
  rw [poll, poll]
  by_cases h0 : clock.poll 0 < clock.start + timeoutSeconds
  · by_cases h1 : clock.poll 1 < clock.start + timeoutSeconds
    · rw [if_pos h0, if_neg (by decide), if_pos h1, if_pos (by decide), if_pos ⟨h0, h1⟩]
    · rw [if_pos h0, if_neg (by decide), if_neg h1, if_neg fun h => h1 h.2]
  · rw [if_neg h0, if_neg fun h => h0 h.1]

/-- `Workflow.kpi_bundle_from_trace`, on the two-step trace of a job that is done. -/
def kpiBundleFromTrace (traceLength : Nat) (shotBudget : Int) : KpiBundle where
  fidelity := some (94 / 100)
  latencyUs := if traceLength = 0 then none else some (traceLength * 500000)
  backaction := some (18 / 100)
  rawCounts := some ((Dict.empty.set "00" (shotBudget / 2)).set "11" (shotBudget / 2))
  shotsUsed := shotBudget
  shotBudget := shotBudget
  status := .ok

def runMulticallAgent (s : Settings) (clock : Clock) (experimentId : RunId)
    (req : RunExperimentRequest) : Except Exc RunExperimentResponse :=
  match poll clock 0 with
  | .error exc => .error exc
  | .ok _ =>
    let shotBudget := requestedShots s req
    match SamplingSpec.build shotBudget shotBudget with
    | .error exc => .error exc
    | .ok sampling =>
      let kpis := kpiBundleFromTrace 2 shotBudget
      .ok {
        id := experimentId
        preset := .multicallDualClocking
        hardwareTarget := req.hardwareTarget
        kpis := kpis
        createdAt := clock.created
        shots := some { requested := some shotBudget, executed := some kpis.shotsUsed }
        sampling := some sampling
        qubitsUsed := 18
        notes := req.notes
        controlProfile := req.controlOverrides }

/-- What a workflow needs to end with a run: polls in time, and at least one shot. -/
def Completes (s : Settings) (clock : Clock) (req : RunExperimentRequest) : Prop :=
  clock.InTime ∧ 1 ≤ requestedShots s req

instance (s : Settings) (clock : Clock) (req : RunExperimentRequest) : Decidable (Completes s clock req) :=
  inferInstanceAs (Decidable (_ ∧ _))

section Results
variable {s : Settings} {clock : Clock} {experimentId : RunId} {req : RunExperimentRequest}
  {run : RunExperimentResponse}

theorem runMulticallAgent_ok (h : runMulticallAgent s clock experimentId req = .ok run) :
    Completes s clock req ∧ run.id = experimentId ∧ run.errorCode = none ∧
      run.createdAt = clock.created ∧ run.kpis.shotsUsed = requestedShots s req := by
  unfold runMulticallAgent at h
  rw [poll_eq] at h
  by_cases hin : clock.InTime
  · rw [if_pos hin] at h
    simp only at h
    split at h
    · cases h
    · rename_i hbuild
      cases h
      exact ⟨⟨hin, (SamplingSpec.build_bounds hbuild).1⟩, rfl, rfl, rfl, rfl⟩
  · rw [if_neg hin] at h
    cases h

theorem runMulticallAgent_completes (h : Completes s clock req) :
    ∃ run, runMulticallAgent s clock experimentId req = .ok run := by
  unfold runMulticallAgent
  rw [poll_eq, if_pos h.1]
  simp only
  rw [SamplingSpec.build_ok h.2 (le_trans (by decide) h.2)]
  exact ⟨_, rfl⟩

end Results

end SynQc.Engine.Multicall
