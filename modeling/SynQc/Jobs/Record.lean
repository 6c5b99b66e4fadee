import SynQc.Engine.Run

/-! Job records, and what is written on a record that fails.

A record fails in one of three ways: a caller cancels it, its timer runs out, or its
worker raised. Each fills in the same fields with its own texts. The failed record is
also what the store is given: `failureEntry` is the entry made from it. -/
namespace SynQc.Jobs

inductive JobStatus where
  | queued
  | running
  | succeeded
  | failed
  deriving DecidableEq, Repr

def JobStatus.terminal : JobStatus → Bool
  | .succeeded | .failed => true
  | _ => false

structure JobRecord where
  id : RunId
  request : RunExperimentRequest
  status : JobStatus := .queued
  createdAt : Time
  startedAt : Option Time := none
  finishedAt : Option Time := none
  result : Option RunExperimentResponse := none
  error : Option String := none
  errorDetail : Option Detail := none
  errorCode : Option ErrorCode := none
  errorMessage : Option String := none
  actionHint : Option String := none

/-- The fields a failure fills in. -/
structure Failure where
  code : ErrorCode
  error : String
  message : String
  actionHint : Option String
  detail : Detail

/-- `record.error_code.value if record.error_code else "UNKNOWN"` -/
def JobRecord.codeKey (r : JobRecord) : String := (r.errorCode.map ErrorCode.value).getD "UNKNOWN"

def JobRecord.fail (r : JobRecord) (f : Failure) (now : Time) : JobRecord :=
  {r with
    error := some f.error
    errorCode := some f.code
    errorMessage := some f.message
    actionHint := f.actionHint
    errorDetail := some f.detail
    finishedAt := some now
    status := .failed}

def cancellation (reason : String) : Failure :=
  let hint := "Retry the run or clear the queue if the workflow is stuck."
  { code := .cancelled
    error := reason
    message := reason
    actionHint := some hint
    detail := ((Dict.empty.set "code" (.text ErrorCode.cancelled.value)).set "message" (.text reason)).set
      "action_hint" (.text hint) }

def expiry (timeoutSeconds : Int) : Failure :=
  let hint := "Try again with a smaller shot budget or fewer queued jobs."
  { code := .timeout
    error := "Timed out"
    message := "Job exceeded timeout"
    actionHint := some hint
    detail := (((Dict.empty.set "code" (.text ErrorCode.timeout.value)).set "message"
      (.text "Job exceeded timeout")).set "timeout_seconds" (.int timeoutSeconds)).set
      "action_hint" (.text hint) }

/-- What `_fail_record` is called with. -/
structure Report where
  code : ErrorCode
  message : String
  extra : Option Detail := none
  actionHint : Option String := none

/-- `exc.action_hint or default` -/
def hintOr (hint : Option String) (default : String) : String :=
  match hint with
  | some h => if h = "" then default else h
  | none => default

/-- The handlers of a run, first match first, as the embedded queue and the worker have them: they differ in what
becomes of a provider's hint, and in the hint of an exception that none of the others takes. -/
def handlers (providerHint : Option String → Option String) (otherHint : String) : Exc → Report
  | .budgetExceeded remaining =>
    { code := .budgetExhausted
      message := (Exc.budgetExceeded remaining).str
      extra := some (Dict.empty.set "remaining" (.int remaining))
      actionHint := some "Lower the shot budget or wait for the session budget to reset." }
  | .providerClientError message code hint detail =>
    { code := code
      message := message
      actionHint := providerHint hint
      extra := some detail }
  | .valueError message =>
    { code := .invalidRequest
      message := message
      actionHint := some "Verify the request payload and try again." }
  | exc =>
    { code := .internalError
      message := exc.str
      actionHint := some otherHint }

/-- The handlers of `_run_job`. -/
def report : Exc → Report :=
  handlers (fun hint => some (hintOr hint "Check provider credentials or select a simulator backend."))
    "Check backend logs for details and retry after remediation."

def Report.failure (r : Report) : Failure :=
  let detail : Detail := (Dict.empty.set "code" (.text r.code.value)).set "message" (.text r.message)
  let detail := detail.update (r.extra.getD Dict.empty)
  let detail := match r.actionHint with
    | some h => if h = "" then detail else detail.set "action_hint" (.text h)
    | none => detail
  { code := r.code
    error := r.message
    message := r.message
    actionHint := r.actionHint
    detail := detail }

/-- The entry `_persist_failure` adds to the store. -/
def failureEntry (r : JobRecord) (now : Time) : RunExperimentResponse where
  id := r.id
  preset := r.request.preset
  hardwareTarget := r.request.hardwareTarget
  kpis := { shotsUsed := 0, shotBudget := r.request.shotBudget.getD 0, status := .fail }
  createdAt := r.finishedAt.getD now
  qubitsUsed := 0
  notes := r.request.notes
  controlProfile := r.request.controlOverrides
  errorCode := r.errorCode
  errorMessage := r.errorMessage
  errorDetail := r.errorDetail
  actionHint := r.actionHint

/-- What a terminal record may no longer change. -/
def JobRecord.verdict (r : JobRecord) :
    JobStatus × Option RunExperimentResponse × Option String × Option ErrorCode × Option String ×
      Option String × Option Detail :=
  (r.status, r.result, r.error, r.errorCode, r.errorMessage, r.actionHint, r.errorDetail)

/-! ### The worker function -/

/-- What a call of the worker function adds to the store, and what it returns or raises. -/
structure Outcome where
  stored : Option RunExperimentResponse
  result : Except Exc RunExperimentResponse

/-- A worker function; `ι` is what it takes from outside. -/
abbrev WorkerFn (ι : Type) := ι → RunExperimentRequest → SessionId → RunId → Outcome

/-- `SynQcEngine.run_experiment` as the worker function: a run that succeeds is stored and
returned. -/
def engineWorker (s : Settings) : WorkerFn Engine.RunInputs := fun inputs req _ runId =>
  match Engine.runExperiment s inputs req (some runId) with
  | .ok run => ⟨some run, .ok run⟩
  | .error exc => ⟨none, .error exc⟩

theorem engineWorker_stored {s : Settings} {inputs : Engine.RunInputs} {req : RunExperimentRequest}
    {session : SessionId} {runId : RunId} {run : RunExperimentResponse}
    (h : (engineWorker s inputs req session runId).stored = some run) :
    run.id = runId ∧ run.errorCode = none ∧ (engineWorker s inputs req session runId).result = .ok run := by
  simp only [engineWorker] at h ⊢
  cases hrun : Engine.runExperiment s inputs req (some runId) with
  | error exc =>
    rw [hrun] at h
    cases h
  | ok run' =>
    rw [hrun] at h
    cases h
    obtain ⟨hid, hcode⟩ := Engine.runExperiment_id hrun
    exact ⟨hid, hcode, rfl⟩

theorem engineWorker_ok {s : Settings} {inputs : Engine.RunInputs} {req : RunExperimentRequest}
    {session : SessionId} {runId : RunId} {run : RunExperimentResponse}
    (h : (engineWorker s inputs req session runId).result = .ok run) :
    (engineWorker s inputs req session runId).stored = some run := by
  simp only [engineWorker] at h ⊢
  cases hrun : Engine.runExperiment s inputs req (some runId) with
  | error exc =>
    rw [hrun] at h
    cases h
  | ok run' =>
    rw [hrun] at h
    cases h
    rfl

theorem engineWorker_error {s : Settings} {inputs : Engine.RunInputs} {req : RunExperimentRequest}
    {session : SessionId} {runId : RunId} {exc : Exc}
    (h : (engineWorker s inputs req session runId).result = .error exc) :
    (engineWorker s inputs req session runId).stored = none := by
  simp only [engineWorker] at h ⊢
  cases hrun : Engine.runExperiment s inputs req (some runId) with
  | error exc' => rfl
  | ok run =>
    rw [hrun] at h
    cases h

end SynQc.Jobs
