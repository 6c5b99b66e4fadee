import Mathlib.Algebra.Order.Ring.Rat
import SynQc.Library.Dict

/-! The data model: requests, responses and the errors a run can end with.

Run and job identifiers are uuid4 strings in the source. They are only generated and
compared, so they are natural numbers here, and so are session identifiers. Clock
readings and the floating-point KPIs are rationals. Response fields that no modelled
function reads back (measurement and noise descriptors, KPI details, artifacts,
workflow trace) are left out. -/
namespace SynQc

abbrev RunId := Nat
abbrev SessionId := Nat
/-- A reading of `time.time()`, in seconds. -/
abbrev Time := ℚ

inductive ExperimentPreset where
  | helloQuantumSim
  | health
  | latency
  | backendCompare
  | dpdDemo
  | groverDemo
  | multicallDualClocking
  deriving DecidableEq, Repr

inductive ExperimentStatus where
  | ok
  | warn
  | fail
  deriving DecidableEq, Repr

inductive ErrorCode where
  | authRequired
  | remoteDisabled
  | providerSimDisabled
  | providerCredentials
  | providerCapacity
  | providerQueueBackpressure
  | invalidTarget
  | invalidRequest
  | budgetExhausted
  | rateLimited
  | budgetGuardrail
  | timeout
  | cancelled
  | internalError
  | providerError
  deriving DecidableEq, Repr

/-- The code's string in the taxonomy, as stored and counted. -/
def ErrorCode.value : ErrorCode → String
  | .authRequired => "AUTH_REQUIRED"
  | .remoteDisabled => "REMOTE_DISABLED"
  | .providerSimDisabled => "PROVIDER_SIM_DISABLED"
  | .providerCredentials => "PROVIDER_CREDENTIALS"
  | .providerCapacity => "PROVIDER_CAPACITY"
  | .providerQueueBackpressure => "PROVIDER_QUEUE_BACKPRESSURE"
  | .invalidTarget => "INVALID_TARGET"
  | .invalidRequest => "INVALID_REQUEST"
  | .budgetExhausted => "BUDGET_EXHAUSTED"
  | .rateLimited => "RATE_LIMITED"
  | .budgetGuardrail => "BUDGET_GUARDRAIL"
  | .timeout => "TIMEOUT"
  | .cancelled => "CANCELLED"
  | .internalError => "INTERNAL_ERROR"
  | .providerError => "PROVIDER_ERROR"

/-- A `hardware_target` string: a registered backend, or any other text. -/
inductive HardwareTarget where
  | simLocal
  | awsBraket
  | ibmQuantum
  | azureQuantum
  | ionqCloud
  | rigettiForest
  | unknown (id : String)
  deriving DecidableEq, Repr

/-- A value inside an error detail; numbers that are no integers, truth values and containers
by their JSON text. -/
inductive Value where
  | null
  | int (n : Int)
  | text (s : String)
  | json (text : String)
  deriving DecidableEq, Repr

abbrev Detail := Dict String Value

/-- Outcome counts: `Dict[str, int]`. -/
abbrev Counts := Dict String Int

/-- `sum(counts.values())` -/
def Counts.sum (c : Counts) : Int := Dict.total (fun _ v => v) c

/-! ### Control profiles -/

structure ControlProfile where
  driveBias : ℚ := 1
  probeWindowNs : Int := 120
  feedbackGain : ℚ := 35 / 100
  safetyClampNs : Int := 600
  thermalGuardEnabled : Bool := true
  tracerPersistenceMs : Int := 420
  notes : Option String := none

/-! ### Requests and results -/

structure KpiBundle where
  fidelity : Option ℚ := none
  latencyUs : Option ℚ := none
  backaction : Option ℚ := none
  rawCounts : Option Counts := none
  shotsUsed : Int := 0
  shotBudget : Int := 0
  status : ExperimentStatus := .ok

structure RunExperimentRequest where
  preset : ExperimentPreset
  hardwareTarget : HardwareTarget
  shotBudget : Option Int := none
  notes : Option String := none
  controlOverrides : Option ControlProfile := none

structure ShotUsage where
  requested : Option Int := none
  executed : Option Int := none

/-- The sampling part of a physics contract; its bounds are checked on construction. -/
structure SamplingSpec where
  shotsRequested : Int
  shotsExecuted : Int
  requested_pos : 1 ≤ shotsRequested
  executed_nonneg : 0 ≤ shotsExecuted

structure RunExperimentResponse where
  id : RunId
  preset : ExperimentPreset
  hardwareTarget : HardwareTarget
  kpis : KpiBundle
  createdAt : Time
  shots : Option ShotUsage := none
  sampling : Option SamplingSpec := none
  qubitsUsed : Int := 0
  notes : Option String := none
  controlProfile : Option ControlProfile := none
  errorCode : Option ErrorCode := none
  errorMessage : Option String := none
  errorDetail : Option Detail := none
  actionHint : Option String := none

/-! ### Exceptions -/

/-- The exceptions the run handlers tell apart; `other` is every other `Exception`. -/
inductive Exc where
  | budgetExceeded (remaining : Int)
  | providerClientError (message : String) (code : ErrorCode) (actionHint : Option String)
      (detail : Detail)
  | timeoutError
  | valueError (message : String)
  | other (message : String)

/-- `str(exc)` -/
def Exc.str : Exc → String
  | .budgetExceeded remaining => "Session shot budget exhausted; remaining=" ++ toString remaining
  | .providerClientError message .. => message
  | .timeoutError => ""
  | .valueError message => message
  | .other message => message

/-- `ProviderClientError` with the defaults of its constructor. -/
def Exc.provider (message : String) (code : ErrorCode := .providerError)
    (actionHint : Option String := none) (detail : Detail := Dict.empty) : Exc :=
  .providerClientError message code actionHint detail

/-! ### Settings -/

/-- The settings the modelled functions read, with the bounds the settings class enforces. -/
structure Settings where
  maxShotsPerExperiment : Int := 200000
  maxShotsPerSession : Int := 1000000
  defaultShotBudget : Int := 2048
  sessionBudgetTtlSeconds : Int := 3600
  budgetFailOpenOnRedisError : Bool := false
  jobTimeoutSeconds : Int := 90
  jobQueueMaxPending : Nat := 1000
  allowProviderSimulation : Bool := false
  experiment_pos : 1 ≤ maxShotsPerExperiment := by decide
  session_pos : 1 ≤ maxShotsPerSession := by decide
  default_pos : 1 ≤ defaultShotBudget := by decide
  ttl_min : 60 ≤ sessionBudgetTtlSeconds := by decide

/-- The defaults, with another cap for a session. -/
def Settings.capped (maxShotsPerSession : Int) (h : 1 ≤ maxShotsPerSession) : Settings :=
  { maxShotsPerSession := maxShotsPerSession, session_pos := h }

end SynQc
