import SynQc.RunQueue.Worker

/-! One outcome for each processed run.

`_process_job` records a success and completes the job inside the `try` whose handlers
record a failure and complete it again. Whatever `complete_success` raises, before its
pipeline ran or after it, is taken for a failure of the run then. A failure is recorded
before its detail is serialised, and nothing handles what that raises. -/
namespace SynQc.RunQueue.Outcomes

open Jobs (JobStatus Report)

/-! ### Exceptions with any detail -/

/-- An entry of a detail as it was raised: one that `json.dumps` encodes, one whose key or value
it has no encoding for, or a value that contains itself. -/
inductive Attribute where
  | value (v : Value)
  | refused (message : String)
  | circular

/-- What can be raised between `mark_running` and the end of the run: an exception whose detail, if it has one,
holds plain values, as those of the engine and of multicalls do, or a provider's with any detail. -/
inductive Raised where
  | exc (exc : Exc)
  | providerClientError (message : String) (code : ErrorCode) (actionHint : Option String)
      (detail : Dict String Attribute)

namespace Attribute

/-- What `json.dumps` raises at an entry. -/
def raises : Attribute → Option Raised
  | value _ => none
  | refused message => some (.exc (.other message))
  | circular => some (.exc (.valueError "Circular reference detected"))

/-- An entry as it is read back, where nothing is raised. -/
def encoded : Attribute → Value
  | value v => v
  | refused _ | circular => .null

end Attribute

/-- `json.dumps` of a detail. -/
def dumps (detail : Dict String Attribute) : Except Raised Detail :=
  match detail.values.findSome? Attribute.raises with
  | some exc => .error exc
  | none => .ok (detail.mapValues Attribute.encoded)

/-- `json.dumps` raises at no entry. -/
def Serialisable (detail : Dict String Attribute) : Prop := ∀ a ∈ detail.values, a.raises = none

theorem dumps_ok {detail : Dict String Attribute} (h : Serialisable detail) :
    dumps detail = .ok (detail.mapValues Attribute.encoded) := by
  rw [dumps, List.findSome?_eq_none_iff.mpr h]

theorem dumps_error {detail : Dict String Attribute} (h : ¬Serialisable detail) :
    ∃ exc, dumps detail = .error exc := by
  obtain ⟨exc, hexc⟩ := Option.ne_none_iff_exists'.mp (mt List.findSome?_eq_none_iff.mp h)
  exact ⟨exc, by rw [dumps, hexc]⟩

theorem serialisable_values (detail : Detail) : Serialisable (detail.mapValues Attribute.value) := by
  intro a ha
  obtain ⟨e, he, rfl⟩ := List.mem_map.mp ha
  obtain ⟨e', _, rfl⟩ := List.mem_map.mp he
  rfl

theorem encoded_values (detail : Detail) :
    (detail.mapValues Attribute.value).mapValues Attribute.encoded = detail := by
  obtain ⟨entries, nodup⟩ := detail
  simp only [Dict.mapValues, List.map_map, Dict.mk.injEq]
  exact List.map_id _

/-- What a handler passes to `_handle_failure`; `None` and an empty detail are the same to it. -/
structure Failure where
  code : ErrorCode
  message : String
  actionHint : Option String
  detail : Dict String Attribute := Dict.empty

/-- The worker's handlers. -/
def failure (s : Settings) : Raised → Failure
  | .exc exc =>
    let report := report s exc
    { code := report.code
      message := report.message
      actionHint := report.actionHint
      detail := (report.extra.getD Dict.empty).mapValues .value }
  | .providerClientError message code hint detail =>
    { code := code, message := message, actionHint := hint, detail := detail }

/-! ### `RunMetricsRecorder` -/

inductive RunStatus where
  | submitted
  | succeeded
  | failed
  deriving DecidableEq

structure Metrics where
  runs : Dict (HardwareTarget × RunStatus) Int := Dict.empty
  failures : Dict String Int := Dict.empty
  /-- The latencies that were observed, the last one first. -/
  latencies : List ((HardwareTarget × RunStatus) × Time) := []

namespace Metrics

/-- `hardware_target or "unknown"` -/
def label (target : HardwareTarget) : HardwareTarget :=
  if target = .unknown "" then .unknown "unknown" else target

def recordSubmission (m : Metrics) (target : HardwareTarget) : Metrics :=
  {m with runs := m.runs.incr (label target, .submitted) 1}

def recordSuccess (m : Metrics) (target : HardwareTarget) (latency : Time) : Metrics :=
  {m with
    runs := m.runs.incr (label target, .succeeded) 1
    latencies := ((label target, .succeeded), latency) :: m.latencies }

def recordFailure (m : Metrics) (target : HardwareTarget) (code : ErrorCode) (latency : Time) : Metrics :=
  {m with
    runs := m.runs.incr (label target, .failed) 1
    failures := m.failures.incr code.value 1
    latencies := ((label target, .failed), latency) :: m.latencies }

/-- How often a status was recorded for a target. -/
def recorded (m : Metrics) (target : HardwareTarget) (status : RunStatus) : Int :=
  (m.runs.get? (label target, status)).getD 0

theorem recorded_incr (m : Metrics) (target : HardwareTarget) (status status' : RunStatus) :
    ((m.runs.incr (label target, status) 1).get? (label target, status')).getD 0 =
      m.recorded target status' + if status = status' then 1 else 0 := by
  rw [Dict.getD_incr, recorded]
  simp only [Prod.mk.injEq, true_and]

theorem recorded_success (m : Metrics) (target : HardwareTarget) (latency : Time) (status : RunStatus) :
    (m.recordSuccess target latency).recorded target status =
      m.recorded target status + if .succeeded = status then 1 else 0 := recorded_incr m target .succeeded status

theorem recorded_failure (m : Metrics) (target : HardwareTarget) (code : ErrorCode) (latency : Time)
    (status : RunStatus) : (m.recordFailure target code latency).recorded target status =
      m.recorded target status + if .failed = status then 1 else 0 := recorded_incr m target .failed status

end Metrics

/-! ### `_process_job` -/

/-- Where `complete_success` raises, if it does: as the result is serialised, or as the
pipeline runs, before Redis ran it or after. -/
inductive Fault where
  | none
  | serialising (exc : Raised)
  | raisesBefore (exc : Raised)
  | raisesAfter (exc : Raised)

/-- The worker's clock: as the job is marked, once more if that read 0, as its result is
there, at a failure, and at its completion. -/
structure Times where
  startedAt : Time
  readAgain : Time
  finishedAt : Time
  failedAt : Time
  completedAt : Time

/-- `job.started_at or time.time()` -/
def Times.start (t : Times) : Time := if t.startedAt = 0 then t.readAgain else t.startedAt

/-- What the worker writes to: Redis, and its metrics. -/
structure Books where
  redis : Redis
  metrics : Metrics := {}

def completeSuccess (job : QueuedRun) (result : RunExperimentResponse) (now : Time) (fault : Fault) (r : Redis) :
    Except Raised Unit × Redis :=
  match fault with
  | .none => (.ok (), r.completeSuccess job result now)
  | .serialising exc | .raisesBefore exc => (.error exc, r)
  | .raisesAfter exc => (.error exc, r.completeSuccess job result now)

/-- `complete_failure`: the defaults of the detail are texts, so it is encoded when what was
raised is. -/
def completeFailure (job : QueuedRun) (f : Failure) (now : Time) (r : Redis) : Except Raised Unit × Redis :=
  match dumps f.detail with
  | .ok extra =>
    (.ok (), r.completeFailure job
      { code := f.code, message := f.message, extra := some extra, actionHint := f.actionHint } now)
  | .error exc => (.error exc, r)

/-- `max(0.0, finished_at - (job.started_at or job.created_at))` -/
def latency (job : QueuedRun) (finishedAt : Time) : Time :=
  max 0 (finishedAt - match job.startedAt with
    | some t => if t = 0 then job.createdAt else t
    | none => job.createdAt)

/-- `_handle_failure`: the failure is recorded before it is completed. -/
def handleFailure (job : QueuedRun) (f : Failure) (times : Times) (b : Books) : Except Raised Unit × Books :=
  let metrics := b.metrics.recordFailure job.request.hardwareTarget f.code (latency job times.failedAt)
  let (raised, redis) := completeFailure job f times.completedAt b.redis
  (raised, ⟨redis, metrics⟩)

/-- `mark_running` -/
def markRunning (job : QueuedRun) (now : Time) (b : Books) : Books :=
  {b with redis := (b.redis.markHash job now).markCounts}

/-- The `try` of `_process_job` from the outcome of the call on. What is left in `Except` is
what `_process_job` raises. -/
def settle (s : Settings) (job : QueuedRun) (outcome : Except Raised RunExperimentResponse) (fault : Fault)
    (times : Times) (b : Books) : Except Raised Unit × Books :=
  match outcome with
  | .ok result =>
    let metrics := b.metrics.recordSuccess job.request.hardwareTarget (max 0 (times.finishedAt - times.start))
    match completeSuccess job result times.completedAt fault b.redis with
    | (.ok (), redis) => (.ok (), ⟨redis, metrics⟩)
    | (.error exc, redis) => handleFailure job (failure s exc) times ⟨redis, metrics⟩
  | .error exc => handleFailure job (failure s exc) times b

def processJob (s : Settings) (job : QueuedRun) (outcome : Except Raised RunExperimentResponse) (fault : Fault)
    (times : Times) (b : Books) : Except Raised Unit × Books :=
  let job := {job with startedAt := some times.startedAt}
  settle s job outcome fault times (markRunning job times.startedAt b)

/-! ### What a run leaves -/

/-- A run ended with this status in the metrics, the counters and its hash, and with no other:
one record was made of it, and it left the running jobs once for that status. -/
structure EndedAs (status : JobStatus) (label : RunStatus) (id : RunId) (target : HardwareTarget)
    (before after : Books) : Prop where
  recorded : ∀ l, after.metrics.recorded target l = before.metrics.recorded target l + if label = l then 1 else 0
  counted : ∀ c, after.redis.counted c =
    before.redis.counted c + (if .running = c then -1 else 0) + if status = c then 1 else 0
  stored : ∃ hash, after.redis.jobs.get? id = some hash ∧ hash.status = some status

/-- The run has one outcome, from the books right after `mark_running` on. -/
def OneOutcome (job : QueuedRun) (before after : Books) : Prop :=
  EndedAs .succeeded .succeeded job.id job.request.hardwareTarget before after ∨
    EndedAs .failed .failed job.id job.request.hardwareTarget before after

section Steps
variable (s : Settings) (job : QueuedRun) (times : Times) (b : Books)

theorem endedAs_succeeded (result : RunExperimentResponse) (now latency : Time) :
    EndedAs .succeeded .succeeded job.id job.request.hardwareTarget b ⟨b.redis.complete job (.ok result) now,
      b.metrics.recordSuccess job.request.hardwareTarget latency⟩ := by
  obtain ⟨hash, hstatus, _, _, _, hjobs⟩ := Redis.complete_jobs job (.ok result) now b.redis
  refine ⟨fun l => Metrics.recorded_success _ _ _ l, fun c => ?_, hash, ?_, hstatus⟩
  · exact Redis.complete_counted job (.ok result) now b.redis c
  · rw [hjobs, Dict.get?_set_self]

theorem endedAs_failed (report : Report) (code : ErrorCode) (now latency : Time) :
    EndedAs .failed .failed job.id job.request.hardwareTarget b ⟨b.redis.complete job (.error report) now,
      b.metrics.recordFailure job.request.hardwareTarget code latency⟩ := by
  obtain ⟨hash, hstatus, _, _, _, hjobs⟩ := Redis.complete_jobs job (.error report) now b.redis
  refine ⟨fun l => Metrics.recorded_failure _ _ _ _ l, fun c => ?_, hash, ?_, hstatus⟩
  · exact Redis.complete_counted job (.error report) now b.redis c
  · rw [hjobs, Dict.get?_set_self]

/-- A failure is recorded, whatever becomes of its completion. -/
theorem handleFailure_recorded (f : Failure) (l : RunStatus) :
    (handleFailure job f times b).2.metrics.recorded job.request.hardwareTarget l =
      b.metrics.recorded job.request.hardwareTarget l + if .failed = l then 1 else 0 :=
  Metrics.recorded_failure _ _ _ _ l

theorem handleFailure_ok {f : Failure} (h : Serialisable f.detail) :
    (handleFailure job f times b).1 = .ok () ∧
      EndedAs .failed .failed job.id job.request.hardwareTarget b (handleFailure job f times b).2 := by
  simp only [handleFailure, completeFailure, dumps_ok h]
  exact ⟨trivial, endedAs_failed job b _ f.code times.completedAt _⟩

/-- A detail that is not encoded leaves Redis as it was, and the exception to the worker's loop. -/
theorem handleFailure_error {f : Failure} (h : ¬Serialisable f.detail) :
    (∃ exc, (handleFailure job f times b).1 = .error exc) ∧ (handleFailure job f times b).2.redis = b.redis := by
  obtain ⟨exc, hexc⟩ := dumps_error h
  simp only [handleFailure, completeFailure, hexc]
  exact ⟨⟨exc, rfl⟩, trivial⟩

theorem handleFailure_oneOutcome (f : Failure) :
    OneOutcome job b (handleFailure job f times b).2 ↔ Serialisable f.detail := by
  constructor
  · intro hone
    by_contra hdetail
    obtain ⟨_, hredis⟩ := handleFailure_error job times b hdetail
    -- the job is still counted as running
    have hrunning := congrArg (fun r => r.counted .running) hredis
    rcases hone with hend | hend
    · have hcounted := hend.counted .running
      simp at hcounted
      omega
    · have hcounted := hend.counted .running
      simp at hcounted
      omega
  · intro hdetail
    exact .inr (handleFailure_ok job times b hdetail).2

/-- A result whose completion raises is recorded as a success and as a failure. -/
theorem settle_fault (result : RunExperimentResponse) {fault : Fault} (h : fault ≠ .none) (l : RunStatus)
    (hl : l = .succeeded ∨ l = .failed) :
    (settle s job (.ok result) fault times b).2.metrics.recorded job.request.hardwareTarget l =
      b.metrics.recorded job.request.hardwareTarget l + 1 := by
  obtain ⟨exc, redis, hraised⟩ : ∃ exc redis,
      completeSuccess job result times.completedAt fault b.redis = (.error exc, redis) := by
    cases fault with
    | none => exact absurd rfl h
    | serialising exc => exact ⟨exc, _, rfl⟩
    | raisesBefore exc => exact ⟨exc, _, rfl⟩
    | raisesAfter exc => exact ⟨exc, _, rfl⟩
  simp only [settle, hraised]
  rw [handleFailure_recorded, Metrics.recorded_success]
  rcases hl with rfl | rfl <;> simp

theorem settle_oneOutcome_ok (result : RunExperimentResponse) (fault : Fault) :
    OneOutcome job b (settle s job (.ok result) fault times b).2 ↔ fault = .none := by
  constructor
  · intro hone
    by_contra hfault
    have hsucceeded := settle_fault s job times b result hfault .succeeded (.inl rfl)
    have hfailed := settle_fault s job times b result hfault .failed (.inr rfl)
    rcases hone with hend | hend
    · have hrecorded := hend.recorded .failed
      simp at hrecorded
      omega
    · have hrecorded := hend.recorded .succeeded
      simp at hrecorded
      omega
  · rintro rfl
    exact .inl (endedAs_succeeded job b result times.completedAt _)

end Steps

/-- **A run has one outcome in the books exactly when the completion of its result does not
raise, and the detail of its failure is encoded.** -/
theorem one_outcome (s : Settings) (job : QueuedRun) (outcome : Except Raised RunExperimentResponse) (fault : Fault)
    (times : Times) (b : Books) :
    OneOutcome job (markRunning job times.startedAt b) (processJob s job outcome fault times b).2 ↔
      (∀ result, outcome = .ok result → fault = .none) ∧
        ∀ exc, outcome = .error exc → Serialisable (failure s exc).detail := by
  let marked : QueuedRun := {job with startedAt := some times.startedAt}
  show OneOutcome marked (markRunning marked times.startedAt b)
    (settle s marked outcome fault times (markRunning marked times.startedAt b)).2 ↔ _
  cases outcome with
  | ok result =>
    rw [settle_oneOutcome_ok]
    exact ⟨fun h => ⟨fun _ _ => h, fun _ hexc => nomatch hexc⟩, fun h => h.1 result rfl⟩
  | error exc =>
    show OneOutcome marked _ (handleFailure marked (failure s exc) times _).2 ↔ _
    rw [handleFailure_oneOutcome]
    constructor
    · intro h
      refine ⟨fun _ hresult => (nomatch hresult), fun exc' hexc => ?_⟩
      rw [← Except.error.inj hexc]
      exact h
    · intro h
      exact h.2 exc rfl

/-- Redis ran the pipeline of `complete_success` and its reply was lost: the job is counted in
and out as a success and as a failure, and it left the running jobs twice. -/
theorem outcome_twice :
    ¬∀ s job outcome fault times b,
      OneOutcome job (markRunning job times.startedAt b) (processJob s job outcome fault times b).2 := by
  intro hclaim
  have hone := hclaim {} ⟨2, ⟨.health, .simLocal, some 1, none, none⟩, some 7, 0, none⟩
    (.ok ⟨1, .health, .simLocal, {}, 1, none, none, 0, none, none, none, none, none, none⟩)
    (.raisesAfter (.exc (.other "Connection closed by server."))) ⟨1, 1, 2, 2, 2⟩ {redis := {}}
  rcases hone with hend | hend
  · exact absurd (hend.counted .running) (by decide +kernel)
  · exact absurd (hend.counted .running) (by decide +kernel)

/-! ### The runs of the engine and of multicalls -/

section Worker
variable (s : Settings) (job : QueuedRun) (b : Books)

theorem completeFailure_report (exc : Exc) (now : Time) (r : Redis) :
    completeFailure job (failure s (.exc exc)) now r = (.ok (), r.completeFailure job (report s exc) now) := by
  simp only [completeFailure, failure, dumps_ok (serialisable_values _), encoded_values]
  rfl

/-- Where nothing else raises, Redis is left as the worker's run of the job leaves it. -/
theorem processJob_redis (i : WorkerInputs) (store : ExperimentStore) (readAgain finishedAt failedAt : Time) :
    (processJob s job
      ((runJob s i {job with startedAt := some i.startedAt}).result.mapError Raised.exc) .none
      ⟨i.startedAt, readAgain, finishedAt, failedAt, i.finishedAt⟩ b).2.redis =
        (RunQueue.processJob s i job b.redis store).redis := by
  simp only [processJob, RunQueue.processJob]
  cases (runJob s i {job with startedAt := some i.startedAt}).result with
  | ok run => rfl
  | error exc =>
    simp only [Except.mapError, settle, handleFailure, completeFailure_report]
    rfl

/-- A run of the engine or of a multicall has one outcome where its completion does not raise. -/
theorem runJob_one_outcome (i : WorkerInputs) (times : Times) :
    OneOutcome job (markRunning job times.startedAt b)
      (processJob s job ((runJob s i job).result.mapError Raised.exc) .none times b).2 := by
  cases (runJob s i job).result with
  | ok run => exact .inl (endedAs_succeeded {job with startedAt := some times.startedAt} _ run _ _)
  | error exc =>
    exact .inr (handleFailure_ok {job with startedAt := some times.startedAt} times _ (serialisable_values _)).2

end Worker

end SynQc.RunQueue.Outcomes
