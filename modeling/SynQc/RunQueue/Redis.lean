import SynQc.Jobs.Record

/-! `RedisRunQueue`: what its methods read and write in Redis.

A job is a hash, the queue a list of job ids, and four counters say how many jobs have
each status. Every command is one function on the contents; the commands of a pipeline
run as one MULTI/EXEC and are one function together. A request is written and read back
as JSON, which returns the request that was written. -/
namespace SynQc.RunQueue

open Jobs (JobStatus Report)

/-- A `synqc:runq:job:<id>` hash; a field is there once it was set. -/
structure JobHash where
  status : Option JobStatus := none
  createdAt : Option Time := none
  sessionId : Option SessionId := none
  request : Option RunExperimentRequest := none
  startedAt : Option Time := none
  finishedAt : Option Time := none
  result : Option RunExperimentResponse := none
  error : Option String := none
  errorCode : Option ErrorCode := none
  errorMessage : Option String := none
  errorDetail : Option Detail := none
  actionHint : Option String := none

def JobHash.terminal (h : JobHash) : Bool :=
  match h.status with
  | some status => status.terminal
  | none => false

structure Redis where
  jobs : Dict RunId JobHash := Dict.empty
  pending : List RunId := []
  recent : Dict RunId Time := Dict.empty
  statusCounts : Dict JobStatus Int := Dict.empty
  failureCodes : Dict String Int := Dict.empty
  failureTargets : Dict HardwareTarget Int := Dict.empty

/-- `QueuedRun`: the job as its worker has it. A missing session is `""` in the source. -/
structure QueuedRun where
  id : RunId
  request : RunExperimentRequest
  sessionId : Option SessionId
  createdAt : Time
  startedAt : Option Time := none

namespace Redis

/-- `HSET` of some fields: the others stay, and a missing hash is created. -/
def hset (r : Redis) (id : RunId) (fields : JobHash → JobHash) : Redis :=
  {r with jobs := r.jobs.set id (fields ((r.jobs.get? id).getD {}))}

def hincrby (r : Redis) (status : JobStatus) (n : Int) : Redis :=
  {r with statusCounts := r.statusCounts.incr status n}

/-- A status counter as `stats` reads it. -/
def counted (r : Redis) (status : JobStatus) : Int := (r.statusCounts.get? status).getD 0

/-- The pipeline of `enqueue`. -/
def enqueue (id : RunId) (req : RunExperimentRequest) (sessionId : SessionId) (now : Time) (r : Redis) : Redis :=
  let r := r.hset id fun h => {h with
    status := some .queued, createdAt := some now, sessionId := some sessionId, request := some req}
  let r := {r with pending := r.pending ++ [id], recent := r.recent.set id now}
  r.hincrby .queued 1

/-- The `HGETALL` of `claim_next` and what it makes of the reply; without a hash or a request
there is no job. -/
def claim (id : RunId) (now : Time) (r : Redis) : Option QueuedRun :=
  match r.jobs.get? id with
  | some h =>
    match h.request with
    | some req => some ⟨id, req, h.sessionId, h.createdAt.getD now, none⟩
    | none => none
  | none => none

/-- The `HSET` of `mark_running`. -/
def markHash (job : QueuedRun) (now : Time) (r : Redis) : Redis :=
  r.hset job.id fun h => {h with
    status := some .running, startedAt := some now, createdAt := some job.createdAt}

/-- The pipeline of `mark_running`. -/
def markCounts (r : Redis) : Redis := (r.hincrby .queued (-1)).hincrby .running 1

def completeSuccess (job : QueuedRun) (result : RunExperimentResponse) (now : Time) (r : Redis) : Redis :=
  let r := r.hset job.id fun h => {h with
    status := some .succeeded, finishedAt := some now, result := some result, createdAt := some job.createdAt}
  (r.hincrby .running (-1)).hincrby .succeeded 1

/-- The detail `complete_failure` stores. -/
def detailPayload (report : Report) : Detail :=
  let payload := (report.extra.getD Dict.empty).setDefault "code" (.text report.code.value)
  let payload := payload.setDefault "message" (.text report.message)
  match report.actionHint with
  | some hint => if hint = "" then payload else payload.setDefault "action_hint" (.text hint)
  | none => payload

def completeFailure (job : QueuedRun) (report : Report) (now : Time) (r : Redis) : Redis :=
  let r := r.hset job.id fun h => {h with
    status := some .failed
    finishedAt := some now
    error := some report.message
    errorCode := some report.code
    errorMessage := some report.message
    errorDetail := some (detailPayload report)
    actionHint := some (report.actionHint.getD "")
    createdAt := some job.createdAt}
  let r := (r.hincrby .running (-1)).hincrby .failed 1
  let r := {r with failureCodes := r.failureCodes.incr report.code.value 1}
  if job.request.hardwareTarget = .unknown "" then r
  else {r with failureTargets := r.failureTargets.incr job.request.hardwareTarget 1}

/-- Either end of a job. -/
def complete (job : QueuedRun) (outcome : Except Report RunExperimentResponse) (now : Time) (r : Redis) : Redis :=
  match outcome with
  | .ok result => r.completeSuccess job result now
  | .error report => r.completeFailure job report now

/-! ### `stats` -/

structure Stats where
  total : Int
  queued : Int
  running : Int
  succeeded : Int
  failed : Int
  oldestQueuedAge : Option Time
  maxWorkers : Nat
  failureCodes : Dict String Int
  failuresByTarget : Dict HardwareTarget Int

/-- `stats`, from the contents its pipeline sees. The creation time of the oldest queued job is
read by commands of their own, before and after it. -/
def stats (maxWorkers : Nat) (oldestCreated : Option Time) (now : Time) (r : Redis) : Stats where
  total := r.counted .queued + r.counted .running + r.counted .succeeded + r.counted .failed
  queued := r.counted .queued
  running := r.counted .running
  succeeded := r.counted .succeeded
  failed := r.counted .failed
  oldestQueuedAge := oldestCreated.map fun created => max 0 (now - created)
  maxWorkers := maxWorkers
  failureCodes := r.failureCodes
  failuresByTarget := r.failureTargets

/-! ### What the commands do to one hash and to the counters -/

@[simp] theorem hset_counted (r : Redis) (id : RunId) (fields : JobHash → JobHash) (status : JobStatus) :
    (r.hset id fields).counted status = r.counted status := rfl

theorem hincrby_counted (r : Redis) (status status' : JobStatus) (n : Int) :
    (r.hincrby status n).counted status' = r.counted status' + if status = status' then n else 0 :=
  Dict.getD_incr _ _ _ _

/-- The status a job ends with. -/
def endStatus : Except Report RunExperimentResponse → JobStatus
  | .ok _ => .succeeded
  | .error _ => .failed

theorem claim_some {r : Redis} {id : RunId} {h : JobHash} (hget : r.jobs.get? id = some h)
    (hrequest : h.request.isSome = true) (now : Time) : ∃ job, r.claim id now = some job ∧ job.id = id := by
  obtain ⟨req, hreq⟩ := Option.isSome_iff_exists.mp hrequest
  simp only [claim, hget, hreq]
  exact ⟨_, rfl, rfl⟩

theorem complete_pending (job : QueuedRun) (outcome : Except Report RunExperimentResponse) (now : Time)
    (r : Redis) : (r.complete job outcome now).pending = r.pending := by
  cases outcome with
  | ok result => rfl
  | error report =>
    simp only [complete, completeFailure]
    split <;> rfl

/-- The hash of a completed job. -/
theorem complete_jobs (job : QueuedRun) (outcome : Except Report RunExperimentResponse) (now : Time) (r : Redis) :
    ∃ h : JobHash, h.status = some (endStatus outcome) ∧ h.request = ((r.jobs.get? job.id).getD {}).request ∧
      (∀ run, outcome = .ok run → h.result = some run) ∧
      (∀ report, outcome = .error report → h.errorCode = some report.code) ∧
      (r.complete job outcome now).jobs = r.jobs.set job.id h := by
  cases outcome with
  | ok result =>
    refine ⟨_, ?_, ?_, fun run hrun => ?_, fun report hreport => ?_, rfl⟩
    · rfl
    · rfl
    · rw [← Except.ok.inj hrun]
    · cases hreport
  | error report =>
    simp only [complete, completeFailure]
    split <;> refine ⟨_, ?_, ?_, fun run hrun => ?_, fun report' hreport => ?_, rfl⟩
    any_goals rfl
    all_goals first | cases hrun | rw [← Except.error.inj hreport]

theorem complete_counted (job : QueuedRun) (outcome : Except Report RunExperimentResponse) (now : Time)
    (r : Redis) (status : JobStatus) :
    (r.complete job outcome now).counted status =
      r.counted status + (if .running = status then -1 else 0) + if endStatus outcome = status then 1 else 0 := by
  cases outcome with
  | ok result =>
    simp only [complete, completeSuccess, hincrby_counted, hset_counted, endStatus]
    congr
  | error report =>
    have hcounted : (r.completeFailure job report now).counted status =
        (((r.hset job.id fun h => h).hincrby .running (-1)).hincrby .failed 1).counted status := by
      simp only [completeFailure]
      split <;> rfl
    simp only [complete, hcounted, hincrby_counted, hset_counted, endStatus]
    congr

end Redis

end SynQc.RunQueue
