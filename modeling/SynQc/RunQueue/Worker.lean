import SynQc.Engine.Multicall
import SynQc.Jobs.Job
import SynQc.RunQueue.Redis
import SynQc.Storage.ExperimentStore

/-! The worker's run of one job, and the record it leaves.

`_process_job` runs a multicall under the job's id and adds its result to the store; every
other preset goes to the engine, which is given no run id and so stores its run under a
fresh one. No failure reaches the store. The record the embedded queue leaves is `Kept`: the
run under the job's id, or a failed entry with the job's code. The worker's record is
kept for multicalls that complete and find room, and for nothing else
(`worker_record`). The store is the one of the worker process. -/
namespace SynQc.RunQueue

open Jobs (JobStatus Report Outcome)
open Engine (RunInputs)
open Engine.Multicall (Clock runMulticallAgent)

/-- What `get` returns of a job, from either queue. -/
structure JobView where
  id : RunId
  status : JobStatus
  createdAt : Time
  startedAt : Option Time
  finishedAt : Option Time
  error : Option String
  errorCode : Option ErrorCode
  errorMessage : Option String
  errorDetail : Option Detail
  actionHint : Option String
  result : Option RunExperimentResponse

def JobHash.view (id : RunId) (h : JobHash) : JobView :=
  { id := id
    status := h.status.getD .queued
    createdAt := h.createdAt.getD 0
    startedAt := h.startedAt
    finishedAt := h.finishedAt
    error := h.error
    errorCode := h.errorCode
    errorMessage := h.errorMessage
    errorDetail := h.errorDetail
    actionHint := h.actionHint
    result := h.result }

def Redis.get (r : Redis) (id : RunId) : Option JobView := (r.jobs.get? id).map (JobHash.view id)

/-- `EmbeddedRunQueue.get`, from the job's record. -/
def embeddedView (r : Jobs.JobRecord) : JobView :=
  { id := r.id
    status := r.status
    createdAt := r.createdAt
    startedAt := r.startedAt
    finishedAt := r.finishedAt
    error := r.error
    errorCode := r.errorCode
    errorMessage := r.errorMessage
    errorDetail := r.errorDetail
    actionHint := r.actionHint
    result := r.result }

/-- The record both queues are to leave of a job whose execution added these runs. -/
structure Kept (view : JobView) (store : ExperimentStore) (added : List RunExperimentResponse) : Prop where
  succeeded : view.status = .succeeded →
    ∃ run, view.result = some run ∧ run.id = view.id ∧ store.get view.id = some run
  failed : view.status = .failed →
    ∃ entry, store.get view.id = some entry ∧ entry.kpis.status = .fail ∧ entry.errorCode = view.errorCode
  clean : view.status = .failed → ∀ run ∈ added, store.get run.id = some run → run.kpis.status = .fail

/-! ### `_process_job` -/

/-- What one job takes from outside: the engine's inputs, whether the time ran out before its
result was there, the workflow's clock, and the clock at both ends. -/
structure WorkerInputs where
  engine : RunInputs
  late : Bool
  clock : Clock
  startedAt : Time
  finishedAt : Time

/-- Leaving the executor waits for the call, so a run that comes late is stored all the same. -/
def executeWithTimeout (timeoutSeconds : Int) (late : Bool) (out : Outcome) : Outcome :=
  if timeoutSeconds ≤ 0 then out
  else if late then ⟨out.stored, .error .timeoutError⟩
  else out

/-- `engine.run_experiment(request, session_id)`: no `run_id` is passed. -/
def engineCall (s : Settings) (i : RunInputs) (req : RunExperimentRequest) : Outcome :=
  match Engine.runExperiment s i req none with
  | .ok run => ⟨some run, .ok run⟩
  | .error exc => ⟨none, .error exc⟩

def multicallCall (s : Settings) (clock : Clock) (job : QueuedRun) : Outcome :=
  match runMulticallAgent s clock job.id job.request with
  | .ok run => ⟨some run, .ok run⟩
  | .error exc => ⟨none, .error exc⟩

def runJob (s : Settings) (i : WorkerInputs) (job : QueuedRun) : Outcome :=
  if job.request.preset = .multicallDualClocking then multicallCall s i.clock job
  else executeWithTimeout s.jobTimeoutSeconds i.late (engineCall s i.engine job.request)

/-- The handlers: one for the timeout, before those that the embedded queue has too. -/
def report (s : Settings) : Exc → Report
  | .timeoutError =>
    { code := .timeout
      message := "Job exceeded timeout"
      actionHint := some "Reduce shot budget or wait for fewer concurrent jobs."
      extra := some (Dict.empty.set "timeout_seconds" (.int s.jobTimeoutSeconds)) }
  | exc => Jobs.handlers id "Check worker logs for details and retry after remediation." exc

/-- Redis, the worker's store and what the job added to it, after `_process_job`. -/
structure Processed where
  redis : Redis
  store : ExperimentStore
  added : List RunExperimentResponse

def processJob (s : Settings) (i : WorkerInputs) (job : QueuedRun) (redis : Redis) (store : ExperimentStore) :
    Processed :=
  let job := {job with startedAt := some i.startedAt}
  let out := runJob s i job
  { redis := ((redis.markHash job i.startedAt).markCounts).complete job (out.result.mapError (report s)) i.finishedAt
    store := match out.stored with
      | some run => store.add run
      | none => store
    added := out.stored.toList }

/-! ### What is left -/

section Results
variable {s : Settings} {i : WorkerInputs} {job : QueuedRun} {redis : Redis} {store : ExperimentStore}

/-- The view of a job right after its completion. -/
theorem get_complete (job : QueuedRun) (outcome : Except Report RunExperimentResponse) (now : Time) (r : Redis) :
    ∃ view, (r.complete job outcome now).get job.id = some view ∧ view.id = job.id ∧
      view.status = Redis.endStatus outcome ∧ (∀ run, outcome = .ok run → view.result = some run) ∧
      ∀ report, outcome = .error report → view.errorCode = some report.code := by
  obtain ⟨hash, hstatus, _, hresult, hcode, hjobs⟩ := Redis.complete_jobs job outcome now r
  refine ⟨hash.view job.id, ?_, rfl, ?_, hresult, hcode⟩
  · rw [Redis.get, hjobs, Dict.get?_set_self]
    rfl
  · rw [JobHash.view, hstatus]
    rfl

theorem runJob_multicall (hpreset : job.request.preset = .multicallDualClocking)
    (hcompletes : Engine.Multicall.Completes s i.clock job.request) :
    ∃ run, runJob s i job = ⟨some run, .ok run⟩ ∧ run.id = job.id ∧ run.createdAt = i.clock.created := by
  obtain ⟨run, hrun⟩ : ∃ run, runMulticallAgent s i.clock job.id job.request = .ok run :=
    Engine.Multicall.runMulticallAgent_completes hcompletes
  obtain ⟨_, hid, _, hcreated, _⟩ := Engine.Multicall.runMulticallAgent_ok hrun
  refine ⟨run, ?_, hid, hcreated⟩
  rw [runJob, if_pos hpreset, multicallCall, hrun]

theorem runJob_multicall_failed (hpreset : job.request.preset = .multicallDualClocking)
    (hfails : ¬Engine.Multicall.Completes s i.clock job.request) : ∃ exc, runJob s i job = ⟨none, .error exc⟩ := by
  rw [runJob, if_pos hpreset, multicallCall]
  cases hrun : runMulticallAgent s i.clock job.id job.request with
  | ok run => exact absurd (Engine.Multicall.runMulticallAgent_ok hrun).1 hfails
  | error exc => exact ⟨exc, rfl⟩

theorem engineCall_stored {req : RunExperimentRequest} {inputs : RunInputs} {run : RunExperimentResponse}
    (h : (engineCall s inputs req).stored = some run) : run.id = inputs.uuid := by
  simp only [engineCall] at h
  cases hrun : Engine.runExperiment s inputs req none with
  | ok run' =>
    rw [hrun] at h
    cases h
    exact (Engine.runExperiment_id hrun).1
  | error exc =>
    rw [hrun] at h
    cases h

/-- Whatever the engine stores is under an id of its own. -/
theorem runJob_engine (hpreset : job.request.preset ≠ .multicallDualClocking) {run : RunExperimentResponse}
    (h : (runJob s i job).stored = some run) : run.id = i.engine.uuid := by
  rw [runJob, if_neg hpreset, executeWithTimeout] at h
  split at h
  · exact engineCall_stored h
  · split at h <;> exact engineCall_stored h

/-- Without an entry under the job's id no record of a finished job is kept. -/
theorem not_kept {view : JobView} {store : ExperimentStore} {added : List RunExperimentResponse}
    (hnone : store.get view.id = none) (hover : view.status.terminal = true) : ¬Kept view store added := by
  intro hkept
  cases hstatus : view.status with
  | succeeded =>
    obtain ⟨run, _, _, hrun⟩ := hkept.succeeded hstatus
    cases hnone.symm.trans hrun
  | failed =>
    obtain ⟨entry, hentry, _⟩ := hkept.failed hstatus
    cases hnone.symm.trans hentry
  | queued | running =>
    rw [hstatus] at hover
    cases hover

end Results

/-! ### The embedded queue, for comparison -/

/-- A job's steps in a row: the job afterwards, and what they added to the store. -/
def embeddedRun {ι : Type} (fn : Jobs.WorkerFn ι) (timeoutSeconds : Int) :
    Jobs.Job → List (Jobs.JobEvent ι) → Option (Jobs.Job × List RunExperimentResponse)
  | j, [] => some (j, [])
  | j, e :: rest =>
    match j.step fn timeoutSeconds e with
    | some effect =>
      match embeddedRun fn timeoutSeconds effect.job rest with
      | some (j', added) => some (j', effect.stored.toList ++ added)
      | none => none
    | none => none

/-- The steps of a job that nobody cancels and that is done before its timer fires. -/
def undisturbed (i : RunInputs) (result : Except Exc RunExperimentResponse) : List (Jobs.JobEvent RunInputs) :=
  [.start, .enter i.start, .arm, .call, .work i, .store, .complete i.finish] ++
    (match result with
    | .ok _ => []
    | .error _ => [.persistWorker i.finish]) ++ [.disarm, .close i.finish, .observe]

/-- What is to be seen of a job after its steps. -/
def outcomeOf (p : Jobs.Job × List RunExperimentResponse) :
    RunId × JobStatus × Option RunExperimentResponse × Option ErrorCode × List RunExperimentResponse :=
  (p.1.record.id, p.1.record.status, p.1.record.result, p.1.record.errorCode, p.2)

section Embedded
variable {s : Settings} {i : RunInputs} {j : Jobs.Job} {store : ExperimentStore}

theorem undisturbed_ok (hworker : j.worker = .idle) (hfuture : j.future = .pending)
    (hqueued : j.record.status = .queued) {run : RunExperimentResponse}
    (hresult : (Jobs.engineWorker s i j.record.request j.session j.record.id).result = .ok run) :
    (embeddedRun (Jobs.engineWorker s) s.jobTimeoutSeconds j (undisturbed i (.ok run))).map outcomeOf =
      some (j.record.id, .succeeded, some run, j.record.errorCode, [run]) := by
  have hstored := Jobs.engineWorker_ok hresult
  simp [embeddedRun, undisturbed, Jobs.Job.step, Jobs.Job.start, Jobs.Job.enter, Jobs.Job.arm, Jobs.Job.call,
    Jobs.Job.work, Jobs.Job.store, Jobs.Job.complete, Jobs.Job.disarm, Jobs.Job.close, Jobs.Job.observe, hworker,
    hfuture, hqueued, hresult, hstored, outcomeOf]
  split <;> exact ⟨rfl, rfl, rfl, rfl⟩

theorem undisturbed_error (hworker : j.worker = .idle) (hfuture : j.future = .pending)
    (hqueued : j.record.status = .queued) {exc : Exc}
    (hresult : (Jobs.engineWorker s i j.record.request j.session j.record.id).result = .error exc) :
    ∃ entry, entry.id = j.record.id ∧ entry.kpis.status = .fail ∧ entry.createdAt = i.finish ∧
      entry.errorCode = some (Jobs.report exc).code ∧
      (embeddedRun (Jobs.engineWorker s) s.jobTimeoutSeconds j (undisturbed i (.error exc))).map outcomeOf =
        some (j.record.id, .failed, j.record.result, some (Jobs.report exc).code, [entry]) := by
  have hstored := Jobs.engineWorker_error hresult
  refine ⟨Jobs.failureEntry ({j.record with status := .running, startedAt := some i.start}.fail
    (Jobs.report exc).failure i.finish) i.finish, rfl, rfl, rfl, rfl, ?_⟩
  simp [embeddedRun, undisturbed, Jobs.Job.step, Jobs.Job.start, Jobs.Job.enter, Jobs.Job.arm, Jobs.Job.call,
    Jobs.Job.work, Jobs.Job.store, Jobs.Job.complete, Jobs.Job.persistWorker, Jobs.Job.disarm, Jobs.Job.close,
    Jobs.Job.observe, Jobs.Job.fail, Jobs.JobRecord.fail, Jobs.Report.failure, hworker, hfuture, hqueued, hresult,
    hstored, outcomeOf]

/-- The embedded queue adds one entry, under the job's id; with room for it the record is kept,
whatever the engine's outcome. -/
theorem embedded_record (hworker : j.worker = .idle) (hfuture : j.future = .pending)
    (hqueued : j.record.status = .queued) (hnew : store.get j.record.id = none) :
    ∃ j' entry, embeddedRun (Jobs.engineWorker s) s.jobTimeoutSeconds j
        (undisturbed i (Jobs.engineWorker s i j.record.request j.session j.record.id).result) = some (j', [entry]) ∧
      entry.id = j.record.id ∧
      (store.HasRoom entry.createdAt → Kept (embeddedView j'.record) (store.add entry) [entry]) := by
  cases hresult : (Jobs.engineWorker s i j.record.request j.session j.record.id).result with
  | ok run =>
    obtain ⟨hid, hcode, _⟩ := Jobs.engineWorker_stored (Jobs.engineWorker_ok hresult)
    obtain ⟨⟨j', added⟩, hrun, hseen⟩ := Option.map_eq_some_iff.mp (undisturbed_ok hworker hfuture hqueued hresult)
    simp only [outcomeOf, Prod.mk.injEq] at hseen
    obtain ⟨hjob, hstatus, hrecord, _, rfl⟩ := hseen
    refine ⟨j', run, hrun, hid, fun hroom => ?_⟩
    have hstored := (store.get_add_self (hid ▸ hnew)).mpr hroom
    refine ⟨fun _ => ⟨run, hrecord, hid.trans hjob.symm, ?_⟩, fun hs => ?_, fun hs => ?_⟩
    · show (store.add run).get j'.record.id = some run
      rw [hjob, ← hid]
      exact hstored
    · cases hstatus.symm.trans hs
    · cases hstatus.symm.trans hs
  | error exc =>
    obtain ⟨entry, hid, hfail, hcreated, hcode, hmap⟩ := undisturbed_error hworker hfuture hqueued hresult
    obtain ⟨⟨j', added⟩, hrun, hseen⟩ := Option.map_eq_some_iff.mp hmap
    simp only [outcomeOf, Prod.mk.injEq] at hseen
    obtain ⟨hjob, hstatus, _, hrecord, rfl⟩ := hseen
    refine ⟨j', entry, hrun, hid, fun hroom => ?_⟩
    have hstored := (store.get_add_self (hid ▸ hnew)).mpr hroom
    refine ⟨fun hs => ?_, fun _ => ⟨entry, ?_, hfail, hcode.trans hrecord.symm⟩, fun _ run hmem _ => ?_⟩
    · cases hstatus.symm.trans hs
    · show (store.add entry).get j'.record.id = some entry
      rw [hjob, ← hid]
      exact hstored
    · rw [List.mem_singleton.mp hmem]
      exact hfail

end Embedded

/-- **The worker leaves the record the embedded queue leaves exactly for a multicall that
completes and finds room in the store.** The engine's own id is a fresh one, and the job's is
not in the store before. -/
theorem worker_record (s : Settings) (i : WorkerInputs) (job : QueuedRun) (redis : Redis) (store : ExperimentStore)
    (huuid : i.engine.uuid ≠ job.id) (hnew : store.get job.id = none) :
    ∃ view, (processJob s i job redis store).redis.get job.id = some view ∧
      (Kept view (processJob s i job redis store).store (processJob s i job redis store).added ↔
        job.request.preset = .multicallDualClocking ∧ Engine.Multicall.Completes s i.clock job.request ∧
          store.HasRoom i.clock.created) := by
  obtain ⟨view, hview, hid, hstatus, hresult, _⟩ := get_complete {job with startedAt := some i.startedAt}
    ((runJob s i {job with startedAt := some i.startedAt}).result.mapError (report s)) i.finishedAt
    ((redis.markHash {job with startedAt := some i.startedAt} i.startedAt).markCounts)
  refine ⟨view, hview, ?_⟩
  have hover : view.status.terminal = true := by
    rw [hstatus]
    cases (runJob s i {job with startedAt := some i.startedAt}).result <;> rfl
  have hid' : view.id = job.id := hid
  simp only [processJob]
  by_cases hpreset : job.request.preset = .multicallDualClocking
  · by_cases hcompletes : Engine.Multicall.Completes s i.clock job.request
    · obtain ⟨run, hrun, hrunid, hcreated⟩ : ∃ run, runJob s i {job with startedAt := some i.startedAt} =
          ⟨some run, .ok run⟩ ∧ run.id = job.id ∧ run.createdAt = i.clock.created := runJob_multicall hpreset hcompletes
      rw [hrun] at hstatus hresult
      have hsucceeded : view.status = .succeeded := hstatus
      have hget := store.get_add_self (hrunid ▸ hnew : store.get run.id = none)
      rw [hrun, ← hcreated]
      simp only [hpreset, hcompletes, true_and]
      constructor
      · intro hkept
        obtain ⟨run', hrun', _, hstored⟩ := hkept.succeeded hsucceeded
        cases (hresult run rfl).symm.trans hrun'
        rw [hid', ← show run.id = job.id from hrunid] at hstored
        exact hget.mp hstored
      · intro hroom
        have hstored := hget.mpr hroom
        refine ⟨fun _ => ⟨run, hresult run rfl, hrunid.trans hid'.symm, ?_⟩, fun hs => ?_, fun hs => ?_⟩
        · rw [hid', ← show run.id = job.id from hrunid]
          exact hstored
        · cases hsucceeded.symm.trans hs
        · cases hsucceeded.symm.trans hs
    · obtain ⟨exc, hrun⟩ : ∃ exc, runJob s i {job with startedAt := some i.startedAt} = ⟨none, .error exc⟩ :=
        runJob_multicall_failed hpreset hcompletes
      rw [hrun]
      refine iff_of_false (not_kept ?_ hover) fun h => hcompletes h.2.1
      rw [hid']
      exact hnew
  · refine iff_of_false (not_kept ?_ hover) fun h => hpreset h.1
    rw [hid']
    cases hstored : (runJob s i {job with startedAt := some i.startedAt}).stored with
    | none => exact hnew
    | some run =>
      have hrunid : run.id = i.engine.uuid := runJob_engine hpreset hstored
      rcases store.get_add run job.id with hnone | hsome
      · exact hnone
      · rw [hsome, if_neg (by rw [hrunid]; exact huuid)]
        exact hnew

theorem worker_record_multicall :
    ∃ view, (processJob {} ⟨Engine.plainInputs none, false, ⟨0, fun _ => 1, 2⟩, 0, 3⟩
        ⟨2, ⟨.multicallDualClocking, .simLocal, some 4, none, none⟩, some 7, 0, none⟩ {} {}).redis.get 2 = some view ∧
      Kept view (processJob {} ⟨Engine.plainInputs none, false, ⟨0, fun _ => 1, 2⟩, 0, 3⟩
        ⟨2, ⟨.multicallDualClocking, .simLocal, some 4, none, none⟩, some 7, 0, none⟩ {} {}).store
        (processJob {} ⟨Engine.plainInputs none, false, ⟨0, fun _ => 1, 2⟩, 0, 3⟩
        ⟨2, ⟨.multicallDualClocking, .simLocal, some 4, none, none⟩, some 7, 0, none⟩ {} {}).added := by
  obtain ⟨view, hview, hkept⟩ := worker_record {} ⟨Engine.plainInputs none, false, ⟨0, fun _ => 1, 2⟩, 0, 3⟩
    ⟨2, ⟨.multicallDualClocking, .simLocal, some 4, none, none⟩, some 7, 0, none⟩ {} {} (by decide) rfl
  exact ⟨view, hview, hkept.mpr ⟨rfl, by decide +kernel, .inl (by decide)⟩⟩

/-- A run that succeeds on the worker is returned and stored under another id than the job's. -/
theorem worker_record_lost :
    ¬∀ s i job redis store, i.engine.uuid ≠ job.id → store.get job.id = none →
      ∃ view, (processJob s i job redis store).redis.get job.id = some view ∧
        Kept view (processJob s i job redis store).store (processJob s i job redis store).added := by
  intro hclaim
  obtain ⟨view, hview, hkept⟩ := hclaim {} ⟨Engine.plainInputs none, false, ⟨0, fun _ => 1, 2⟩, 0, 3⟩
    ⟨2, ⟨.health, .simLocal, some 1, none, none⟩, some 7, 0, none⟩ {} {} (by decide) rfl
  have hseen : ((processJob {} ⟨Engine.plainInputs none, false, ⟨0, fun _ => 1, 2⟩, 0, 3⟩
      ⟨2, ⟨.health, .simLocal, some 1, none, none⟩, some 7, 0, none⟩ {} {}).redis.get 2).map (fun view =>
      (view.id, view.status, view.result.map fun run => run.id)) = some (2, .succeeded, some 1) := by
    decide +kernel
  rw [hview, Option.map_some, Option.some.injEq, Prod.mk.injEq, Prod.mk.injEq] at hseen
  obtain ⟨hid, hstatus, hrunid⟩ := hseen
  obtain ⟨run, hrun, hsame, _⟩ := hkept.succeeded hstatus
  rw [hrun, Option.map_some, hsame, hid] at hrunid
  cases hrunid

end SynQc.RunQueue
