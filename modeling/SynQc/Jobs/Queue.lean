import SynQc.Jobs.Job
import SynQc.Library.Transition
import SynQc.Storage.ExperimentStore

/-! The embedded job queue, over all interleavings.

`enqueue` goes through three sections of the lock, with the hand-over to the thread pool
between the last two; from then on a job steps by itself (`Job.step`), and what it counts
and stores is applied to the queue. Shutting down is two steps: the flag and the cancel
events under the lock, then the pool, which cancels what has not started. The size of the
pool bounds how many jobs run at once; no more than that is assumed of its threads, and
nothing here depends on it. Job ids are fresh, as uuids are.

Every step of the queue is a `Change`: nothing of note, a move of one job, a touch that
leaves all records alone, or a new queued job. The state machine of the records
(`job_state_machine`) is read off that. -/
namespace SynQc.Jobs

inductive EnqueuePhase where
  | checked
  | registered (id : RunId)
  | submitted (id : RunId)
  | returned (id : RunId)
  | raised (message : String)

structure EnqueueCall where
  request : RunExperimentRequest
  session : SessionId
  phase : EnqueuePhase

structure Config where
  maxPending : Nat := 1000
  jobTimeoutSeconds : Int := 0

structure Queue where
  jobs : Dict RunId Job
  failureCounts : Dict String Nat
  shutdown : Bool
  executorDown : Bool
  calls : Dict Nat EnqueueCall
  store : ExperimentStore
  /-- The last run added to the store under each id. -/
  written : Dict RunId RunExperimentResponse

inductive Event (ι : Type) where
  | enqueue (c : Nat) (request : RunExperimentRequest) (session : SessionId)
  | register (c : Nat) (id : RunId) (now : Time)
  | submit (c : Nat)
  | keep (c : Nat)
  | job (id : RunId) (e : JobEvent ι)
  | shutdown
  | shutdownExecutor

namespace Queue

/-- `self._failure_counts[code] = self._failure_counts.get(code, 0) + 1` -/
def count (counts : Dict String Nat) : Option String → Dict String Nat
  | some key => counts.set key ((counts.get? key).getD 0 + 1)
  | none => counts

def apply (q : Queue) (id : RunId) (effect : Effect) : Queue :=
  {q with
    jobs := q.jobs.set id effect.job
    failureCounts := count q.failureCounts effect.counted
    store := match effect.stored with
      | some run => q.store.add run
      | none => q.store
    written := match effect.stored with
      | some run => q.written.set run.id run
      | none => q.written}

def setCall (q : Queue) (c : Nat) (call : EnqueueCall) (phase : EnqueuePhase) : Queue :=
  {q with calls := q.calls.set c {call with phase := phase}}

/-! ### Counting -/

def withStatus (q : Queue) (status : JobStatus) : Nat :=
  q.jobs.total fun _ j => if j.record.status = status then 1 else 0

/-- FAILED records with an error code. -/
def failedWith (q : Queue) (code : ErrorCode) : Nat :=
  q.jobs.total fun _ j => if j.record.status = .failed ∧ j.record.errorCode = some code then 1 else 0

structure Stats where
  total : Nat
  queued : Nat
  running : Nat
  succeeded : Nat
  failed : Nat
  oldestQueuedAge : Option Time
  maxPending : Nat
  jobTimeoutSeconds : Int
  failureCodes : Dict String Nat

/-- The longest wait of a queued record. -/
def oldestQueuedAge (q : Queue) (now : Time) : Option Time :=
  q.jobs.values.foldl (fun age j =>
    if j.record.status = .queued then
      match age with
      | none => some (now - j.record.createdAt)
      | some a => if now - j.record.createdAt > a then some (now - j.record.createdAt) else some a
    else age) none

def stats (cfg : Config) (q : Queue) (now : Time) : Stats where
  total := q.jobs.size
  queued := q.withStatus .queued
  running := q.withStatus .running
  succeeded := q.withStatus .succeeded
  failed := q.withStatus .failed
  oldestQueuedAge := q.oldestQueuedAge now
  maxPending := cfg.maxPending
  jobTimeoutSeconds := cfg.jobTimeoutSeconds
  failureCodes := q.failureCounts

/-! ### Sections -/

/-- The first section of `enqueue`: refuse while shutting down or full. -/
def enqueue (cfg : Config) (c : Nat) (request : RunExperimentRequest) (session : SessionId) (q : Queue) :
    Option Queue :=
  match q.calls.get? c with
  | some _ => none
  | none =>
    let call : EnqueueCall := ⟨request, session, .checked⟩
    if q.shutdown then
      some (q.setCall c call (.raised "JobQueue is shutting down; cannot enqueue new jobs"))
    else if q.withStatus .queued + q.withStatus .running ≥ cfg.maxPending then
      some (q.setCall c call (.raised "Queue is full; try again later"))
    else some (q.setCall c call .checked)

def newJob (id : RunId) (call : EnqueueCall) (now : Time) : Job where
  record := { id := id, request := call.request, createdAt := now }
  session := call.session

/-- The second section, under a fresh id. -/
def register (c : Nat) (id : RunId) (now : Time) (q : Queue) : Option Queue :=
  match q.calls.get? c with
  | some call =>
    match call.phase, q.jobs.get? id, q.store.get id with
    | .checked, none, none =>
      some ({q with jobs := q.jobs.set id (newJob id call now)}.setCall c call (.registered id))
    | _, _, _ => none
  | none => none

/-- `self._executor.submit`, which raises once the pool is shut down. -/
def submit (c : Nat) (q : Queue) : Option Queue :=
  match q.calls.get? c with
  | some call =>
    match call.phase with
    | .registered id =>
      if q.executorDown then
        some (q.setCall c call (.raised "cannot schedule new futures after shutdown"))
      else
        match q.jobs.get? id with
        | some j => some ((q.apply id ⟨{j with future := .pending}, none, none⟩).setCall c call (.submitted id))
        | none => none
    | _ => none
  | none => none

/-- The third section: `self._futures[job_id] = future`. -/
def keep (c : Nat) (q : Queue) : Option Queue :=
  match q.calls.get? c with
  | some call =>
    match call.phase with
    | .submitted id =>
      match q.jobs.get? id with
      | some j => some ((q.apply id ⟨{j with kept := true}, none, none⟩).setCall c call (.returned id))
      | none => none
    | _ => none
  | none => none

def job {ι : Type} (fn : WorkerFn ι) (cfg : Config) (id : RunId) (e : JobEvent ι) (q : Queue) : Option Queue :=
  match q.jobs.get? id with
  | some j => (j.step fn cfg.jobTimeoutSeconds e).map fun effect => q.apply id effect
  | none => none

def signal (j : Job) : Job := {j with cancelEvent := true}

/-- `work_item.future.cancel()` for what still waits in the pool. -/
def drain (j : Job) : Job := {j with future := if j.future = .pending then .cancelled else j.future}

/-- The locked part of `shutdown`. -/
def shutDown (q : Queue) : Option Queue :=
  some {q with shutdown := true, jobs := q.jobs.mapValues signal}

/-- `executor.shutdown(cancel_futures=True)` -/
def shutDownExecutor (q : Queue) : Option Queue :=
  if q.shutdown then
    some {q with executorDown := true, jobs := q.jobs.mapValues drain}
  else none

end Queue

/-- The embedded queue around a worker function. -/
def queue {ι : Type} (fn : WorkerFn ι) (cfg : Config) : Transition.System Queue (Event ι) where
  init q := q.jobs = Dict.empty ∧ q.failureCounts = Dict.empty ∧ q.calls = Dict.empty ∧
    q.written = Dict.empty ∧ q.shutdown = false ∧ q.executorDown = false
  step
    | .enqueue c request session => Queue.enqueue cfg c request session
    | .register c id now => Queue.register c id now
    | .submit c => Queue.submit c
    | .keep c => Queue.keep c
    | .job id e => Queue.job fn cfg id e
    | .shutdown => Queue.shutDown
    | .shutdownExecutor => Queue.shutDownExecutor

/-! ### What a step can do -/

namespace Queue

/-- QUEUED and RUNNING together, as `enqueue` counts them. -/
def active (q : Queue) : Nat := q.withStatus .queued + q.withStatus .running

/-- The steps, one constructor for each way a section can go. -/
inductive Step {ι : Type} (fn : WorkerFn ι) (cfg : Config) (q : Queue) : Event ι → Queue → Prop where
  | closed {c : Nat} {request : RunExperimentRequest} {session : SessionId} (hnew : q.calls.get? c = none)
      (hdown : q.shutdown = true) :
      Step fn cfg q (.enqueue c request session) (q.setCall c ⟨request, session, .checked⟩
        (.raised "JobQueue is shutting down; cannot enqueue new jobs"))
  | full {c : Nat} {request : RunExperimentRequest} {session : SessionId} (hnew : q.calls.get? c = none)
      (hopen : q.shutdown = false) (hfull : cfg.maxPending ≤ q.active) :
      Step fn cfg q (.enqueue c request session) (q.setCall c ⟨request, session, .checked⟩
        (.raised "Queue is full; try again later"))
  | check {c : Nat} {request : RunExperimentRequest} {session : SessionId} (hnew : q.calls.get? c = none)
      (hopen : q.shutdown = false) (hroom : q.active < cfg.maxPending) :
      Step fn cfg q (.enqueue c request session) (q.setCall c ⟨request, session, .checked⟩ .checked)
  | register {c : Nat} {id : RunId} {now : Time} {call : EnqueueCall} (hcall : q.calls.get? c = some call)
      (hphase : call.phase = .checked) (hfresh : q.jobs.get? id = none) (hunknown : q.store.get id = none) :
      Step fn cfg q (.register c id now)
        ({q with jobs := q.jobs.set id (newJob id call now)}.setCall c call (.registered id))
  | refuse {c : Nat} {id : RunId} {call : EnqueueCall} (hcall : q.calls.get? c = some call)
      (hphase : call.phase = .registered id) (hdown : q.executorDown = true) :
      Step fn cfg q (.submit c) (q.setCall c call (.raised "cannot schedule new futures after shutdown"))
  | submit {c : Nat} {id : RunId} {call : EnqueueCall} {j : Job} (hcall : q.calls.get? c = some call)
      (hphase : call.phase = .registered id) (hup : q.executorDown = false) (hjob : q.jobs.get? id = some j) :
      Step fn cfg q (.submit c) ((q.apply id ⟨{j with future := .pending}, none, none⟩).setCall c call (.submitted id))
  | keep {c : Nat} {id : RunId} {call : EnqueueCall} {j : Job} (hcall : q.calls.get? c = some call)
      (hphase : call.phase = .submitted id) (hjob : q.jobs.get? id = some j) :
      Step fn cfg q (.keep c) ((q.apply id ⟨{j with kept := true}, none, none⟩).setCall c call (.returned id))
  | job {id : RunId} {e : JobEvent ι} {j : Job} {effect : Effect} (hjob : q.jobs.get? id = some j)
      (hstep : j.step fn cfg.jobTimeoutSeconds e = some effect) : Step fn cfg q (.job id e) (q.apply id effect)
  | shutdown : Step fn cfg q .shutdown {q with shutdown := true, jobs := q.jobs.mapValues signal}
  | shutdownExecutor (hdown : q.shutdown = true) :
      Step fn cfg q .shutdownExecutor {q with executorDown := true, jobs := q.jobs.mapValues drain}

theorem step_some {ι : Type} {fn : WorkerFn ι} {cfg : Config} {e : Event ι} {q u : Queue}
    (h : (queue fn cfg).step e q = some u) : Step fn cfg q e u := by
  cases e with
  | enqueue c request session =>
    change enqueue cfg c request session q = some u at h
    simp only [enqueue] at h
    split at h
    · cases h
    · rename_i hnew
      split at h
      · rename_i hdown
        cases h
        exact .closed hnew hdown
      · rename_i hopen
        rw [Bool.not_eq_true] at hopen
        split at h
        · rename_i hfull
          cases h
          exact .full hnew hopen hfull
        · rename_i hroom
          cases h
          exact .check hnew hopen (Nat.not_le.mp hroom)
  | register c id now =>
    change register c id now q = some u at h
    simp only [register] at h
    split at h
    · rename_i call hcall
      split at h
      · rename_i hphase hfresh hunknown
        cases h
        exact .register hcall hphase hfresh hunknown
      · cases h
    · cases h
  | submit c =>
    change submit c q = some u at h
    simp only [submit] at h
    split at h
    · rename_i call hcall
      split at h
      · rename_i id hphase
        split at h
        · rename_i hdown
          cases h
          exact .refuse hcall hphase hdown
        · rename_i hup
          rw [Bool.not_eq_true] at hup
          split at h
          · rename_i j hj
            cases h
            exact .submit hcall hphase hup hj
          · cases h
      · cases h
    · cases h
  | keep c =>
    change keep c q = some u at h
    simp only [keep] at h
    split at h
    · rename_i call hcall
      split at h
      · rename_i id hphase
        split at h
        · rename_i j hj
          cases h
          exact .keep hcall hphase hj
        · cases h
      · cases h
    · cases h
  | job id e =>
    change job fn cfg id e q = some u at h
    simp only [job] at h
    split at h
    · rename_i j hj
      obtain ⟨effect, heffect, rfl⟩ := Option.map_eq_some_iff.mp h
      exact .job hj heffect
    · cases h
  | shutdown =>
    cases h
    exact .shutdown
  | shutdownExecutor =>
    change shutDownExecutor q = some u at h
    simp only [shutDownExecutor] at h
    split at h
    · rename_i hdown
      cases h
      exact .shutdownExecutor hdown
    · cases h

/-- And each of these ways is a step. -/
theorem Step.run {ι : Type} {fn : WorkerFn ι} {cfg : Config} {e : Event ι} {q u : Queue} (h : Step fn cfg q e u) :
    (queue fn cfg).step e q = some u := by
  cases h with
  | @closed c request session hnew hdown =>
    show enqueue cfg c request session q = _
    simp only [enqueue, hnew, hdown, if_true]
  | @full c request session hnew hopen hfull =>
    show enqueue cfg c request session q = _
    simp only [enqueue, hnew, hopen, Bool.false_eq_true, if_false]
    exact if_pos hfull
  | @check c request session hnew hopen hroom =>
    show enqueue cfg c request session q = _
    simp only [enqueue, hnew, hopen, Bool.false_eq_true, if_false]
    exact if_neg (Nat.not_le.mpr hroom)
  | @register c id now call hcall hphase hfresh hunknown =>
    show Queue.register c id now q = _
    simp only [Queue.register, hcall, hphase, hfresh, hunknown]
  | @refuse c id call hcall hphase hdown =>
    show Queue.submit c q = _
    simp only [Queue.submit, hcall, hphase, hdown, if_true]
  | @submit c id call j hcall hphase hup hjob =>
    show Queue.submit c q = _
    simp only [Queue.submit, hcall, hphase, hup, hjob, Bool.false_eq_true, if_false]
  | @keep c id call j hcall hphase hjob =>
    show Queue.keep c q = _
    simp only [Queue.keep, hcall, hphase, hjob]
  | @job id e j effect hjob hstep =>
    show Queue.job fn cfg id e q = _
    simp only [Queue.job, hjob, hstep, Option.map_some]
  | shutdown => rfl
  | shutdownExecutor hdown =>
    show shutDownExecutor q = _
    simp only [shutDownExecutor, hdown, if_true]

end Queue

/-! ### What a step changes -/

/-- A job whose record and history are left alone. -/
structure Quiet (j j' : Job) : Prop where
  record : j'.record = j.record
  worker : j'.worker = j.worker
  calls : j'.calls = j.calls
  wins : j'.wins = j.wins
  cancelledQueued : j'.cancelledQueued = j.cancelledQueued

theorem Quiet.ok {j j' : Job} (h : Quiet j j') (hok : j.Ok) : j'.Ok := by
  refine hok.advance (by rw [h.record]) (by rw [h.record]) h.wins h.cancelledQueued h.calls ?_ ?_ ?_
  · rw [h.worker]
    exact hok.stage
  · rw [h.worker]
    exact id
  · rw [h.worker]
    exact fun hc => (hok.cancelled hc).2.2

theorem Quiet.move {j : Job} {effect : Effect} (h : Quiet j effect.job) (hcounted : effect.counted = none) :
    Job.Move j effect := .still (by rw [h.record]) hcounted h.wins

theorem quiet_pending (j : Job) : Quiet j {j with future := .pending} := ⟨rfl, rfl, rfl, rfl, rfl⟩

theorem quiet_kept (j : Job) : Quiet j {j with kept := true} := ⟨rfl, rfl, rfl, rfl, rfl⟩

theorem quiet_signal (j : Job) : Quiet j (Queue.signal j) := ⟨rfl, rfl, rfl, rfl, rfl⟩

theorem quiet_drain (j : Job) : Quiet j (Queue.drain j) := ⟨rfl, rfl, rfl, rfl, rfl⟩

section Jobs
variable {ι : Type} {fn : WorkerFn ι} {cfg : Config} {e : Event ι} {q u : Queue}

/-- What holds of every job still does after a step, if it holds of new jobs, if a job's own
steps keep it and if it is not about the job's place in the pool. -/
theorem forall_jobs_step {P : Job → Prop} (hquiet : ∀ j j', Quiet j j' → P j → P j')
    (hnew : ∀ id call now, P (Queue.newJob id call now))
    (hstep : ∀ id act j effect, e = .job id act → q.jobs.get? id = some j →
      j.step fn cfg.jobTimeoutSeconds act = some effect → P effect.job)
    (hq : ∀ id j, q.jobs.get? id = some j → P j) (h : (queue fn cfg).step e q = some u) :
    ∀ id j, u.jobs.get? id = some j → P j := by
  cases Queue.step_some h with
  | closed | full | check | refuse => exact hq
  | register => exact Dict.forall_set hq (hnew _ _ _)
  | submit _ _ _ hj => exact Dict.forall_set hq (hquiet _ _ (quiet_pending _) (hq _ _ hj))
  | keep _ _ hj => exact Dict.forall_set hq (hquiet _ _ (quiet_kept _) (hq _ _ hj))
  | job hj heffect => exact Dict.forall_set hq (hstep _ _ _ _ rfl hj heffect)
  | shutdown => exact Dict.forall_mapValues hq fun j => hquiet j _ (quiet_signal j)
  | shutdownExecutor => exact Dict.forall_mapValues hq fun j => hquiet j _ (quiet_drain j)

/-- A job that is there is there after a step: it took a step of its own, or is left alone. -/
theorem job_of_step {id : RunId} {j : Job} (hj : q.jobs.get? id = some j) (h : (queue fn cfg).step e q = some u) :
    ∃ j', u.jobs.get? id = some j' ∧
      ((∃ act effect, e = .job id act ∧ j.step fn cfg.jobTimeoutSeconds act = some effect ∧ j' = effect.job) ∨
        (∀ act, e ≠ .job id act) ∧ Quiet j j') := by
  have hsame : ∀ j, Quiet j j := fun _ => ⟨rfl, rfl, rfl, rfl, rfl⟩
  cases Queue.step_some h with
  | closed | full | check | refuse => exact ⟨j, hj, .inr ⟨nofun, hsame j⟩⟩
  | register _ _ hfresh _ => exact ⟨j, Dict.get?_set_new hfresh hj _, .inr ⟨nofun, hsame j⟩⟩
  | submit _ _ _ hk =>
    obtain ⟨j', hj', hquiet⟩ := Dict.get?_set_related hsame hk (quiet_pending _) hj
    exact ⟨j', hj', .inr ⟨nofun, hquiet⟩⟩
  | keep _ _ hk =>
    obtain ⟨j', hj', hquiet⟩ := Dict.get?_set_related hsame hk (quiet_kept _) hj
    exact ⟨j', hj', .inr ⟨nofun, hquiet⟩⟩
  | @job other act k effect hk heffect =>
    by_cases hid : other = id
    · subst hid
      cases hj.symm.trans hk
      exact ⟨effect.job, Dict.get?_set_self _ _ _, .inl ⟨act, effect, rfl, heffect, rfl⟩⟩
    · refine ⟨j, (Dict.get?_set_ne _ _ hid).trans hj, .inr ⟨fun act' heq => ?_, hsame j⟩⟩
      cases heq
      exact hid rfl
  | shutdown => exact ⟨_, by rw [Dict.get?_mapValues, hj]; rfl, .inr ⟨nofun, quiet_signal j⟩⟩
  | shutdownExecutor => exact ⟨_, by rw [Dict.get?_mapValues, hj]; rfl, .inr ⟨nofun, quiet_drain j⟩⟩

section Totals
variable {M : Type} [AddCommMonoid M] {f : Job → M}

theorem total_mapValues_quiet {g : Job → Job} (hf : ∀ j, f (g j) = f j) :
    ((q.jobs.mapValues g).total fun _ k => f k) = q.jobs.total fun _ k => f k := by
  rw [Dict.total_mapValues]
  exact Dict.total_congr fun _ j _ => hf j

theorem total_set_quiet [IsRightCancelAdd M] {id : RunId} {j j' : Job} (hj : q.jobs.get? id = some j) (hf : f j' = f j) :
    ((q.jobs.set id j').total fun _ k => f k) = q.jobs.total fun _ k => f k := by
  have hset := Dict.total_set_some hj (fun _ k => f k) j'
  rw [hf] at hset
  exact add_right_cancel hset

/-- How a total over the jobs changes: by the job that is new, or by the job that steps. -/
theorem jobs_total_step [IsRightCancelAdd M] (hf : ∀ j j', Quiet j j' → f j' = f j) (h : (queue fn cfg).step e q = some u) :
    (∃ c id now call, e = .register c id now ∧ q.calls.get? c = some call ∧ call.phase = .checked ∧
      u.calls = q.calls.set c {call with phase := .registered id} ∧
      (u.jobs.total fun _ k => f k) = (q.jobs.total fun _ k => f k) + f (Queue.newJob id call now)) ∨
    (∃ id act j effect, e = .job id act ∧ q.jobs.get? id = some j ∧
      j.step fn cfg.jobTimeoutSeconds act = some effect ∧ u.calls = q.calls ∧
      (u.jobs.total fun _ k => f k) + f j = (q.jobs.total fun _ k => f k) + f effect.job) ∨
    (∀ id act, e ≠ .job id act) ∧ (∀ c id now, e ≠ .register c id now) ∧
      (u.jobs.total fun _ k => f k) = q.jobs.total fun _ k => f k := by
  cases Queue.step_some h with
  | closed | full | check | refuse => exact .inr (.inr ⟨nofun, nofun, rfl⟩)
  | @register c id now call hcall hphase hfresh _ =>
    exact .inl ⟨c, id, now, call, rfl, hcall, hphase, rfl, Dict.total_set_none hfresh (fun _ k => f k) _⟩
  | submit _ _ _ hj => exact .inr (.inr ⟨nofun, nofun, total_set_quiet hj (hf _ _ (quiet_pending _))⟩)
  | keep _ _ hj => exact .inr (.inr ⟨nofun, nofun, total_set_quiet hj (hf _ _ (quiet_kept _))⟩)
  | @job id act j effect hj heffect =>
    exact .inr (.inl ⟨id, act, j, effect, rfl, hj, heffect, rfl, Dict.total_set_some hj (fun _ k => f k) _⟩)
  | shutdown => exact .inr (.inr ⟨nofun, nofun, total_mapValues_quiet fun j => hf j _ (quiet_signal j)⟩)
  | shutdownExecutor => exact .inr (.inr ⟨nofun, nofun, total_mapValues_quiet fun j => hf j _ (quiet_drain j)⟩)

end Totals

end Jobs

inductive Change (q u : Queue) : Prop where
  | same (jobs : u.jobs = q.jobs) (counts : u.failureCounts = q.failureCounts)
  | touch (f : Job → Job) (quiet : ∀ j, Quiet j (f j)) (jobs : u.jobs = q.jobs.mapValues f)
      (counts : u.failureCounts = q.failureCounts)
  | move (id : RunId) (j : Job) (effect : Effect) (found : q.jobs.get? id = some j)
      (move : j.Move effect) (ok : effect.job.Ok)
      (cancelled : j.cancelledQueued = true → effect.job.cancelledQueued = true)
      (jobs : u.jobs = q.jobs.set id effect.job)
      (counts : u.failureCounts = Queue.count q.failureCounts effect.counted)
  | new (id : RunId) (j : Job) (fresh : q.jobs.get? id = none) (ok : j.Ok)
      (queued : j.record.status = .queued) (jobs : u.jobs = q.jobs.set id j)
      (counts : u.failureCounts = q.failureCounts)

/-- That a cancel found the job queued is not forgotten. -/
theorem step_cancelledQueued {ι : Type} {fn : WorkerFn ι} {timeoutSeconds : Int} {e : JobEvent ι} {j : Job}
    {effect : Effect} (h : j.step fn timeoutSeconds e = some effect) (hc : j.cancelledQueued = true) :
    effect.job.cancelledQueued = true := by
  cases Job.step_some h with
  | expire | cancel => simp [Job.abandon, hc]
  | _ => exact hc

theorem newJob_ok (id : RunId) (call : EnqueueCall) (now : Time) : (Queue.newJob id call now).Ok where
  stage := .inl rfl
  uncalled _ := rfl
  once := Nat.zero_le 1
  cancelled h := nomatch h
  wins := rfl
  coded h := nomatch h

theorem step_change {ι : Type} {fn : WorkerFn ι} {cfg : Config} {e : Event ι} {q u : Queue}
    (hok : ∀ id j, q.jobs.get? id = some j → j.Ok) (h : (queue fn cfg).step e q = some u) : Change q u := by
  cases Queue.step_some h with
  | closed | full | check | refuse => exact .same rfl rfl
  | @register _ id now call _ _ hfresh _ => exact .new id _ hfresh (newJob_ok id call now) rfl rfl rfl
  | @submit _ id _ j _ _ _ hj =>
    have hquiet := quiet_pending j
    exact .move id j ⟨_, none, none⟩ hj (hquiet.move rfl) (hquiet.ok (hok id j hj)) (fun hc => hc) rfl rfl
  | @keep _ id _ j _ _ hj =>
    have hquiet := quiet_kept j
    exact .move id j ⟨_, none, none⟩ hj (hquiet.move rfl) (hquiet.ok (hok id j hj)) (fun hc => hc) rfl rfl
  | @job id _ j effect hj heffect =>
    have hj' := hok id j hj
    exact .move id j effect hj (Job.step_move hj' heffect) (Job.step_ok hj' heffect)
      (step_cancelledQueued heffect) rfl rfl
  | shutdown => exact .touch Queue.signal quiet_signal rfl rfl
  | shutdownExecutor => exact .touch Queue.drain quiet_drain rfl rfl

/-! ### The counters -/

theorem ErrorCode.value_injective {a b : ErrorCode} (h : a.value = b.value) : a = b := by
  cases a <;> cases b <;> first | rfl | exact absurd h (by decide)

/-- What a job adds to the number of FAILED records with a code. -/
def failedWeight (code : ErrorCode) (j : Job) : Nat :=
  if j.record.status = .failed ∧ j.record.errorCode = some code then 1 else 0

def statusWeight (status : JobStatus) (j : Job) : Nat := if j.record.status = status then 1 else 0

theorem verdict_status {r r' : JobRecord} (h : r'.verdict = r.verdict) :
    r'.status = r.status ∧ r'.errorCode = r.errorCode := by
  simp only [JobRecord.verdict, Prod.mk.injEq] at h
  exact ⟨h.1, h.2.2.2.1⟩

/-- A move counts a failure exactly when it makes one. -/
theorem Job.Move.failedWeight {j : Job} {effect : Effect} (h : j.Move effect) (code : ErrorCode) :
    failedWeight code effect.job =
      failedWeight code j + if effect.counted = some code.value then 1 else 0 := by
  cases h with
  | still verdict counted _ =>
    obtain ⟨hstatus, hcode⟩ := verdict_status verdict
    simp [Jobs.failedWeight, hstatus, hcode, counted]
  | enter source target counted _ => simp [Jobs.failedWeight, source, target, counted]
  | succeed source target counted _ => simp [Jobs.failedWeight, source, target, counted]
  | fail f now source record counted _ =>
    have hopen : j.record.status ≠ .failed := by
      intro hfailed
      rw [hfailed] at source
      cases source
    by_cases hcode : f.code = code
    · simp [Jobs.failedWeight, record, JobRecord.fail, hopen, counted, hcode]
    · have hvalue : f.code.value ≠ code.value := fun hv => hcode (ErrorCode.value_injective hv)
      simp [Jobs.failedWeight, record, JobRecord.fail, hopen, counted, hcode, hvalue]

theorem Job.Move.statusWeight {j : Job} {effect : Effect} (h : j.Move effect) :
    statusWeight .failed effect.job =
      statusWeight .failed j + if effect.counted.isSome then 1 else 0 := by
  cases h with
  | still verdict counted _ => simp [Jobs.statusWeight, (verdict_status verdict).1, counted]
  | enter source target counted _ => simp [Jobs.statusWeight, source, target, counted]
  | succeed source target counted _ => simp [Jobs.statusWeight, source, target, counted]
  | fail f now source record counted _ =>
    have hopen : j.record.status ≠ .failed := by
      intro hfailed
      rw [hfailed] at source
      cases source
    simp [Jobs.statusWeight, record, JobRecord.fail, hopen, counted]

theorem count_get (counts : Dict String Nat) (counted : Option String) (key : String) :
    ((Queue.count counts counted).get? key).getD 0 =
      (counts.get? key).getD 0 + if counted = some key then 1 else 0 := by
  cases counted with
  | none => simp [Queue.count]
  | some key' =>
    by_cases hkey : key' = key
    · subst hkey
      simp [Queue.count]
    · simp [Queue.count, Dict.get?_set_ne _ _ hkey, hkey]

theorem count_total (counts : Dict String Nat) (counted : Option String) :
    (Queue.count counts counted).total (fun _ n => n) =
      counts.total (fun _ n => n) + if counted.isSome then 1 else 0 := by
  cases counted with
  | none => rfl
  | some key =>
    have hset := counts.total_set key (fun _ n => n) ((counts.get? key).getD 0 + 1)
    cases hkey : counts.get? key with
    | none => simpa [Queue.count, hkey] using hset
    | some n =>
      simp only [hkey, Option.elim_some, Option.getD_some] at hset
      simp only [Queue.count, hkey, Option.getD_some, Option.isSome_some, if_true]
      omega

/-! ### The invariant -/

/-- Jobs are as their stage allows, and the counters say how many failed and of what. -/
structure Counted (q : Queue) : Prop where
  ok : ∀ id j, q.jobs.get? id = some j → j.Ok
  codes : ∀ code, (q.failureCounts.get? code.value).getD 0 = q.failedWith code
  sum : q.failureCounts.total (fun _ n => n) = q.withStatus .failed

theorem counted_init {ι : Type} {fn : WorkerFn ι} {cfg : Config} {q : Queue} (h : (queue fn cfg).init q) :
    Counted q := by
  obtain ⟨hjobs, hcounts, _⟩ := h
  refine ⟨fun id j hj => ?_, fun code => ?_, ?_⟩
  · rw [hjobs, Dict.get?_empty] at hj
    cases hj
  · rw [hcounts, Queue.failedWith, hjobs]
    rfl
  · rw [hcounts, Queue.withStatus, hjobs]
    rfl

theorem counted_change {q u : Queue} (h : Counted q) (hchange : Change q u) : Counted u := by
  cases hchange with
  | same jobs counts =>
    refine ⟨fun id j hj => h.ok id j (jobs ▸ hj), fun code => ?_, ?_⟩
    · rw [counts, Queue.failedWith, jobs]
      exact h.codes code
    · rw [counts, Queue.withStatus, jobs]
      exact h.sum
  | touch f quiet jobs counts =>
    refine ⟨fun id j hj => ?_, fun code => ?_, ?_⟩
    · rw [jobs] at hj
      exact Dict.forall_mapValues h.ok (fun j => (quiet j).ok) id j hj
    · rw [counts, Queue.failedWith, jobs, Dict.total_mapValues]
      simpa only [(quiet _).record, Queue.failedWith] using h.codes code
    · rw [counts, Queue.withStatus, jobs, Dict.total_mapValues]
      simpa only [(quiet _).record, Queue.withStatus] using h.sum
  | move id j effect found move ok _ jobs counts =>
    refine ⟨fun id' j' hj' => ?_, fun code => ?_, ?_⟩
    · rw [jobs] at hj'
      exact Dict.forall_set h.ok ok id' j' hj'
    · have hset := Dict.total_set_some found (fun _ j => failedWeight code j) effect.job
      have hmove := move.failedWeight code
      have hcodes := h.codes code
      rw [counts, count_get, Queue.failedWith, jobs]
      simp only [Queue.failedWith, failedWeight] at hset hmove hcodes ⊢
      omega
    · have hset := Dict.total_set_some found (fun _ j => statusWeight .failed j) effect.job
      have hmove := move.statusWeight
      have hsum := h.sum
      rw [counts, count_total, Queue.withStatus, jobs]
      simp only [Queue.withStatus, statusWeight] at hset hmove hsum ⊢
      omega
  | new id j fresh ok queued jobs counts =>
    refine ⟨fun id' j' hj' => ?_, fun code => ?_, ?_⟩
    · rw [jobs] at hj'
      exact Dict.forall_set h.ok ok id' j' hj'
    · rw [counts, Queue.failedWith, jobs, Dict.total_set_none fresh]
      simpa [queued, Queue.failedWith] using h.codes code
    · rw [counts, Queue.withStatus, jobs, Dict.total_set_none fresh]
      simpa [queued, Queue.withStatus] using h.sum

theorem counted_reachable {ι : Type} {fn : WorkerFn ι} {cfg : Config} {q : Queue}
    {C : Event ι → Queue → Prop} (h : (queue fn cfg).Reachable C q) : Counted q :=
  Transition.System.reachable_invariant (fun _ => counted_init)
    (fun _ _ _ hq _ hstep => counted_change hq (step_change hq.ok hstep)) h

/-! ### The state machine -/

/-- The edges of the job state machine. -/
inductive Edge : JobStatus → JobStatus → Prop where
  | start : Edge .queued .running
  | succeed : Edge .running .succeeded
  | fail : Edge .running .failed
  | cancel : Edge .queued .failed

/-- What may have become of a job: it moved along the edges, kept its verdict once it had one,
and was not started if a cancel found it queued. -/
structure Later (j j' : Job) : Prop where
  path : Relation.ReflTransGen Edge j.record.status j'.record.status
  verdict : j.record.status.terminal = true → j'.record.verdict = j.record.verdict
  cancelled : j.cancelledQueued = true → j'.cancelledQueued = true

theorem Later.refl (j : Job) : Later j j := ⟨.refl, fun _ => rfl, id⟩

theorem Later.trans {j k l : Job} (h : Later j k) (h' : Later k l) : Later j l := by
  refine ⟨h.path.trans h'.path, fun hterminal => ?_, fun hc => h'.cancelled (h.cancelled hc)⟩
  have hverdict := h.verdict hterminal
  have hstatus := (verdict_status hverdict).1
  exact (h'.verdict (hstatus ▸ hterminal)).trans hverdict

theorem edge_of_fail {status : JobStatus} (h : status.terminal = false) : Edge status .failed := by
  cases status with
  | queued => exact .cancel
  | running => exact .fail
  | succeeded | failed => cases h

/-- A move goes along one edge at most. -/
theorem Job.Move.edge {j : Job} {effect : Effect} (h : j.Move effect) :
    effect.job.record.status = j.record.status ∨ Edge j.record.status effect.job.record.status := by
  cases h with
  | still verdict _ _ => exact .inl (verdict_status verdict).1
  | enter source target _ _ => exact .inr (source ▸ target ▸ .start)
  | succeed source target _ _ => exact .inr (source ▸ target ▸ .succeed)
  | fail f now source record _ _ =>
    right
    rw [record]
    exact edge_of_fail source

theorem Job.Move.verdict {j : Job} {effect : Effect} (h : j.Move effect)
    (hterminal : j.record.status.terminal = true) : effect.job.record.verdict = j.record.verdict := by
  cases h with
  | still verdict _ _ => exact verdict
  | enter source _ _ _ | succeed source _ _ _ =>
    rw [source] at hterminal
    cases hterminal
  | fail f now source _ _ _ =>
    rw [source] at hterminal
    cases hterminal

theorem Job.Move.later {j : Job} {effect : Effect} (h : j.Move effect)
    (cancelled : j.cancelledQueued = true → effect.job.cancelledQueued = true) : Later j effect.job := by
  refine ⟨?_, h.verdict, cancelled⟩
  rcases h.edge with hsame | hedge
  · rw [hsame]
  · exact .single hedge

/-- Every job of the first queue is in the second, later. -/
def AllLater (q u : Queue) : Prop :=
  ∀ id j, q.jobs.get? id = some j → ∃ j', u.jobs.get? id = some j' ∧ Later j j'

theorem Change.allLater {q u : Queue} (h : Change q u) : AllLater q u := by
  intro id j hj
  cases h with
  | same jobs _ => exact ⟨j, jobs ▸ hj, .refl j⟩
  | touch f quiet jobs _ =>
    refine ⟨f j, by rw [jobs, Dict.get?_mapValues, hj]; rfl, ?_⟩
    obtain ⟨record, _, _, _, cancelled⟩ := quiet j
    exact ⟨by rw [record], fun _ => by rw [record], fun hc => cancelled.trans hc⟩
  | move id' j' effect found move _ cancelled jobs _ =>
    rw [jobs]
    exact Dict.get?_set_related Later.refl found (move.later cancelled) hj
  | new id' j' fresh _ _ jobs _ =>
    rw [jobs]
    exact ⟨j, Dict.get?_set_new fresh hj j', .refl j⟩

theorem leads_allLater {ι : Type} {fn : WorkerFn ι} {cfg : Config} {C : Event ι → Queue → Prop} {q u : Queue}
    (hq : Counted q) (h : (queue fn cfg).Leads C q u) : AllLater q u := by
  refine Transition.System.leads_relation (I := Counted)
    (fun _ _ _ hq _ hstep => counted_change hq (step_change hq.ok hstep))
    (fun q id j hj => ⟨j, hj, .refl j⟩) (fun q r u hqr hru id j hj => ?_)
    (fun _ _ _ hq _ hstep => (step_change hq.ok hstep).allLater) h hq
  obtain ⟨k, hk, hjk⟩ := hqr id j hj
  obtain ⟨l, hl, hkl⟩ := hru id k hk
  exact ⟨l, hl, hjk.trans hkl⟩

/-- A step keeps a job on its status or takes it along an edge, and a job that appears is queued. -/
theorem Change.edges {q u : Queue} (h : Change q u) (id : RunId) (j' : Job)
    (hj' : u.jobs.get? id = some j') :
    (q.jobs.get? id = none → j'.record.status = .queued) ∧
      ∀ j, q.jobs.get? id = some j →
        j'.record.status = j.record.status ∨ Edge j.record.status j'.record.status := by
  cases h with
  | same jobs _ =>
    rw [jobs] at hj'
    refine ⟨fun hnone => ?_, fun j hj => ?_⟩
    · rw [hnone] at hj'
      cases hj'
    · cases hj.symm.trans hj'
      exact .inl rfl
  | touch f quiet jobs _ =>
    rw [jobs, Dict.get?_mapValues] at hj'
    obtain ⟨k, hk, rfl⟩ := Option.map_eq_some_iff.mp hj'
    refine ⟨fun hnone => ?_, fun j hj => ?_⟩
    · rw [hnone] at hk
      cases hk
    · cases hj.symm.trans hk
      exact .inl (by rw [(quiet k).record])
  | move id' k effect found move _ _ jobs _ =>
    rw [jobs, Dict.get?_set] at hj'
    split at hj'
    · rename_i hid
      subst hid
      cases hj'
      refine ⟨fun hnone => ?_, fun j hj => ?_⟩
      · rw [hnone] at found
        cases found
      · cases found.symm.trans hj
        exact move.edge
    · refine ⟨fun hnone => ?_, fun j hj => ?_⟩
      · rw [hnone] at hj'
        cases hj'
      · cases hj.symm.trans hj'
        exact .inl rfl
  | new id' k fresh _ queued jobs _ =>
    rw [jobs, Dict.get?_set] at hj'
    split at hj'
    · rename_i hid
      subst hid
      cases hj'
      refine ⟨fun _ => queued, fun j hj => ?_⟩
      rw [fresh] at hj
      cases hj
    · refine ⟨fun hnone => ?_, fun j hj => ?_⟩
      · rw [hnone] at hj'
        cases hj'
      · cases hj.symm.trans hj'
        exact .inl rfl

/-- Each job has one of the four statuses. -/
theorem status_partition (q : Queue) :
    q.withStatus .queued + q.withStatus .running + q.withStatus .succeeded + q.withStatus .failed =
      q.jobs.size := by
  simp only [Queue.withStatus, ← Dict.total_add, ← Dict.total_one]
  apply Dict.total_congr
  intro id j _
  cases j.record.status <;> rfl

/-- **The job state machine: along every interleaving a job moves along the edges from QUEUED
and keeps its verdict; its function is started at most once, and never after a cancel that
found it queued; one cancel, timeout or failure wins; and the failure counters are the
numbers of failed records.** -/
theorem job_state_machine {ι : Type} (fn : WorkerFn ι) (cfg : Config) {q : Queue}
    (h : (queue fn cfg).Reachable Transition.anything q) :
    (∀ e u id j', (queue fn cfg).step e q = some u → u.jobs.get? id = some j' →
      (q.jobs.get? id = none → j'.record.status = .queued) ∧
        ∀ j, q.jobs.get? id = some j →
          j'.record.status = j.record.status ∨ Edge j.record.status j'.record.status) ∧
    (∀ u, (queue fn cfg).Leads Transition.anything q u → AllLater q u) ∧
    (∀ id j, q.jobs.get? id = some j →
      j.calls ≤ 1 ∧ (j.cancelledQueued = true → j.calls = 0) ∧ j.wins ≤ 1) ∧
    (∀ code, (q.failureCounts.get? code.value).getD 0 = q.failedWith code) ∧
    ∀ now, ((q.stats cfg now).failureCodes.total fun _ n => n) = (q.stats cfg now).failed ∧
      (q.stats cfg now).queued + (q.stats cfg now).running + (q.stats cfg now).succeeded +
        (q.stats cfg now).failed = (q.stats cfg now).total := by
  have hq := counted_reachable h
  refine ⟨fun e u id j' hstep hj' => (step_change hq.ok hstep).edges id j' hj', fun u hl => leads_allLater hq hl,
    fun id j hj => ?_, hq.codes, fun now => ⟨hq.sum, status_partition q⟩⟩
  have hok := hq.ok id j hj
  refine ⟨hok.once, fun hc => (hok.cancelled hc).2.1, ?_⟩
  rw [hok.wins]
  split <;> omega

def emptyQueue : Queue := ⟨Dict.empty, Dict.empty, false, false, Dict.empty, {}, Dict.empty⟩

def simRequest : RunExperimentRequest := ⟨.health, .simLocal, some 1, none, none⟩

/-- A worker function that raises, for runs that are about something else. -/
def idleWorker : WorkerFn Unit := fun _ _ _ _ => ⟨none, .error .timeoutError⟩

/-- One that stores a run and returns it. -/
def doneWorker : WorkerFn Unit := fun _ request _ id =>
  let run : RunExperimentResponse :=
    { id := id, preset := request.preset, hardwareTarget := request.hardwareTarget, kpis := {}, createdAt := 0 }
  ⟨some run, .ok run⟩

/-- A cancel that comes after the thread took up the item and before `_run_job` saw the record. -/
def earlyCancel : List (Event Unit) :=
  [.enqueue 0 simRequest 7, .register 0 1 0, .submit 0, .keep 0, .job 1 .start, .job 1 (.cancel "Cancelled" 1),
    .job 1 (.enter 2), .job 1 (.persist 3)]

theorem job_state_machine_earlyCancel :
    ∃ q, (queue (fun (_ : Unit) _ _ _ => ⟨none, .error .timeoutError⟩) {}).run emptyQueue earlyCancel = some q ∧
      (q.failureCounts.get? ErrorCode.cancelled.value).getD 0 = q.failedWith .cancelled ∧
      q.failedWith .cancelled = 1 := by
  have hrun : ((queue (fun (_ : Unit) _ _ _ => ⟨none, .error .timeoutError⟩) {}).run emptyQueue
      earlyCancel).map (fun q => q.failedWith .cancelled) = some 1 := by decide +kernel
  obtain ⟨q, hq, hone⟩ := Option.map_eq_some_iff.mp hrun
  have hmachine := job_state_machine _ {}
    (Transition.System.run_reachable ⟨rfl, rfl, rfl, rfl, rfl, rfl⟩ hq)
  exact ⟨q, hq, hmachine.2.2.2.1 .cancelled, hone⟩

end SynQc.Jobs
