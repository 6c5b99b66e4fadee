import SynQc.Jobs.Futures
import SynQc.RunQueue.Outcomes

/-! The run metrics of the embedded queue.

`EmbeddedRunQueue.enqueue` counts a submission and then asks the queue, which may refuse. The
end of `_run_job` counts how a job ended; a job that is cancelled before its transition to
RUNNING never gets there. In every state without a thread at work and without a QUEUED job,
what is submitted is what succeeded, what failed, and what these two lose: calls that were
refused, or have not inserted their record yet, and jobs cancelled while QUEUED (`account`).
Where nothing is lost the metrics balance (`metrics_balance`). -/
namespace SynQc.Jobs

open RunQueue.Outcomes (Metrics RunStatus)

/-- The embedded queue with its metrics. A call that has counted its submission has `begun`
until the queue takes it in or refuses it. -/
structure Metered where
  queue : Queue
  metrics : Metrics := {}
  begun : Dict Nat (RunExperimentRequest × SessionId) := Dict.empty

inductive MeteredEvent (ι : Type) where
  | submission (c : Nat) (request : RunExperimentRequest) (session : SessionId)
  | enqueue (c : Nat)
  | queue (e : Event ι) (clock : Time × Time)

namespace Metered

/-- `t or default`: a time of 0 counts as none. -/
def timeOr (t : Option Time) (default : Time) : Time :=
  match t with
  | some t => if t = 0 then default else t
  | none => default

/-- `_observe_metrics`, with the times it reads where the record has none. -/
def observeMetrics (m : Metrics) (r : JobRecord) (clock : Time × Time) : Metrics :=
  let target := r.request.hardwareTarget
  let started := timeOr r.startedAt (timeOr (some r.createdAt) clock.1)
  let finished := timeOr r.finishedAt clock.2
  let latency := max 0 (finished - started)
  match r.status with
  | .succeeded => m.recordSuccess target latency
  | .failed =>
    match r.errorCode with
    | some code => m.recordFailure target code latency
    | none =>
      {m with
        runs := m.runs.incr (Metrics.label target, .failed) 1
        failures := m.failures.incr "unknown" 1
        latencies := ((Metrics.label target, .failed), latency) :: m.latencies}
  | _ => m

/-- `run_metrics.record_submission`, before the queue is asked. -/
def submission (c : Nat) (request : RunExperimentRequest) (session : SessionId) (m : Metered) : Option Metered :=
  match m.begun.get? c, m.queue.calls.get? c with
  | none, none =>
    some {m with
      metrics := m.metrics.recordSubmission request.hardwareTarget
      begun := m.begun.set c (request, session)}
  | _, _ => none

/-- `self._queue.enqueue(req, session_id)`: its first section. -/
def enqueue {ι : Type} (fn : WorkerFn ι) (cfg : Config) (c : Nat) (m : Metered) : Option Metered :=
  match m.begun.get? c with
  | some (request, session) =>
    ((Jobs.queue fn cfg).step (.enqueue c request session) m.queue).map fun u =>
      {m with queue := u, begun := m.begun.erase c}
  | none => none

/-- What a step of the queue does to the metrics. -/
def observed {ι : Type} (clock : Time × Time) (m : Metered) : Event ι → Metrics
  | .job id .observe =>
    match m.queue.jobs.get? id with
    | some j => observeMetrics m.metrics j.record clock
    | none => m.metrics
  | _ => m.metrics

/-- Every other step of the queue. -/
def stepQueue {ι : Type} (fn : WorkerFn ι) (cfg : Config) (e : Event ι) (clock : Time × Time) (m : Metered) :
    Option Metered :=
  match e with
  | .enqueue _ _ _ => none
  | e => ((Jobs.queue fn cfg).step e m.queue).map fun u => {m with queue := u, metrics := m.observed clock e}

end Metered

/-- `EmbeddedRunQueue` and the threads of its queue. -/
def metered {ι : Type} (fn : WorkerFn ι) (cfg : Config) : Transition.System Metered (MeteredEvent ι) where
  init m := (queue fn cfg).init m.queue ∧ m.metrics = {} ∧ m.begun = Dict.empty
  step
    | .submission c request session => Metered.submission c request session
    | .enqueue c => Metered.enqueue fn cfg c
    | .queue e clock => Metered.stepQueue fn cfg e clock

/-! ### Counters -/

/-- The counter of a status, summed over some of the targets. -/
def counter (m : Metrics) (within : HardwareTarget → Bool) (status : RunStatus) : Int :=
  m.runs.total fun key n => if within key.1 ∧ key.2 = status then n else 0

/-- Whether a run counts for these targets. -/
def weigh (within : HardwareTarget → Bool) (target : HardwareTarget) : Int :=
  if within (Metrics.label target) then 1 else 0

theorem counter_incr (runs : Dict (HardwareTarget × RunStatus) Int) (within : HardwareTarget → Bool)
    (target : HardwareTarget) (status status' : RunStatus) :
    ((runs.incr (Metrics.label target, status) 1).total fun key n => if within key.1 ∧ key.2 = status' then n else 0) =
      (runs.total fun key n => if within key.1 ∧ key.2 = status' then n else 0) +
        if status = status' then weigh within target else 0 := by
  rw [Dict.total_incr runs (Metrics.label target, status) 1 fun key => within key.1 ∧ key.2 = status']
  unfold weigh
  split
  · rename_i hboth
    rw [if_pos hboth.2, if_pos hboth.1]
  · rename_i hnot
    split
    · rename_i hstatus
      rw [if_neg fun hwithin => hnot ⟨hwithin, hstatus⟩]
    · rfl

theorem counter_submission (m : Metrics) (within : HardwareTarget → Bool) (target : HardwareTarget)
    (status : RunStatus) : counter (m.recordSubmission target) within status =
      counter m within status + if .submitted = status then weigh within target else 0 :=
  counter_incr m.runs within target .submitted status

/-- A job that ends is counted once, under its status. -/
theorem counter_observe (m : Metrics) (r : JobRecord) (clock : Time × Time) (within : HardwareTarget → Bool)
    (status : RunStatus) : counter (Metered.observeMetrics m r clock) within status =
      counter m within status +
        if (r.status = .succeeded ∧ .succeeded = status) ∨ (r.status = .failed ∧ .failed = status)
        then weigh within r.request.hardwareTarget else 0 := by
  unfold Metered.observeMetrics
  split
  · rename_i hstatus
    simp only [hstatus, true_and, reduceCtorEq, false_and, or_false]
    exact counter_incr m.runs within _ .succeeded status
  · rename_i hstatus
    simp only [hstatus, true_and, reduceCtorEq, false_and, false_or]
    split
    · exact counter_incr m.runs within _ .failed status
    · exact counter_incr m.runs within _ .failed status
  · rename_i hsucceeded hfailed
    rw [if_neg, add_zero]
    rintro (⟨hstatus, _⟩ | ⟨hstatus, _⟩)
    · exact hsucceeded hstatus
    · exact hfailed hstatus

/-! ### Jobs that ended -/

/-- A job that failed before its transition to RUNNING was cancelled while QUEUED. -/
def Job.Early (j : Job) : Prop :=
  j.record.status = .failed → j.worker = .idle ∨ j.worker = .started → j.cancelledQueued = true

def Worker.isDone : Worker → Bool
  | .done => true
  | _ => false

/-- Whether the end of `_run_job` has counted the job under this status. -/
def ended (within : HardwareTarget → Bool) (status : JobStatus) (j : Job) : Int :=
  if j.worker.isDone ∧ j.cancelledQueued = false ∧ j.record.status = status
  then weigh within j.record.request.hardwareTarget else 0

section Jobs
variable {ι : Type} {fn : WorkerFn ι} {timeoutSeconds : Int} {e : JobEvent ι} {j j' : Job} {effect : Effect}
  {within : HardwareTarget → Bool} {status : JobStatus}

theorem ended_of_not_done (h : j.worker.isDone = false) : ended within status j = 0 := by
  unfold ended
  rw [h, if_neg]
  exact fun hall => nomatch hall.1

theorem ended_of_cancelled (h : j.cancelledQueued = true) : ended within status j = 0 := by
  unfold ended
  rw [h, if_neg]
  exact fun hall => nomatch hall.2.1

theorem ended_quiet (h : Quiet j j') : ended within status j' = ended within status j := by
  simp only [ended, h.worker, h.cancelledQueued, h.record]

theorem step_request (h : j.step fn timeoutSeconds e = some effect) : effect.job.record.request = j.record.request := by
  cases Job.step_some h with
  | close _ hrecord => rcases hrecord with ⟨_, rfl⟩ | ⟨_, rfl⟩ <;> rfl
  | _ => rfl

/-- A worker that is done has left a decided record. -/
theorem open_not_done (hok : j.Ok) (hopen : j.record.status.terminal = false) : j.worker.isDone = false := by
  have hstage := hok.stage
  cases hworker : j.worker with
  | done =>
    rw [hworker] at hstage
    rcases hstage with hstatus | hstatus
    · rw [hstatus] at hopen
      cases hopen
    · rw [hstatus] at hopen
      cases hopen
  | _ => rfl

theorem early_step (hok : j.Ok) (h : j.Early) (hstep : j.step fn timeoutSeconds e = some effect) : effect.job.Early := by
  have hstage := hok.stage
  cases Job.step_some hstep with
  | start hworker _ => exact fun hfailed _ => h hfailed (.inl hworker)
  | leave | enter | arm | call | work | store | decided | succeed | fail | persistWorker | disarm | close | observe =>
    exact fun _ hearly => hearly.elim nofun nofun
  | discard | fire | spare | refuse | persist => exact h
  | expire _ hrunning =>
    -- a record that runs has its worker past the start
    intro _ hearly
    change j.worker = .idle ∨ j.worker = .started at hearly
    rcases hearly with hworker | hworker
    · rw [hworker, hrunning] at hstage
      rcases hstage with hstatus | hstatus <;> cases hstatus
    · rw [hworker, hrunning] at hstage
      rcases hstage with hstatus | hstatus <;> cases hstatus
  | cancel hopen =>
    intro _ hearly
    change j.worker = .idle ∨ j.worker = .started at hearly
    have hqueued : j.record.status = .queued := by
      have hwaiting : j.worker.stage = .waiting := by
        rcases hearly with hworker | hworker
        · rw [hworker]
          rfl
        · rw [hworker]
          rfl
      rw [hwaiting] at hstage
      refine hstage.resolve_right fun hfailed => ?_
      rw [hfailed] at hopen
      cases hopen
    show (j.cancelledQueued || decide (j.record.status = .queued)) = true
    rw [hqueued, decide_eq_true rfl, Bool.or_true]

/-- The end of `_run_job` counts the job. -/
theorem ended_observe (hok : j.Ok) (hstep : j.step fn timeoutSeconds .observe = some effect) :
    ended within status effect.job =
      ended within status j + if j.record.status = status then weigh within j.record.request.hardwareTarget else 0 := by
  cases Job.step_some hstep with
  | observe hworker =>
    have hlate := hok.not_cancelled (by simp [hworker])
    rw [Bool.not_eq_true] at hlate
    have hbefore : ended within status j = 0 := ended_of_not_done (by rw [hworker]; rfl)
    rw [hbefore, zero_add]
    simp only [ended, Worker.isDone, hlate, true_and]

/-- No other step does. -/
theorem ended_other (hok : j.Ok) (hearly : j.Early) (hstep : j.step fn timeoutSeconds e = some effect)
    (hother : e ≠ .observe) : ended within status effect.job = ended within status j := by
  cases Job.step_some hstep with
  | leave hworker hfailed =>
    have hbefore : ended within status j = 0 := ended_of_not_done (by rw [hworker]; rfl)
    rw [hbefore]
    exact ended_of_cancelled (hearly hfailed (.inr hworker))
  | observe => exact absurd rfl hother
  | start hworker _ | enter hworker _ | arm hworker | call hworker | work hworker | store hworker | decided hworker _
  | succeed hworker _ | fail hworker _ | persistWorker hworker | disarm hworker | close hworker _ =>
    have hbefore : ended within status j = 0 := ended_of_not_done (by rw [hworker]; rfl)
    rw [hbefore]
    exact ended_of_not_done rfl
  | expire _ hrunning =>
    have hdone := open_not_done hok (by rw [hrunning]; rfl)
    have hbefore : ended within status j = 0 := ended_of_not_done hdone
    rw [hbefore]
    exact ended_of_not_done hdone
  | cancel hopen =>
    have hdone := open_not_done hok hopen
    have hbefore : ended within status j = 0 := ended_of_not_done hdone
    rw [hbefore]
    exact ended_of_not_done hdone
  | discard | fire | spare | refuse | persist => rfl

end Jobs

/-! ### The account -/

/-- Whether the call has inserted its record. The pool refuses it afterwards. -/
def EnqueuePhase.inserted : EnqueuePhase → Bool
  | .checked => false
  | .registered _ | .submitted _ | .returned _ => true
  | .raised message => message = "cannot schedule new futures after shutdown"

/-- What a call of the queue counts for, if it has inserted its record. -/
def insertedWeight (within : HardwareTarget → Bool) (call : EnqueueCall) : Int :=
  if call.phase.inserted then weigh within call.request.hardwareTarget else 0

/-- The counters, in terms of calls and jobs. -/
structure Account (m : Metered) : Prop where
  counted : Counted m.queue
  early : ∀ id j, m.queue.jobs.get? id = some j → j.Early
  submitted : ∀ within, counter m.metrics within .submitted =
    (m.begun.total fun _ call => weigh within call.1.hardwareTarget) +
      m.queue.calls.total fun _ call => weigh within call.request.hardwareTarget
  inserted : ∀ within, (m.queue.jobs.total fun _ j => weigh within j.record.request.hardwareTarget) =
    m.queue.calls.total fun _ call => insertedWeight within call
  succeeded : ∀ within, counter m.metrics within .succeeded = m.queue.jobs.total fun _ j => ended within .succeeded j
  failed : ∀ within, counter m.metrics within .failed = m.queue.jobs.total fun _ j => ended within .failed j

section Steps
variable {ι : Type} {fn : WorkerFn ι} {cfg : Config} {e : Event ι} {q u : Queue} {m m' : Metered}

theorem calls_set {c : Nat} {call : EnqueueCall} {phase : EnqueuePhase} (hcall : q.calls.get? c = some call)
    (hcalls : u.calls = q.calls.set c {call with phase := phase}) (g : EnqueueCall → Int) :
    (u.calls.total fun _ k => g k) + g call = (q.calls.total fun _ k => g k) + g {call with phase := phase} := by
  rw [hcalls]
  exact Dict.total_set_some hcall (fun _ k => g k) _

theorem calls_new {c : Nat} {call : EnqueueCall} (hnew : q.calls.get? c = none) (hcalls : u.calls = q.calls.set c call)
    (g : EnqueueCall → Int) : (u.calls.total fun _ k => g k) = (q.calls.total fun _ k => g k) + g call := by
  rw [hcalls]
  exact Dict.total_set_none hnew (fun _ k => g k) _

/-- After its first section a call counts for what it counted before. -/
theorem requests_step (h : (queue fn cfg).step e q = some u) (hother : ∀ c request session, e ≠ .enqueue c request session)
    (f : RunExperimentRequest → Int) :
    (u.calls.total fun _ call => f call.request) = q.calls.total fun _ call => f call.request := by
  have hset : ∀ {u : Queue} {c : Nat} {call : EnqueueCall} {phase : EnqueuePhase}, q.calls.get? c = some call →
      u.calls = q.calls.set c {call with phase := phase} →
      (u.calls.total fun _ k => f k.request) = q.calls.total fun _ k => f k.request := by
    intro u c call phase hcall hcalls
    have htotal := calls_set hcall hcalls fun k => f k.request
    simp only at htotal
    omega
  cases Queue.step_some h with
  | closed | full | check => exact absurd rfl (hother _ _ _)
  | register hcall | refuse hcall | submit hcall | keep hcall => exact hset hcall rfl
  | job | shutdown | shutdownExecutor => rfl

/-- A call inserts its record when its phase says so. -/
theorem inserted_step (within : HardwareTarget → Bool) (h : (queue fn cfg).step e q = some u)
    (hother : ∀ c request session, e ≠ .enqueue c request session)
    (hq : (q.jobs.total fun _ j => weigh within j.record.request.hardwareTarget) =
      q.calls.total fun _ call => insertedWeight within call) :
    (u.jobs.total fun _ j => weigh within j.record.request.hardwareTarget) =
      u.calls.total fun _ call => insertedWeight within call := by
  have hf : ∀ j j', Quiet j j' →
      weigh within j'.record.request.hardwareTarget = weigh within j.record.request.hardwareTarget := by
    intro j j' hquiet
    rw [hquiet.record]
  have hset : ∀ {u : Queue} {c : Nat} {call : EnqueueCall} {phase : EnqueuePhase}, q.calls.get? c = some call →
      call.phase.inserted = true → phase.inserted = true → u.calls = q.calls.set c {call with phase := phase} →
      (u.calls.total fun _ k => insertedWeight within k) = q.calls.total fun _ k => insertedWeight within k := by
    intro u c call phase hcall hbefore hafter hcalls
    have htotal := calls_set hcall hcalls fun k => insertedWeight within k
    simp only [insertedWeight, hbefore, hafter, if_true] at htotal ⊢
    omega
  rcases jobs_total_step hf h with ⟨c, id, now, call, _, hcall, hphase, hcalls, hjobs⟩ |
      ⟨id, act, j, effect, _, hj, heffect, hcalls, hjobs⟩ | ⟨hnojob, hnoregister, hjobs⟩
  · have htotal := calls_set hcall hcalls fun k => insertedWeight within k
    rw [hjobs, hq]
    simp only [insertedWeight, hphase, EnqueuePhase.inserted, Bool.false_eq_true, if_false, if_true] at htotal ⊢
    show _ + weigh within call.request.hardwareTarget = _
    omega
  · rw [step_request heffect] at hjobs
    rw [hcalls, ← hq]
    omega
  · rw [hjobs, hq]
    cases Queue.step_some h with
    | closed | full | check => exact absurd rfl (hother _ _ _)
    | register => exact absurd rfl (hnoregister _ _ _)
    | job => exact absurd rfl (hnojob _ _)
    | refuse hcall hphase _ => exact (hset hcall (by rw [hphase]; rfl) (by decide) rfl).symm
    | submit hcall hphase _ _ => exact (hset hcall (by rw [hphase]; rfl) rfl rfl).symm
    | keep hcall hphase _ => exact (hset hcall (by rw [hphase]; rfl) rfl rfl).symm
    | shutdown | shutdownExecutor => rfl

theorem observed_other (clock : Time × Time) (h : ∀ id, e ≠ .job id .observe) : m.observed clock e = m.metrics := by
  unfold Metered.observed
  split
  · exact absurd rfl (h _)
  · rfl

theorem observed_job {clock : Time × Time} {id : RunId} {j : Job} (hj : m.queue.jobs.get? id = some j) :
    m.observed clock (.job (ι := ι) id .observe) = Metered.observeMetrics m.metrics j.record clock := by
  simp only [Metered.observed, hj]

/-- Submissions are not counted by the queue. -/
theorem observed_submitted (clock : Time × Time) (within : HardwareTarget → Bool) :
    counter (m.observed clock e) within .submitted = counter m.metrics within .submitted := by
  unfold Metered.observed
  split
  · split
    · rw [counter_observe, if_neg, add_zero]
      rintro (⟨_, hstatus⟩ | ⟨_, hstatus⟩) <;> cases hstatus
    · rfl
  · rfl

/-- The counter of a status and the jobs that ended under it stay equal. -/
theorem ended_step {within : HardwareTarget → Bool} {status : RunStatus} {end' : JobStatus}
    (hstatus : ∀ r : JobRecord, (r.status = .succeeded ∧ .succeeded = status) ∨ (r.status = .failed ∧ .failed = status) ↔
      r.status = end') (clock : Time × Time) (h : Account m) (hstep : (queue fn cfg).step e m.queue = some u)
    (hq : counter m.metrics within status = m.queue.jobs.total fun _ j => ended within end' j) :
    counter (m.observed clock e) within status = u.jobs.total fun _ j => ended within end' j := by
  have hkept : ∀ j j', Quiet j j' → ended within end' j' = ended within end' j := fun _ _ hquiet => ended_quiet hquiet
  rcases jobs_total_step hkept hstep with
    ⟨c, id, now, call, rfl, _, _, _, hjobs⟩ | ⟨id, act, j, effect, rfl, hj, heffect, _, hjobs⟩ | ⟨hnojob, _, hjobs⟩
  · have hnew : ended within end' (Queue.newJob id call now) = 0 := ended_of_not_done rfl
    rw [observed_other clock (fun _ heq => by cases heq), hjobs, hq, hnew, add_zero]
  · have hok := h.counted.ok id j hj
    by_cases hobserve : act = .observe
    · subst hobserve
      have hended : ended within end' effect.job = _ := ended_observe hok heffect
      rw [observed_job hj, counter_observe, hq]
      simp only [hstatus]
      omega
    · have hended : ended within end' effect.job = ended within end' j :=
        ended_other hok (h.early id j hj) heffect hobserve
      rw [observed_other clock fun id' heq => ?_, hq]
      · omega
      · cases heq
        exact hobserve rfl
  · rw [observed_other clock fun id => hnojob id .observe, hjobs, hq]

theorem early_queue (h : Account m) (hstep : (queue fn cfg).step e m.queue = some u) :
    ∀ id j, u.jobs.get? id = some j → j.Early := by
  refine forall_jobs_step (fun j j' hquiet hearly => ?_) (fun _ _ _ => nofun) (fun id act j effect _ hj heffect => ?_)
    h.early hstep
  · unfold Job.Early
    rw [hquiet.record, hquiet.worker, hquiet.cancelledQueued]
    exact hearly
  · exact early_step (h.counted.ok id j hj) (h.early id j hj) heffect

theorem account_queue {clock : Time × Time} (h : Account m) (hother : ∀ c request session, e ≠ .enqueue c request session)
    (hstep : (queue fn cfg).step e m.queue = some u) :
    Account {m with queue := u, metrics := m.observed clock e} where
  counted := counted_change h.counted (step_change h.counted.ok hstep)
  early := early_queue h hstep
  submitted within := by
    show counter (m.observed clock e) within .submitted = _ + u.calls.total fun _ call => weigh within call.request.hardwareTarget
    rw [observed_submitted, h.submitted,
      requests_step hstep hother fun request => weigh within request.hardwareTarget]
  inserted within := inserted_step within hstep hother (h.inserted within)
  succeeded within := ended_step (fun r => by simp) clock h hstep (h.succeeded within)
  failed within := ended_step (fun r => by simp) clock h hstep (h.failed within)

theorem account_submission {c : Nat} {request : RunExperimentRequest} {session : SessionId} (h : Account m)
    (hstep : Metered.submission c request session m = some m') : Account m' := by
  unfold Metered.submission at hstep
  split at hstep
  · rename_i hbegun _
    cases hstep
    refine ⟨h.counted, h.early, fun within => ?_, h.inserted, fun within => ?_, fun within => ?_⟩
    · show counter (m.metrics.recordSubmission request.hardwareTarget) within .submitted =
        ((m.begun.set c (request, session)).total fun _ call => weigh within call.1.hardwareTarget) +
          m.queue.calls.total fun _ call => weigh within call.request.hardwareTarget
      rw [counter_submission, h.submitted, Dict.total_set_none hbegun, if_pos rfl]
      exact add_right_comm _ _ _
    · exact (counter_submission m.metrics within _ .succeeded).trans ((add_zero _).trans (h.succeeded within))
    · exact (counter_submission m.metrics within _ .failed).trans ((add_zero _).trans (h.failed within))
  · cases hstep

/-- The first section of `enqueue` takes the call in or refuses it. -/
theorem account_enqueue {c : Nat} (h : Account m) (hstep : Metered.enqueue fn cfg c m = some m') : Account m' := by
  unfold Metered.enqueue at hstep
  split at hstep
  · rename_i request session hbegun
    obtain ⟨u, hu, rfl⟩ := Option.map_eq_some_iff.mp hstep
    have hsame : ∀ phase : EnqueuePhase, m.queue.calls.get? c = none → phase.inserted = false →
        u.jobs = m.queue.jobs → u.calls = m.queue.calls.set c ⟨request, session, phase⟩ →
        Account {m with queue := u, begun := m.begun.erase c} := by
      intro phase hnew hphase hjobs hcalls
      refine ⟨counted_change h.counted (step_change h.counted.ok hu), early_queue h hu, fun within => ?_,
        fun within => ?_, fun within => ?_, fun within => ?_⟩
      · have herase := Dict.total_erase hbegun fun _ call => weigh within call.1.hardwareTarget
        have hcall := calls_new hnew hcalls fun call => weigh within call.request.hardwareTarget
        have hsubmitted := h.submitted within
        simp only at herase hcall ⊢
        omega
      · have hcall := calls_new hnew hcalls fun call => insertedWeight within call
        have hinserted := h.inserted within
        simp only [insertedWeight, hphase, Bool.false_eq_true, if_false, add_zero] at hcall hinserted ⊢
        rw [hjobs, hcall]
        exact hinserted
      · show counter m.metrics within .succeeded = u.jobs.total _
        rw [hjobs]
        exact h.succeeded within
      · show counter m.metrics within .failed = u.jobs.total _
        rw [hjobs]
        exact h.failed within
    cases Queue.step_some hu with
    | closed hnew _ => exact hsame _ hnew (by decide) rfl rfl
    | full hnew _ _ => exact hsame _ hnew (by decide) rfl rfl
    | check hnew _ _ => exact hsame .checked hnew rfl rfl rfl
  · cases hstep

theorem stepQueue_some {clock : Time × Time} (h : Metered.stepQueue fn cfg e clock m = some m') :
    (∀ c request session, e ≠ .enqueue c request session) ∧ ∃ u, (queue fn cfg).step e m.queue = some u ∧
      m' = {m with queue := u, metrics := m.observed clock e} := by
  unfold Metered.stepQueue at h
  split at h
  · cases h
  · rename_i hother
    obtain ⟨u, hu, rfl⟩ := Option.map_eq_some_iff.mp h
    exact ⟨hother, u, hu, rfl⟩

theorem account_step {a : MeteredEvent ι} (h : Account m) (hstep : (metered fn cfg).step a m = some m') : Account m' := by
  cases a with
  | submission c request session => exact account_submission h hstep
  | enqueue c => exact account_enqueue h hstep
  | queue e clock =>
    obtain ⟨hother, u, hu, rfl⟩ := stepQueue_some hstep
    exact account_queue h hother hu

theorem account_init (h : (metered fn cfg).init m) : Account m := by
  obtain ⟨hqueue, hmetrics, hbegun⟩ := h
  obtain ⟨hjobs, _, hcalls, _⟩ := id hqueue
  refine ⟨counted_init hqueue, ?_, ?_, ?_, ?_, ?_⟩
  · intro id j hj
    rw [hjobs, Dict.get?_empty] at hj
    cases hj
  · intro within
    rw [hmetrics, hbegun, hcalls]
    rfl
  · intro within
    rw [hjobs, hcalls]
    rfl
  · intro within
    rw [hmetrics, hjobs]
    rfl
  · intro within
    rw [hmetrics, hjobs]
    rfl

theorem account_reachable {C : MeteredEvent ι → Metered → Prop} (h : (metered fn cfg).Reachable C m) : Account m :=
  Transition.System.reachable_invariant (fun _ => account_init) (fun _ _ _ hm _ hstep => account_step hm hstep) h

/-! ### At rest -/

/-- The records of a status, for some of the targets. -/
def records (m : Metered) (within : HardwareTarget → Bool) (status : JobStatus) : Int :=
  m.queue.jobs.total fun _ j => if j.record.status = status then weigh within j.record.request.hardwareTarget else 0

/-- The submissions that have no record: on their way, or refused. -/
def unrecorded (m : Metered) (within : HardwareTarget → Bool) : Int :=
  (m.begun.total fun _ call => weigh within call.1.hardwareTarget) +
    m.queue.calls.total fun _ call => if call.phase.inserted then 0 else weigh within call.request.hardwareTarget

/-- The jobs that were cancelled while QUEUED. -/
def cancelledEarly (m : Metered) (within : HardwareTarget → Bool) : Int :=
  m.queue.jobs.total fun _ j => if j.cancelledQueued then weigh within j.record.request.hardwareTarget else 0

/-- No thread is at work on a job, and no job waits for one. -/
structure Quiescent (m : Metered) : Prop where
  idle : ∀ id j, m.queue.jobs.get? id = some j → j.worker.busy = false
  started : ∀ id j, m.queue.jobs.get? id = some j → j.record.status ≠ .queued

/-- The metrics balance: what is submitted succeeded or failed, as the records say. -/
structure BalancedMetrics (m : Metered) (within : HardwareTarget → Bool) : Prop where
  total : counter m.metrics within .submitted = counter m.metrics within .succeeded + counter m.metrics within .failed
  succeeded : counter m.metrics within .succeeded = records m within .succeeded
  failed : counter m.metrics within .failed = records m within .failed

/-- A job at rest succeeded or failed, and was counted unless it was cancelled while QUEUED. -/
theorem ended_at_rest {j : Job} (hok : j.Ok) (hearly : j.Early) (hidle : j.worker.busy = false)
    (hstarted : j.record.status ≠ .queued) (within : HardwareTarget → Bool) :
    let weight := weigh within j.record.request.hardwareTarget
    (if j.record.status = .succeeded then weight else 0) = ended within .succeeded j ∧
      (if j.record.status = .failed then weight else 0) =
        ended within .failed j + (if j.cancelledQueued then weight else 0) ∧
      weight = (if j.record.status = .succeeded then weight else 0) + if j.record.status = .failed then weight else 0 := by
  have hstage := hok.stage
  have hcancelled := hok.cancelled
  unfold Job.Early at hearly
  unfold ended
  cases hworker : j.worker with
  | idle =>
    rw [hworker] at hstage
    have hfailed : j.record.status = .failed := hstage.resolve_left hstarted
    simp [hfailed, hearly hfailed (.inl hworker), Worker.isDone]
  | done =>
    rw [hworker] at hstage
    rcases hstage with hsucceeded | hfailed
    · have hflag : j.cancelledQueued = false := by
        rw [← Bool.not_eq_true]
        intro hflag
        exact absurd (hsucceeded.symm.trans (hcancelled hflag).1) nofun
      simp [hsucceeded, hflag, Worker.isDone]
    · cases hflag : j.cancelledQueued <;> simp [hfailed, Worker.isDone]
  | _ =>
    rw [hworker] at hidle
    cases hidle

/-- What the counters say in a quiescent state. -/
theorem account (h : Account m) (hrest : Quiescent m) (within : HardwareTarget → Bool) :
    records m within .succeeded = counter m.metrics within .succeeded ∧
      records m within .failed = counter m.metrics within .failed + cancelledEarly m within ∧
      counter m.metrics within .submitted = counter m.metrics within .succeeded + counter m.metrics within .failed +
        (unrecorded m within + cancelledEarly m within) := by
  have hjob : ∀ id j, (id, j) ∈ m.queue.jobs.entries → _ := fun id j hj =>
    have hget := Dict.mem_entries.mp hj
    ended_at_rest (h.counted.ok id j hget) (h.early id j hget) (hrest.idle id j hget) (hrest.started id j hget) within
  have hsucceeded : records m within .succeeded = counter m.metrics within .succeeded := by
    rw [h.succeeded]
    exact Dict.total_congr fun id j hj => (hjob id j hj).1
  have hfailed : records m within .failed = counter m.metrics within .failed + cancelledEarly m within := by
    rw [h.failed, cancelledEarly, ← Dict.total_add]
    exact Dict.total_congr fun id j hj => (hjob id j hj).2.1
  have hjobs : (m.queue.jobs.total fun _ j => weigh within j.record.request.hardwareTarget) =
      records m within .succeeded + records m within .failed := by
    rw [records, records, ← Dict.total_add]
    exact Dict.total_congr fun id j hj => (hjob id j hj).2.2
  have hcalls : (m.queue.calls.total fun _ call => weigh within call.request.hardwareTarget) =
      (m.queue.calls.total fun _ call => insertedWeight within call) +
        m.queue.calls.total fun _ call => if call.phase.inserted then 0 else weigh within call.request.hardwareTarget := by
    rw [← Dict.total_add]
    refine Dict.total_congr fun _ call _ => ?_
    unfold insertedWeight
    split
    · exact (add_zero _).symm
    · exact (zero_add _).symm
  have hsubmitted := h.submitted within
  have hinserted := h.inserted within
  refine ⟨hsucceeded, hfailed, ?_⟩
  unfold unrecorded
  omega

/-- In a quiescent state the metrics balance exactly when every submission has its record and no
job was cancelled while QUEUED. -/
theorem balanced_iff (h : Account m) (hrest : Quiescent m) (within : HardwareTarget → Bool) :
    BalancedMetrics m within ↔ unrecorded m within = 0 ∧ cancelledEarly m within = 0 := by
  obtain ⟨hsucceeded, hfailed, hsubmitted⟩ := account h hrest within
  constructor
  · intro hbalanced
    have hearly : cancelledEarly m within = 0 := by
      have hsame := hbalanced.failed
      omega
    have htotal := hbalanced.total
    exact ⟨by omega, hearly⟩
  · rintro ⟨hnone, hearly⟩
    exact ⟨by omega, hsucceeded.symm, by omega⟩

/-! ### Runs without refusals and early cancels -/

/-- The queue takes in every call that has counted its submission, and no cancel finds its job
QUEUED. -/
def undisturbed (cfg : Config) : MeteredEvent ι → Metered → Prop
  | .enqueue _, m => m.queue.shutdown = false ∧ m.queue.active < cfg.maxPending
  | .queue (.job id (.cancel _ _)) _, m => ∀ j, m.queue.jobs.get? id = some j → j.record.status ≠ .queued
  | _, _ => True

/-- No call was refused before it inserted its record, and no job was cancelled while QUEUED. -/
structure Undisturbed (m : Metered) : Prop where
  calls : ∀ c call, m.queue.calls.get? c = some call → call.phase = .checked ∨ call.phase.inserted = true
  jobs : ∀ id j, m.queue.jobs.get? id = some j → j.cancelledQueued = false

theorem Undisturbed.setCall {c : Nat} {call : EnqueueCall} {phase : EnqueuePhase}
    (h : ∀ c call, q.calls.get? c = some call → call.phase = .checked ∨ call.phase.inserted = true)
    (hphase : phase = .checked ∨ phase.inserted = true) (hcalls : u.calls = q.calls.set c {call with phase := phase}) :
    ∀ c call, u.calls.get? c = some call → call.phase = .checked ∨ call.phase.inserted = true := by
  rw [hcalls]
  exact Dict.forall_set h hphase

/-- A step that finds no QUEUED job to cancel leaves no mark of one. -/
theorem not_cancelledQueued {timeoutSeconds : Int} {act : JobEvent ι} {j : Job} {effect : Effect}
    (h : j.cancelledQueued = false) (hrule : ∀ reason now, act = .cancel reason now → j.record.status ≠ .queued)
    (hstep : j.step fn timeoutSeconds act = some effect) : effect.job.cancelledQueued = false := by
  cases Job.step_some hstep with
  | expire _ hrunning =>
    show (j.cancelledQueued || decide (j.record.status = .queued)) = false
    rw [h, hrunning]
    rfl
  | cancel =>
    show (j.cancelledQueued || decide (j.record.status = .queued)) = false
    rw [h, decide_eq_false (hrule _ _ rfl)]
    rfl
  | _ => exact h

theorem undisturbed_jobs (h : Undisturbed m) (hstep : (queue fn cfg).step e m.queue = some u)
    (hrule : ∀ id reason now, e = .job id (.cancel reason now) → ∀ j, m.queue.jobs.get? id = some j →
      j.record.status ≠ .queued) : ∀ id j, u.jobs.get? id = some j → j.cancelledQueued = false := by
  refine forall_jobs_step (fun j j' hquiet hnot => hquiet.cancelledQueued.trans hnot) (fun _ _ _ => rfl)
    (fun id act j effect heq hj heffect => ?_) h.jobs hstep
  refine not_cancelledQueued (h.jobs id j hj) (fun reason now hact => ?_) heffect
  exact hrule id reason now (by rw [heq, hact]) j hj

theorem undisturbed_step {a : MeteredEvent ι} (h : Undisturbed m) (hrule : undisturbed cfg a m)
    (hstep : (metered fn cfg).step a m = some m') : Undisturbed m' := by
  cases a with
  | submission c request session =>
    change Metered.submission c request session m = some m' at hstep
    unfold Metered.submission at hstep
    split at hstep
    · cases hstep
      exact ⟨h.calls, h.jobs⟩
    · cases hstep
  | enqueue c =>
    change Metered.enqueue fn cfg c m = some m' at hstep
    unfold Metered.enqueue at hstep
    split at hstep
    · obtain ⟨u, hu, rfl⟩ := Option.map_eq_some_iff.mp hstep
      refine ⟨?_, undisturbed_jobs h hu (by nofun)⟩
      cases Queue.step_some hu with
      | closed _ hdown => exact absurd (hdown.symm.trans hrule.1) nofun
      | full _ _ hfull => exact absurd hrule.2 (Nat.not_lt.mpr hfull)
      | check => exact Undisturbed.setCall h.calls (.inl rfl) rfl
    · cases hstep
  | queue e clock =>
    obtain ⟨hother, u, hu, rfl⟩ := stepQueue_some hstep
    have hcancel : ∀ id reason now, e = .job id (.cancel reason now) → ∀ j, m.queue.jobs.get? id = some j →
        j.record.status ≠ .queued := by
      rintro id reason now rfl
      exact hrule
    refine ⟨?_, undisturbed_jobs h hu hcancel⟩
    cases Queue.step_some hu with
    | closed | full | check => exact absurd rfl (hother _ _ _)
    | register | submit | keep => exact Undisturbed.setCall h.calls (.inr rfl) rfl
    | refuse => exact Undisturbed.setCall h.calls (.inr (by decide)) rfl
    | job | shutdown | shutdownExecutor => exact h.calls

theorem undisturbed_init (h : (metered fn cfg).init m) : Undisturbed m := by
  obtain ⟨⟨hjobs, _, hcalls, _⟩, _, _⟩ := h
  constructor
  · intro c call hcall
    rw [hcalls, Dict.get?_empty] at hcall
    cases hcall
  · intro id j hj
    rw [hjobs, Dict.get?_empty] at hj
    cases hj

/-- No call is between the count of its submission and the insertion of its record. -/
structure Settled (m : Metered) : Prop where
  begun : ∀ c, m.begun.get? c = none
  checked : ∀ c call, m.queue.calls.get? c = some call → call.phase ≠ .checked

/-- **Where the queue refuses no submission and no cancel finds its job QUEUED, the metrics
balance, for any targets, in every state without a thread at work, a QUEUED job or a
submission under way.** -/
theorem metrics_balance (h : (metered fn cfg).Reachable (undisturbed cfg) m) (hrest : Quiescent m) (hsettled : Settled m)
    (within : HardwareTarget → Bool) : BalancedMetrics m within := by
  have hundisturbed : Undisturbed m :=
    Transition.System.reachable_invariant (fun _ => undisturbed_init)
      (fun _ _ _ hm hrule hstep => undisturbed_step hm hrule hstep) h
  refine (balanced_iff (account_reachable h) hrest within).mpr ⟨?_, ?_⟩
  · have hbegun : (m.begun.total fun _ call => weigh within call.1.hardwareTarget) = 0 :=
      Dict.total_eq_zero fun c call hcall => absurd (hcall.symm.trans (hsettled.begun c)) nofun
    have hcalls : (m.queue.calls.total fun _ call =>
        if call.phase.inserted then 0 else weigh within call.request.hardwareTarget) = 0 :=
      Dict.total_eq_zero fun c call hcall =>
        if_pos ((hundisturbed.calls c call hcall).resolve_left (hsettled.checked c call hcall))
    rw [unrecorded, hbegun, hcalls]
    rfl
  · refine Dict.total_eq_zero fun id j hj => ?_
    rw [hundisturbed.jobs id j hj]
    rfl

end Steps

/-! ### A job cancelled while QUEUED -/

def emptyMetered : Metered := { queue := emptyQueue }

def accepted : List (MeteredEvent Unit) :=
  [.submission 0 simRequest 7, .enqueue 0, .queue (.register 0 1 0) (0, 0), .queue (.submit 0) (0, 0),
    .queue (.keep 0) (0, 0)]

def atRestTest (m : Metered) : Bool :=
  (m.queue.jobs.entries.all fun entry => !entry.2.worker.busy && entry.2.record.status != .queued) &&
    m.begun.entries.isEmpty && m.queue.calls.entries.all fun entry => entry.2.phase.inserted

theorem atRest_of_test {m : Metered} (h : atRestTest m = true) : Quiescent m ∧ Settled m := by
  simp only [atRestTest, Bool.and_eq_true, List.all_eq_true, List.isEmpty_iff] at h
  obtain ⟨⟨hjobs, hbegun⟩, hcalls⟩ := h
  refine ⟨⟨fun id j hj => ?_, fun id j hj => ?_⟩, ⟨fun c => ?_, fun c call hcall hchecked => ?_⟩⟩
  · simpa using (hjobs (id, j) (Dict.mem_entries.mpr hj)).1
  · simpa using (hjobs (id, j) (Dict.mem_entries.mpr hj)).2
  · cases hcall : m.begun.get? c with
    | none => rfl
    | some call =>
      have hmem := Dict.mem_entries.mpr hcall
      rw [hbegun] at hmem
      cases hmem
  · have hinserted := hcalls (c, call) (Dict.mem_entries.mpr hcall)
    simp only [hchecked] at hinserted
    cases hinserted

theorem metrics_unbalanced :
    ¬∀ (fn : WorkerFn Unit) (cfg : Config) (m : Metered), (metered fn cfg).Reachable Transition.anything m →
      Quiescent m → Settled m → ∀ within, BalancedMetrics m within := by
  intro hclaim
  have hrun : ((metered idleWorker {}).run emptyMetered (accepted ++ [.queue (.job 1 (.cancel "Cancelled" 1)) (0, 0)])).map
      (fun m => (atRestTest m, counter m.metrics (fun _ => true) .submitted, counter m.metrics (fun _ => true) .succeeded,
        counter m.metrics (fun _ => true) .failed)) = some (true, 1, 0, 0) := by decide +kernel
  obtain ⟨m, hm, hstate⟩ := Option.map_eq_some_iff.mp hrun
  simp only [Prod.mk.injEq] at hstate
  obtain ⟨htest, hsubmitted, hsucceeded, hfailed⟩ := hstate
  obtain ⟨hrest, hsettled⟩ := atRest_of_test htest
  have hbalanced := hclaim idleWorker {} m
    (Transition.System.run_reachable ⟨⟨rfl, rfl, rfl, rfl, rfl, rfl⟩, rfl, rfl⟩ hm) hrest hsettled fun _ => true
  have htotal := hbalanced.total
  rw [hsubmitted, hsucceeded, hfailed] at htotal
  cases htotal

/-- The job is taken up and succeeds. -/
def doneRun : List (MeteredEvent Unit) :=
  accepted ++ [.queue (.job 1 .start) (0, 0), .queue (.job 1 (.enter 1)) (0, 0), .queue (.job 1 .arm) (0, 0),
    .queue (.job 1 .call) (0, 0), .queue (.job 1 (.work ())) (0, 0), .queue (.job 1 .store) (0, 0),
    .queue (.job 1 (.complete 2)) (0, 0), .queue (.job 1 .disarm) (0, 0), .queue (.job 1 (.close 3)) (0, 0),
    .queue (.job 1 .observe) (0, 0)]

/-- The rule as a test. -/
def undisturbedTest (cfg : Config) : MeteredEvent Unit → Metered → Bool
  | .enqueue _, m => !m.queue.shutdown && m.queue.active < cfg.maxPending
  | .queue (.job _ (.cancel _ _)) _, _ => false
  | _, _ => true

theorem undisturbed_of_test {cfg : Config} {a : MeteredEvent Unit} {m : Metered} (h : undisturbedTest cfg a m = true) :
    undisturbed cfg a m := by
  unfold undisturbed
  split
  · simpa [undisturbedTest] using h
  · cases h
  · trivial

theorem metrics_balance_done : ∃ m : Metered, (metered doneWorker {}).walk (undisturbedTest {}) emptyMetered doneRun =
    some m ∧ counter m.metrics (fun _ => true) .submitted = 1 ∧ BalancedMetrics m fun _ => true := by
  have hrun : ((metered doneWorker {}).walk (undisturbedTest {}) emptyMetered doneRun).map
      (fun m => (atRestTest m, counter m.metrics (fun _ => true) .submitted)) = some (true, 1) := by decide +kernel
  obtain ⟨m, hm, hstate⟩ := Option.map_eq_some_iff.mp hrun
  simp only [Prod.mk.injEq] at hstate
  obtain ⟨htest, hsubmitted⟩ := hstate
  obtain ⟨hrest, hsettled⟩ := atRest_of_test htest
  have hleads := Transition.System.walk_leads (C := undisturbed {}) (fun _ _ _ htest => undisturbed_of_test htest) hm
  exact ⟨m, hm, hsubmitted,
    metrics_balance ⟨emptyMetered, ⟨⟨rfl, rfl, rfl, rfl, rfl, rfl⟩, rfl, rfl⟩, hleads⟩ hrest hsettled _⟩

end SynQc.Jobs
