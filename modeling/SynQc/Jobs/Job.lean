import SynQc.Jobs.Record

/-! One job of the embedded queue, from the moment it is registered.

Three kinds of actor work on a job: the pool thread that runs `_run_job`, the timer it
starts, and callers of `cancel`. Each section under the queue's lock is one step, and so
is each call between two sections. A section returns an `Effect`: the job afterwards, the
key under which a failure was counted, and what was added to the experiment store.

A record is decided once. `Move` says what a step can do to it, and everything else about
status, error fields and counts follows from that (`step_move`). -/
namespace SynQc.Jobs

/-- The `Future` of the pool. A cancelled one is notified when a thread takes it up. -/
inductive Future where
  | unsubmitted
  | pending
  | running
  | cancelled
  | notified
  | finished
  deriving DecidableEq

/-- Where `_run_job` stands. -/
inductive Worker where
  | idle
  | started
  | entered
  | ready
  | inside
  | computed (out : Outcome)
  | returned (result : Except Exc RunExperimentResponse)
  | persisting
  | closing
  | closed
  | observing
  | done

inductive Timer where
  | off
  | armed
  | fired
  | over
  deriving DecidableEq

structure Job where
  record : JobRecord
  session : SessionId
  cancelEvent : Bool := false
  future : Future := .unsubmitted
  /-- Whether the future is in the queue's table, where cancel and timeout look for it. -/
  kept : Bool := false
  worker : Worker := .idle
  timer : Timer := .off
  /-- Failure entries that timeout and cancel have yet to add to the store. -/
  due : Nat := 0
  /-- How often the worker function was started. -/
  calls : Nat := 0
  /-- How often cancel, timeout or failure decided the record. -/
  wins : Nat := 0
  /-- Whether a cancel found the job queued. -/
  cancelledQueued : Bool := false

structure Effect where
  job : Job
  counted : Option String := none
  stored : Option RunExperimentResponse := none

inductive JobEvent (ι : Type) where
  | start
  | enter (now : Time)
  | arm
  | call
  | work (i : ι)
  | store
  | complete (now : Time)
  | persistWorker (now : Time)
  | disarm
  | close (now : Time)
  | observe
  | fire
  | timeout (now : Time)
  | cancel (reason : String) (now : Time)
  | persist (now : Time)

namespace Job

/-- The common part of cancel, timeout and `_fail_record`. -/
def fail (j : Job) (f : Failure) (now : Time) : Job :=
  {j with record := j.record.fail f now, wins := j.wins + 1}

/-- Fail the record from outside: set the cancel event, cancel the future if it can still be
cancelled, and owe the store an entry. -/
def abandon (j : Job) (f : Failure) (now : Time) : Job :=
  {j.fail f now with
    cancelEvent := true
    future := if j.kept ∧ j.future = .pending then .cancelled else j.future
    due := j.due + 1
    cancelledQueued := j.cancelledQueued || j.record.status = .queued}

/-! ### The sections -/

/-- A pool thread takes up the work item. -/
def start (j : Job) : Option Effect :=
  match j.worker, j.future with
  | .idle, .pending => some ⟨{j with future := .running, worker := .started}, none, none⟩
  | .idle, .cancelled => some ⟨{j with future := .notified}, none, none⟩
  | _, _ => none

/-- `_run_job`: transition to RUNNING, or exit fast if someone cancelled before the start. -/
def enter (j : Job) (now : Time) : Option Effect :=
  match j.worker with
  | .started =>
    if j.record.status = .failed then some ⟨{j with future := .finished, worker := .done}, none, none⟩
    else
      some ⟨{j with
        record := {j.record with status := .running, startedAt := some now}
        worker := .entered}, none, none⟩
  | _ => none

def arm (timeoutSeconds : Int) (j : Job) : Option Effect :=
  match j.worker with
  | .entered =>
    some ⟨{j with timer := if 0 < timeoutSeconds then .armed else .off, worker := .ready}, none, none⟩
  | _ => none

def call (j : Job) : Option Effect :=
  match j.worker with
  | .ready => some ⟨{j with worker := .inside, calls := j.calls + 1}, none, none⟩
  | _ => none

def work {ι : Type} (fn : WorkerFn ι) (i : ι) (j : Job) : Option Effect :=
  match j.worker with
  | .inside =>
    some ⟨{j with worker := .computed (fn i j.record.request j.session j.record.id)}, none, none⟩
  | _ => none

/-- The worker function adds its run to the store, then returns. -/
def store (j : Job) : Option Effect :=
  match j.worker with
  | .computed out => some ⟨{j with worker := .returned out.result}, none, out.stored⟩
  | _ => none

/-- Success, or one of the handlers. If timeout/cancel already marked the record failed, it is
not overwritten. -/
def complete (j : Job) (now : Time) : Option Effect :=
  match j.worker with
  | .returned result =>
    if j.record.status ≠ .running then some ⟨{j with worker := .closing}, none, none⟩
    else
      match result with
      | .ok run =>
        some ⟨{j with
          record := {j.record with result := some run, status := .succeeded}
          worker := .closing}, none, none⟩
      | .error exc =>
        let job := j.fail (report exc).failure now
        some ⟨{job with worker := .persisting}, some job.record.codeKey, none⟩
  | _ => none

def persistWorker (j : Job) (now : Time) : Option Effect :=
  match j.worker with
  | .persisting => some ⟨{j with worker := .closing}, none, some (failureEntry j.record now)⟩
  | _ => none

/-- `timer.cancel()`: a timer that has fired is not stopped. -/
def disarm (j : Job) : Option Effect :=
  match j.worker with
  | .closing =>
    some ⟨{j with worker := .closed, timer := if j.timer = .armed then .over else j.timer}, none, none⟩
  | _ => none

def close (j : Job) (now : Time) : Option Effect :=
  match j.worker with
  | .closed =>
    let record :=
      if j.record.finishedAt = none ∧ j.record.status.terminal then {j.record with finishedAt := some now}
      else j.record
    some ⟨{j with record := record, worker := .observing}, none, none⟩
  | _ => none

def observe (j : Job) : Option Effect :=
  match j.worker with
  | .observing => some ⟨{j with future := .finished, worker := .done}, none, none⟩
  | _ => none

def fire (j : Job) : Option Effect :=
  match j.timer with
  | .armed => some ⟨{j with timer := .fired}, none, none⟩
  | _ => none

/-- `_timeout_job` -/
def timeout (timeoutSeconds : Int) (j : Job) (now : Time) : Option Effect :=
  match j.timer with
  | .fired =>
    if j.record.status ≠ .running then some ⟨{j with timer := .over}, none, none⟩
    else
      let job := j.abandon (expiry timeoutSeconds) now
      some ⟨{job with timer := .over}, some job.record.codeKey, none⟩
  | _ => none

def cancel (j : Job) (reason : String) (now : Time) : Effect :=
  if j.record.status.terminal then ⟨j, none, none⟩
  else
    let job := j.abandon (cancellation reason) now
    ⟨job, some job.record.codeKey, none⟩

/-- `_persist_failure` of a timeout or a cancel. -/
def persist (j : Job) (now : Time) : Option Effect :=
  match j.due with
  | 0 => none
  | due + 1 => some ⟨{j with due := due}, none, some (failureEntry j.record now)⟩

def step {ι : Type} (fn : WorkerFn ι) (timeoutSeconds : Int) : JobEvent ι → Job → Option Effect
  | .start, j => j.start
  | .enter now, j => j.enter now
  | .arm, j => arm timeoutSeconds j
  | .call, j => j.call
  | .work i, j => work fn i j
  | .store, j => j.store
  | .complete now, j => j.complete now
  | .persistWorker now, j => j.persistWorker now
  | .disarm, j => j.disarm
  | .close now, j => j.close now
  | .observe, j => j.observe
  | .fire, j => j.fire
  | .timeout now, j => timeout timeoutSeconds j now
  | .cancel reason now, j => some (j.cancel reason now)
  | .persist now, j => j.persist now

/-! ### What a step can do -/

/-- The steps, one constructor for each way a section can go. -/
inductive Step {ι : Type} (fn : WorkerFn ι) (timeoutSeconds : Int) (j : Job) : JobEvent ι → Effect → Prop where
  | start (hworker : j.worker = .idle) (hfuture : j.future = .pending) :
      Step fn timeoutSeconds j .start ⟨{j with future := .running, worker := .started}, none, none⟩
  | discard (hworker : j.worker = .idle) (hfuture : j.future = .cancelled) :
      Step fn timeoutSeconds j .start ⟨{j with future := .notified}, none, none⟩
  | leave {now : Time} (hworker : j.worker = .started) (hfailed : j.record.status = .failed) :
      Step fn timeoutSeconds j (.enter now) ⟨{j with future := .finished, worker := .done}, none, none⟩
  | enter {now : Time} (hworker : j.worker = .started) (hopen : j.record.status ≠ .failed) :
      Step fn timeoutSeconds j (.enter now) ⟨{j with
        record := {j.record with status := .running, startedAt := some now}
        worker := .entered}, none, none⟩
  | arm (hworker : j.worker = .entered) :
      Step fn timeoutSeconds j .arm
        ⟨{j with timer := if 0 < timeoutSeconds then .armed else .off, worker := .ready}, none, none⟩
  | call (hworker : j.worker = .ready) :
      Step fn timeoutSeconds j .call ⟨{j with worker := .inside, calls := j.calls + 1}, none, none⟩
  | work {i : ι} (hworker : j.worker = .inside) :
      Step fn timeoutSeconds j (.work i)
        ⟨{j with worker := .computed (fn i j.record.request j.session j.record.id)}, none, none⟩
  | store {out : Outcome} (hworker : j.worker = .computed out) :
      Step fn timeoutSeconds j .store ⟨{j with worker := .returned out.result}, none, out.stored⟩
  | decided {now : Time} {result : Except Exc RunExperimentResponse} (hworker : j.worker = .returned result)
      (hdecided : j.record.status ≠ .running) :
      Step fn timeoutSeconds j (.complete now) ⟨{j with worker := .closing}, none, none⟩
  | succeed {now : Time} {run : RunExperimentResponse} (hworker : j.worker = .returned (.ok run))
      (hrunning : j.record.status = .running) :
      Step fn timeoutSeconds j (.complete now) ⟨{j with
        record := {j.record with result := some run, status := .succeeded}
        worker := .closing}, none, none⟩
  | fail {now : Time} {exc : Exc} (hworker : j.worker = .returned (.error exc))
      (hrunning : j.record.status = .running) :
      Step fn timeoutSeconds j (.complete now) ⟨{j.fail (report exc).failure now with worker := .persisting},
        some (j.fail (report exc).failure now).record.codeKey, none⟩
  | persistWorker {now : Time} (hworker : j.worker = .persisting) :
      Step fn timeoutSeconds j (.persistWorker now)
        ⟨{j with worker := .closing}, none, some (failureEntry j.record now)⟩
  | disarm (hworker : j.worker = .closing) :
      Step fn timeoutSeconds j .disarm
        ⟨{j with worker := .closed, timer := if j.timer = .armed then .over else j.timer}, none, none⟩
  | close {now : Time} {record : JobRecord} (hworker : j.worker = .closed)
      (hrecord : (j.record.finishedAt = none ∧ j.record.status.terminal = true) ∧
          record = {j.record with finishedAt := some now} ∨
        ¬(j.record.finishedAt = none ∧ j.record.status.terminal = true) ∧ record = j.record) :
      Step fn timeoutSeconds j (.close now) ⟨{j with record := record, worker := .observing}, none, none⟩
  | observe (hworker : j.worker = .observing) :
      Step fn timeoutSeconds j .observe ⟨{j with future := .finished, worker := .done}, none, none⟩
  | fire (htimer : j.timer = .armed) : Step fn timeoutSeconds j .fire ⟨{j with timer := .fired}, none, none⟩
  | spare {now : Time} (htimer : j.timer = .fired) (hdecided : j.record.status ≠ .running) :
      Step fn timeoutSeconds j (.timeout now) ⟨{j with timer := .over}, none, none⟩
  | expire {now : Time} (htimer : j.timer = .fired) (hrunning : j.record.status = .running) :
      Step fn timeoutSeconds j (.timeout now) ⟨{j.abandon (expiry timeoutSeconds) now with timer := .over},
        some (j.abandon (expiry timeoutSeconds) now).record.codeKey, none⟩
  | refuse {reason : String} {now : Time} (hterminal : j.record.status.terminal = true) :
      Step fn timeoutSeconds j (.cancel reason now) ⟨j, none, none⟩
  | cancel {reason : String} {now : Time} (hopen : j.record.status.terminal = false) :
      Step fn timeoutSeconds j (.cancel reason now) ⟨j.abandon (cancellation reason) now,
        some (j.abandon (cancellation reason) now).record.codeKey, none⟩
  | persist {now : Time} {due : Nat} (hdue : j.due = due + 1) :
      Step fn timeoutSeconds j (.persist now) ⟨{j with due := due}, none, some (failureEntry j.record now)⟩

theorem step_some {ι : Type} {fn : WorkerFn ι} {timeoutSeconds : Int} {e : JobEvent ι} {j : Job} {effect : Effect}
    (h : step fn timeoutSeconds e j = some effect) : Step fn timeoutSeconds j e effect := by
  cases e with
  | start =>
    simp only [step, start] at h
    split at h <;> cases h
    · rename_i hworker hfuture
      exact .start hworker hfuture
    · rename_i hworker hfuture
      exact .discard hworker hfuture
  | enter now =>
    simp only [step, enter] at h
    split at h
    · rename_i hworker
      split at h <;> cases h
      · rename_i hfailed
        exact .leave hworker hfailed
      · rename_i hopen
        exact .enter hworker hopen
    · cases h
  | arm =>
    simp only [step, arm] at h
    split at h <;> cases h
    rename_i hworker
    exact .arm hworker
  | call =>
    simp only [step, call] at h
    split at h <;> cases h
    rename_i hworker
    exact .call hworker
  | work i =>
    simp only [step, work] at h
    split at h <;> cases h
    rename_i hworker
    exact .work hworker
  | store =>
    simp only [step, store] at h
    split at h <;> cases h
    rename_i hworker
    exact .store hworker
  | complete now =>
    simp only [step, complete] at h
    split at h
    · rename_i hworker
      split at h
      · rename_i hdecided
        cases h
        exact .decided hworker hdecided
      · rename_i hstatus
        split at h <;> cases h
        · exact .succeed hworker (not_not.mp hstatus)
        · exact .fail hworker (not_not.mp hstatus)
    · cases h
  | persistWorker now =>
    simp only [step, persistWorker] at h
    split at h <;> cases h
    rename_i hworker
    exact .persistWorker hworker
  | disarm =>
    simp only [step, disarm] at h
    split at h <;> cases h
    rename_i hworker
    exact .disarm hworker
  | close now =>
    simp only [step, close] at h
    split at h <;> cases h
    rename_i hworker
    refine .close hworker ?_
    split
    · rename_i hunfinished
      exact .inl ⟨hunfinished, rfl⟩
    · rename_i hfinished
      exact .inr ⟨hfinished, rfl⟩
  | observe =>
    simp only [step, observe] at h
    split at h <;> cases h
    rename_i hworker
    exact .observe hworker
  | fire =>
    simp only [step, fire] at h
    split at h <;> cases h
    rename_i htimer
    exact .fire htimer
  | timeout now =>
    simp only [step, timeout] at h
    split at h
    · rename_i htimer
      split at h <;> cases h
      · rename_i hdecided
        exact .spare htimer hdecided
      · rename_i hstatus
        exact .expire htimer (not_not.mp hstatus)
    · cases h
  | cancel reason now =>
    simp only [step, cancel, Option.some.injEq] at h
    split at h <;> cases h
    · rename_i hterminal
      exact .refuse hterminal
    · rename_i hopen
      exact .cancel (Bool.eq_false_iff.mpr hopen)
  | persist now =>
    simp only [step, persist] at h
    split at h <;> cases h
    rename_i hdue
    exact .persist hdue

end Job

/-! ### What holds of a job -/

inductive Stage where
  | waiting
  | working
  | over

/-- Before the transition to RUNNING, from it to the decision, and after. -/
def Worker.stage : Worker → Stage
  | .idle | .started => .waiting
  | .entered | .ready | .inside | .computed _ | .returned _ => .working
  | .persisting | .closing | .closed | .observing | .done => .over

/-- Whether the worker function may have been started. -/
def Worker.called : Worker → Bool
  | .idle | .started | .entered | .ready => false
  | _ => true

/-- The statuses that go with a stage. -/
def Stage.allows : Stage → JobStatus → Prop
  | .waiting, status => status = .queued ∨ status = .failed
  | .working, status => status = .running ∨ status = .failed
  | .over, status => status = .succeeded ∨ status = .failed

/-- Nothing of the job is left to run: no thread, no timer, no entry to store. -/
def Job.finished (j : Job) : Bool :=
  j.due = 0 &&
    (match j.worker with
    | .idle | .done => true
    | _ => false) &&
    (j.timer = .off || j.timer = .over)

namespace Job

theorem nothing_left (j : Job) (h : j.finished = true) : j.due = 0 ∧ j.worker ≠ .persisting := by
  simp only [finished, Bool.and_eq_true, decide_eq_true_eq] at h
  refine ⟨h.1.1, fun hworker => ?_⟩
  rw [hworker] at h
  cases h.1.2

structure Ok (j : Job) : Prop where
  stage : j.worker.stage.allows j.record.status
  uncalled : j.worker.called = false → j.calls = 0
  once : j.calls ≤ 1
  cancelled : j.cancelledQueued = true →
    j.record.status = .failed ∧ j.calls = 0 ∧ (j.worker = .idle ∨ j.worker = .started ∨ j.worker = .done)
  wins : j.wins = if j.record.status = .failed then 1 else 0
  coded : j.record.status = .failed → ∃ code, j.record.errorCode = some code

/-- The ways a step can treat the record: leave its verdict, start it, complete it, or fail it
and count the failure. -/
inductive Move (j : Job) (effect : Effect) : Prop where
  | still (verdict : effect.job.record.verdict = j.record.verdict) (counted : effect.counted = none)
      (wins : effect.job.wins = j.wins)
  | enter (source : j.record.status = .queued) (target : effect.job.record.status = .running)
      (counted : effect.counted = none) (wins : effect.job.wins = j.wins)
  | succeed (source : j.record.status = .running) (target : effect.job.record.status = .succeeded)
      (counted : effect.counted = none) (wins : effect.job.wins = j.wins)
  | fail (f : Failure) (now : Time) (source : j.record.status.terminal = false)
      (record : effect.job.record = j.record.fail f now) (counted : effect.counted = some f.code.value)
      (wins : effect.job.wins = j.wins + 1)

section Steps
variable {ι : Type} {fn : WorkerFn ι} {timeoutSeconds : Int} {e : JobEvent ι} {j : Job} {effect : Effect}

theorem step_move (hok : j.Ok) (h : step fn timeoutSeconds e j = some effect) : Move j effect := by
  cases step_some h with
  | enter hworker hopen =>
    have hstage := hok.stage
    rw [hworker] at hstage
    exact .enter (hstage.resolve_right hopen) rfl rfl rfl
  | succeed _ hrunning => exact .succeed hrunning rfl rfl rfl
  | @fail now exc _ hrunning => exact .fail (report exc).failure now (by rw [hrunning]; rfl) rfl rfl rfl
  | @expire now _ hrunning => exact .fail (expiry timeoutSeconds) now (by rw [hrunning]; rfl) rfl rfl rfl
  | @cancel reason now hopen => exact .fail (cancellation reason) now hopen rfl rfl rfl
  | close _ hrecord => rcases hrecord with ⟨_, rfl⟩ | ⟨_, rfl⟩ <;> exact .still rfl rfl rfl
  | start | discard | leave | arm | call | work | store | decided | persistWorker | disarm | observe | fire | spare
  | refuse | persist => exact .still rfl rfl rfl

/-- A record failed from outside leaves the worker where it is. -/
theorem Ok.abandon (hok : j.Ok) (hopen : j.record.status.terminal = false) (f : Failure) (now : Time)
    (timer : Timer) : Ok {j.abandon f now with timer := timer} := by
  have hwins : j.wins = 0 := by
    rw [hok.wins, if_neg]
    intro hfailed
    rw [hfailed] at hopen
    cases hopen
  refine ⟨?_, hok.uncalled, hok.once, fun hcancelled => ?_, ?_, fun _ => ⟨f.code, rfl⟩⟩
  · show j.worker.stage.allows .failed
    cases j.worker.stage <;> exact .inr rfl
  · by_cases hbefore : j.cancelledQueued = true
    · obtain ⟨hfailed, _, _⟩ := hok.cancelled hbefore
      rw [hfailed] at hopen
      cases hopen
    · -- found queued, so the worker has not got to the record
      have hqueued : j.record.status = .queued := by
        simpa [Job.abandon, Job.fail, hbefore] using hcancelled
      have hstage := hok.stage
      rw [hqueued] at hstage
      refine ⟨rfl, ?_, ?_⟩
      · apply hok.uncalled
        cases hworker : j.worker <;> simp_all [Worker.stage, Worker.called, Stage.allows]
      · show j.worker = .idle ∨ j.worker = .started ∨ j.worker = .done
        cases hworker : j.worker <;> simp_all [Worker.stage, Stage.allows]
  · show j.wins + 1 = 1
    rw [hwins]

/-- A step of the worker that leaves the verdict alone. -/
theorem Ok.advance (hok : j.Ok) {j' : Job} (hstatus : j'.record.status = j.record.status)
    (hcode : j'.record.errorCode = j.record.errorCode) (hwins : j'.wins = j.wins)
    (hqueued : j'.cancelledQueued = j.cancelledQueued) (hcalls : j'.calls = j.calls)
    (hstage : j'.worker.stage.allows j.record.status)
    (hcalled : j'.worker.called = false → j.worker.called = false)
    (hcancelled : j.cancelledQueued = true →
      j'.worker = .idle ∨ j'.worker = .started ∨ j'.worker = .done) : j'.Ok := by
  refine ⟨hstatus ▸ hstage, fun h => hcalls.trans (hok.uncalled (hcalled h)), hcalls ▸ hok.once, fun h => ?_,
    ?_, fun h => ?_⟩
  · rw [hqueued] at h
    obtain ⟨hfailed, hzero, _⟩ := hok.cancelled h
    exact ⟨hstatus.trans hfailed, hcalls.trans hzero, hcancelled h⟩
  · rw [hwins, hstatus]
    exact hok.wins
  · rw [hstatus] at h
    rw [hcode]
    exact hok.coded h

/-- A worker past the start was not cancelled while queued. -/
theorem Ok.not_cancelled (hok : j.Ok) (hworker : j.worker ≠ .idle ∧ j.worker ≠ .started ∧ j.worker ≠ .done) :
    ¬j.cancelledQueued = true := by
  intro h
  obtain ⟨_, _, hidle | hstarted | hdone⟩ := hok.cancelled h
  · exact hworker.1 hidle
  · exact hworker.2.1 hstarted
  · exact hworker.2.2 hdone

/-- A step of the worker past its start that only moves it on. -/
theorem Ok.inside (hok : j.Ok) (hworker : j.worker ≠ .idle ∧ j.worker ≠ .started ∧ j.worker ≠ .done) {j' : Job}
    (hstatus : j'.record.status = j.record.status) (hcode : j'.record.errorCode = j.record.errorCode)
    (hwins : j'.wins = j.wins) (hqueued : j'.cancelledQueued = j.cancelledQueued) (hcalls : j'.calls = j.calls)
    (hstage : j'.worker.stage = j.worker.stage) (hcalled : j'.worker.called = false → j.worker.called = false) :
    j'.Ok :=
  hok.advance hstatus hcode hwins hqueued hcalls (hstage ▸ hok.stage) hcalled fun h =>
    absurd h (hok.not_cancelled hworker)

theorem step_ok (hok : j.Ok) (h : step fn timeoutSeconds e j = some effect) : effect.job.Ok := by
  have hstage := hok.stage
  cases step_some h with
  | start hworker _ =>
    rw [hworker] at hstage
    exact hok.advance rfl rfl rfl rfl rfl hstage (fun _ => by rw [hworker]; rfl) fun _ => .inr (.inl rfl)
  | discard hworker _ => exact hok.advance rfl rfl rfl rfl rfl hstage id fun _ => .inl hworker
  | leave _ hfailed =>
    exact hok.advance rfl rfl rfl rfl rfl (.inr hfailed) (fun h => nomatch h) fun _ => .inr (.inr rfl)
  | enter hworker hopen =>
    rw [hworker] at hstage
    have hqueued : j.record.status = .queued := hstage.resolve_right hopen
    have hfresh : ¬j.cancelledQueued = true := fun h => by
      rw [(hok.cancelled h).1] at hqueued
      cases hqueued
    have hwins := hok.wins
    rw [hqueued] at hwins
    exact ⟨.inl rfl, fun _ => hok.uncalled (by rw [hworker]; rfl), hok.once, fun h => absurd h hfresh, hwins, nofun⟩
  | arm hworker =>
    exact hok.inside (by simp [hworker]) rfl rfl rfl rfl rfl (by rw [hworker]; rfl) fun _ => by rw [hworker]; rfl
  | call hworker =>
    have hzero : j.calls = 0 := hok.uncalled (by rw [hworker]; rfl)
    rw [hworker] at hstage
    refine ⟨hstage, nofun, ?_, fun h => ?_, hok.wins, hok.coded⟩
    · show j.calls + 1 ≤ 1
      rw [hzero]
    · exact absurd h (hok.not_cancelled (by simp [hworker]))
  | work hworker | store hworker | persistWorker hworker | disarm hworker =>
    exact hok.inside (by simp [hworker]) rfl rfl rfl rfl rfl (by rw [hworker]; rfl) fun h => nomatch h
  | decided hworker hdecided =>
    rw [hworker] at hstage
    exact hok.advance rfl rfl rfl rfl rfl (.inr (hstage.resolve_left hdecided)) (fun h => nomatch h)
      fun h => absurd h (hok.not_cancelled (by simp [hworker]))
  | succeed hworker hrunning =>
    have hfresh := hok.not_cancelled (by simp [hworker])
    have hwins := hok.wins
    rw [hrunning] at hwins
    exact ⟨.inl rfl, nofun, hok.once, fun h => absurd h hfresh, hwins, nofun⟩
  | fail hworker hrunning =>
    have hfresh := hok.not_cancelled (by simp [hworker])
    have hwins := hok.wins
    rw [hrunning] at hwins
    refine ⟨.inr rfl, nofun, hok.once, fun h => absurd h hfresh, ?_, fun _ => ⟨_, rfl⟩⟩
    show j.wins + 1 = 1
    rw [hwins]
    rfl
  | close hworker hrecord =>
    rcases hrecord with ⟨_, rfl⟩ | ⟨_, rfl⟩ <;>
      exact hok.inside (by simp [hworker]) rfl rfl rfl rfl rfl (by rw [hworker]; rfl) fun h => nomatch h
  | observe hworker =>
    rw [hworker] at hstage
    exact hok.advance rfl rfl rfl rfl rfl hstage (fun h => nomatch h) fun _ => .inr (.inr rfl)
  | fire | spare | persist => exact hok.advance rfl rfl rfl rfl rfl hstage id fun h => (hok.cancelled h).2.2
  | expire _ hrunning => exact hok.abandon (by rw [hrunning]; rfl) _ _ _
  | refuse => exact hok
  | cancel hopen => exact hok.abandon hopen _ _ j.timer

end Steps

end Job

end SynQc.Jobs
