import SynQc.Jobs.Queue

/-! The store and the records.

Three actors add runs to the store under one id, none of them under the queue's lock: the
engine when a run succeeds, and timeout and cancel (or the failing worker itself) after
they failed the record. The record ignores an engine that comes late; the store does not.
`notLate` is the rule that the engine never comes late: when it adds its run the record is
still running, or the failure entry is still to come. Under it the last run added agrees
with the record, and the store has that one or has dropped it for older age. -/
namespace SynQc.Jobs

/-- The engine adds its run before anyone's failure entry for the job was added. -/
def notLate : Event Engine.RunInputs → Queue → Prop
  | .job id .store, q => ∀ j out, q.jobs.get? id = some j → j.worker = .computed out →
      out.stored.isSome = true → j.record.status = .running ∨ 0 < j.due
  | _, _ => True

/-- What the engine hands back: a run under the job's id without an error, if any. -/
structure FromEngine (id : RunId) (out : Outcome) : Prop where
  stored : ∀ run, out.stored = some run → run.id = id ∧ run.errorCode = none
  result : ∀ run, out.result = .ok run → out.stored = some run

theorem engineWorker_fromEngine (s : Settings) (inputs : Engine.RunInputs) (req : RunExperimentRequest)
    (session : SessionId) (id : RunId) : FromEngine id (engineWorker s inputs req session id) :=
  ⟨fun _ h => ⟨(engineWorker_stored h).1, (engineWorker_stored h).2.1⟩, fun _ h => engineWorker_ok h⟩

/-- A worker that holds no outcome and owes no entry. -/
def Worker.plain : Worker → Bool
  | .computed _ | .returned _ | .persisting => false
  | _ => true

/-- The last run added under a job's id agrees with the record, or is about to. -/
structure Recorded (id : RunId) (j : Job) (last : Option RunExperimentResponse) : Prop where
  named : j.record.id = id
  outcome : ∀ out, j.worker = .computed out → FromEngine id out
  returned : ∀ run, j.worker = .returned (.ok run) → j.record.status = .running →
    last = some run ∧ run.errorCode = none
  owed : 0 < j.due ∨ j.worker = .persisting → j.record.status = .failed
  succeeded : j.record.status = .succeeded → ∃ run, last = some run ∧ run.errorCode = none
  failed : j.record.status = .failed →
    0 < j.due ∨ j.worker = .persisting ∨ ∃ run, last = some run ∧ run.errorCode = j.record.errorCode

/-- What the add of an effect leaves under the job's id. -/
def lastAfter (last stored : Option RunExperimentResponse) : Option RunExperimentResponse :=
  match stored with
  | some run => some run
  | none => last

section Steps
variable {s : Settings} {cfg : Config} {id : RunId} {j j' : Job} {last : Option RunExperimentResponse}

/-- A job that someone fails from outside owes the store an entry. -/
theorem Recorded.abandon (h : Recorded id j last) (f : Failure) (now : Time) (timer : Timer) :
    Recorded id {j.abandon f now with timer := timer} last where
  named := h.named
  outcome := h.outcome
  returned _ _ hstatus := by cases hstatus
  owed _ := rfl
  succeeded hstatus := by cases hstatus
  failed _ := .inl (Nat.succ_pos j.due)

/-- The job with another worker, which holds nothing and owes nothing. -/
theorem Recorded.plain (h : Recorded id j last) (hbefore : j.worker ≠ .persisting)
    (hplain : j'.worker.plain = true) (hid : j'.record.id = j.record.id)
    (hstatus : j'.record.status = j.record.status) (hcode : j'.record.errorCode = j.record.errorCode)
    (hdue : j'.due = j.due) : Recorded id j' last := by
  have hafter : j'.worker ≠ .persisting := by
    intro hworker
    rw [hworker] at hplain
    cases hplain
  refine ⟨hid.trans h.named, fun out hworker => ?_, fun run hworker _ => ?_, fun howed => ?_, fun hs => ?_,
    fun hs => ?_⟩
  · rw [hworker] at hplain
    cases hplain
  · rw [hworker] at hplain
    cases hplain
  · rw [hdue] at howed
    exact hstatus.trans (h.owed (howed.imp_right fun hp => absurd hp hafter))
  · exact h.succeeded (hstatus ▸ hs)
  · rw [hdue, hcode]
    exact (h.failed (hstatus ▸ hs)).imp_right (Or.imp_left fun hp => absurd hp hbefore)

/-- A touch that is nothing to the record or the worker. -/
theorem Recorded.quiet (h : Recorded id j last) (hrecord : j'.record = j.record)
    (hworker : j'.worker = j.worker) (hdue : j'.due = j.due) : Recorded id j' last := by
  obtain ⟨hnamed, houtcome, hreturned, howed, hsucceeded, hfailed⟩ := h
  rw [← hrecord] at hnamed hreturned howed hsucceeded hfailed
  rw [← hworker] at houtcome hreturned howed hfailed
  rw [← hdue] at howed hfailed
  exact ⟨hnamed, houtcome, hreturned, howed, hsucceeded, hfailed⟩

theorem Recorded.store {out : Outcome} (h : Recorded id j last) (hok : j.Ok)
    (hworker : j.worker = .computed out)
    (hrule : out.stored.isSome = true → j.record.status = .running ∨ 0 < j.due) :
    Recorded id {j with worker := .returned out.result} (lastAfter last out.stored) := by
  have hengine := h.outcome out hworker
  have hstage := hok.stage
  rw [hworker] at hstage
  refine ⟨h.named, fun _ hw => ?_, fun run hresult _ => ?_, fun howed => ?_, fun hs => ?_, fun hs => ?_⟩
  · cases hw
  · have hstored := hengine.result run (Worker.returned.inj hresult)
    rw [hstored]
    exact ⟨rfl, (hengine.stored run hstored).2⟩
  · rcases howed with hdue | hp
    · exact h.owed (.inl hdue)
    · cases hp
  · rcases hstage with hrunning | hfailed
    · cases hrunning.symm.trans hs
    · cases hfailed.symm.trans hs
  · -- late with a run only while a failure entry is still to come
    cases hstored : out.stored with
    | some run =>
      rcases hrule (by rw [hstored]; rfl) with hrunning | hdue
      · cases hrunning.symm.trans hs
      · exact .inl hdue
    | none =>
      rcases h.failed hs with hdue | hp | hlast
      · exact .inl hdue
      · cases hworker.symm.trans hp
      · exact .inr (.inr hlast)

/-- The run is the last one added, so the record that names it agrees. -/
theorem Recorded.succeed {run : RunExperimentResponse} (h : Recorded id j last)
    (hworker : j.worker = .returned (.ok run)) (hrunning : j.record.status = .running) :
    Recorded id {j with record := {j.record with result := some run, status := .succeeded}, worker := .closing} last := by
  obtain ⟨hlast, hcode⟩ := h.returned run hworker hrunning
  refine ⟨h.named, fun _ hw => ?_, fun _ hw => ?_, fun howed => ?_, fun _ => ⟨run, hlast, hcode⟩, fun hs => ?_⟩
  · cases hw
  · cases hw
  · rcases howed with hdue | hp
    · cases hrunning.symm.trans (h.owed (.inl hdue))
    · cases hp
  · cases hs

/-- The failure entry of a failed record is added: the record and the last run now agree. -/
theorem Recorded.entry {now : Time} (h : Recorded id j last) (hfailed : j.record.status = .failed)
    (hrecord : j'.record = j.record) (houtcome : ∀ out, j'.worker = .computed out → j.worker = .computed out) :
    Recorded id j' (some (failureEntry j.record now)) := by
  have hfailed' : j'.record.status = .failed := by rw [hrecord, hfailed]
  refine ⟨hrecord ▸ h.named, fun out hw => h.outcome out (houtcome out hw), fun _ _ hs => ?_, fun _ => hfailed',
    fun hs => ?_, fun _ => .inr (.inr ⟨_, rfl, by rw [hrecord]; rfl⟩)⟩
  · cases hfailed'.symm.trans hs
  · cases hfailed'.symm.trans hs

theorem Recorded.step {timeoutSeconds : Int} {e : JobEvent Engine.RunInputs} {effect : Effect}
    (h : Recorded id j last) (hok : j.Ok)
    (hrule : ∀ out, e = .store → j.worker = .computed out → out.stored.isSome = true →
      j.record.status = .running ∨ 0 < j.due)
    (hstep : j.step (engineWorker s) timeoutSeconds e = some effect) :
    Recorded id effect.job (lastAfter last effect.stored) ∧ ∀ run, effect.stored = some run → run.id = id := by
  have hnothing : ∀ run : RunExperimentResponse, none = some run → run.id = id := by
    intro run hrun
    cases hrun
  cases Job.step_some hstep with
  | start hworker _ | leave hworker _ | arm hworker | call hworker | decided hworker _ | disarm hworker
  | observe hworker => exact ⟨h.plain (by simp [hworker]) rfl rfl rfl rfl rfl, hnothing⟩
  | discard | fire | spare => exact ⟨h.quiet rfl rfl rfl, hnothing⟩
  | enter _ hopen =>
    refine ⟨⟨h.named, fun _ hw => ?_, fun _ hw => ?_, fun howed => ?_, fun hs => ?_, fun hs => ?_⟩, hnothing⟩
    · cases hw
    · cases hw
    · rcases howed with hdue | hp
      · exact absurd (h.owed (.inl hdue)) hopen
      · cases hp
    · cases hs
    · cases hs
  | @work i hworker =>
    refine ⟨⟨h.named, fun out hw => ?_, fun _ hw => ?_, fun howed => ?_, h.succeeded, fun hs => ?_⟩, hnothing⟩
    · rw [← Worker.computed.inj hw, h.named]
      exact engineWorker_fromEngine s i _ _ id
    · cases hw
    · rcases howed with hdue | hp
      · exact h.owed (.inl hdue)
      · cases hp
    · rcases h.failed hs with hdue | hp | hlast
      · exact .inl hdue
      · cases hworker.symm.trans hp
      · exact .inr (.inr hlast)
  | @store out hworker =>
    exact ⟨h.store hok hworker (hrule out rfl hworker), fun run hrun => ((h.outcome out hworker).stored run hrun).1⟩
  | succeed hworker hrunning => exact ⟨h.succeed hworker hrunning, hnothing⟩
  | fail =>
    -- the worker owes the entry now
    refine ⟨⟨h.named, fun _ hw => ?_, fun _ hw => ?_, fun _ => rfl, fun hs => ?_, fun _ => .inr (.inl rfl)⟩, hnothing⟩
    · cases hw
    · cases hw
    · cases hs
  | persistWorker hworker =>
    refine ⟨h.entry (h.owed (.inr hworker)) rfl fun out hw => ?_, fun run hrun => ?_⟩
    · cases hw
    · cases hrun
      exact h.named
  | close hworker hrecord =>
    rcases hrecord with ⟨_, rfl⟩ | ⟨_, rfl⟩ <;>
      exact ⟨h.plain (by simp [hworker]) rfl rfl rfl rfl rfl, hnothing⟩
  | expire => exact ⟨h.abandon _ _ _, hnothing⟩
  | refuse => exact ⟨h, hnothing⟩
  | cancel => exact ⟨h.abandon _ _ j.timer, hnothing⟩
  | @persist now due hdue =>
    refine ⟨h.entry (h.owed (.inl (by omega))) rfl fun _ hw => hw, fun run hrun => ?_⟩
    cases hrun
    exact h.named

end Steps

/-! ### The whole queue -/

/-- Every job's last added run is as `Recorded` says, and the store has it or dropped it. -/
structure Agrees (q : Queue) : Prop where
  recorded : ∀ id j, q.jobs.get? id = some j → Recorded id j (q.written.get? id)
  store : ∀ id j, q.jobs.get? id = some j → q.store.get id = none ∨ q.store.get id = q.written.get? id

section System
variable {s : Settings} {cfg : Config} {q u : Queue} {id : RunId} {j : Job}

theorem agrees_init (h : (queue (engineWorker s) cfg).init q) : Agrees q := by
  refine ⟨fun id j hj => ?_, fun id j hj => ?_⟩
  · rw [h.1, Dict.get?_empty] at hj
    cases hj
  · rw [h.1, Dict.get?_empty] at hj
    cases hj

/-- A step that leaves jobs and store alone. -/
theorem Agrees.same (h : Agrees q) (hjobs : u.jobs = q.jobs) (hstore : u.store = q.store)
    (hwritten : u.written = q.written) : Agrees u := by
  refine ⟨fun id j hj => ?_, fun id j hj => ?_⟩
  · rw [hwritten]
    exact h.recorded id j (hjobs ▸ hj)
  · rw [hwritten, hstore]
    exact h.store id j (hjobs ▸ hj)

/-- A touch of every job. -/
theorem Agrees.touch (h : Agrees q) (f : Job → Job) (hquiet : ∀ j, Quiet j (f j)) (hdue : ∀ j, (f j).due = j.due)
    (hjobs : u.jobs = q.jobs.mapValues f) (hstore : u.store = q.store) (hwritten : u.written = q.written) :
    Agrees u := by
  refine ⟨fun id j hj => ?_, fun id j hj => ?_⟩
  · rw [hjobs, Dict.get?_mapValues] at hj
    obtain ⟨k, hk, rfl⟩ := Option.map_eq_some_iff.mp hj
    rw [hwritten]
    exact (h.recorded id k hk).quiet (hquiet k).record (hquiet k).worker (hdue k)
  · rw [hjobs, Dict.get?_mapValues] at hj
    obtain ⟨k, hk, _⟩ := Option.map_eq_some_iff.mp hj
    rw [hwritten, hstore]
    exact h.store id k hk

theorem written_apply (effect : Effect) (hid : ∀ run, effect.stored = some run → run.id = id) (id' : RunId) :
    (q.apply id effect).written.get? id' =
      if id = id' then lastAfter (q.written.get? id) effect.stored else q.written.get? id' := by
  simp only [Queue.apply, lastAfter]
  cases hstored : effect.stored with
  | none =>
    by_cases hne : id = id'
    · rw [if_pos hne, hne]
    · rw [if_neg hne]
  | some run => simp only [Dict.get?_set, hid run hstored]

/-- What an effect adds is stored or dropped; another entry stays or is dropped. -/
theorem store_apply (effect : Effect) {id' : RunId}
    (h : q.store.get id' = none ∨ q.store.get id' = q.written.get? id') :
    (q.apply id effect).store.get id' = none ∨
      (q.apply id effect).store.get id' = (q.apply id effect).written.get? id' := by
  cases hstored : effect.stored with
  | none => simpa [Queue.apply, hstored] using h
  | some run =>
    have hstore : (q.apply id effect).store = q.store.add run := by simp [Queue.apply, hstored]
    have hwritten : (q.apply id effect).written = q.written.set run.id run := by simp [Queue.apply, hstored]
    rw [hstore, hwritten, Dict.get?_set]
    rcases q.store.get_add run id' with hnone | hsome
    · exact .inl hnone
    · rw [hsome]
      by_cases hne : run.id = id'
      · rw [if_pos hne, if_pos hne]
        exact .inr rfl
      · rw [if_neg hne, if_neg hne]
        exact h

theorem Agrees.apply (h : Agrees q) (effect : Effect) (hj : q.jobs.get? id = some j)
    (hrecorded : Recorded id effect.job (lastAfter (q.written.get? id) effect.stored))
    (hid : ∀ run, effect.stored = some run → run.id = id) : Agrees (q.apply id effect) := by
  have hjobs : (q.apply id effect).jobs = q.jobs.set id effect.job := rfl
  refine ⟨fun id' j' hj' => ?_, fun id' j' hj' => ?_⟩
  · rw [hjobs, Dict.get?_set] at hj'
    rw [written_apply effect hid]
    by_cases hne : id = id'
    · subst hne
      rw [if_pos rfl] at hj' ⊢
      cases hj'
      exact hrecorded
    · rw [if_neg hne] at hj' ⊢
      exact h.recorded id' j' hj'
  · rw [hjobs, Dict.get?_set] at hj'
    apply store_apply effect
    by_cases hne : id = id'
    · exact h.store id' j (hne ▸ hj)
    · rw [if_neg hne] at hj'
      exact h.store id' j' hj'

/-- The new job of `register` has no run yet. -/
theorem Agrees.register (h : Agrees q) (call : EnqueueCall) (now : Time) (hstore : q.store.get id = none) :
    Agrees {q with jobs := q.jobs.set id (Queue.newJob id call now)} := by
  refine ⟨fun id' j' hj' => ?_, fun id' j' hj' => ?_⟩
  · change (q.jobs.set id (Queue.newJob id call now)).get? id' = some j' at hj'
    rw [Dict.get?_set] at hj'
    split at hj'
    · rename_i hid
      subst hid
      cases hj'
      refine ⟨rfl, fun _ hw => ?_, fun _ hw => ?_, fun howed => ?_, fun hs => ?_, fun hs => ?_⟩
      · cases hw
      · cases hw
      · rcases howed with hdue | hp
        · cases hdue
        · cases hp
      · cases hs
      · cases hs
    · exact h.recorded id' j' hj'
  · change (q.jobs.set id (Queue.newJob id call now)).get? id' = some j' at hj'
    rw [Dict.get?_set] at hj'
    split at hj'
    · rename_i hid
      exact .inl (hid ▸ hstore)
    · exact h.store id' j' hj'

theorem agrees_step {e : Event Engine.RunInputs} (hcounted : Counted q) (h : Agrees q) (hrule : notLate e q)
    (hstep : (queue (engineWorker s) cfg).step e q = some u) : Agrees u := by
  -- what leaves the record and the runs of the job alone
  have hquiet : ∀ {id : RunId} {j : Job} (j' : Job), q.jobs.get? id = some j → j'.record = j.record →
      j'.worker = j.worker → j'.due = j.due → Agrees (q.apply id ⟨j', none, none⟩) := by
    intro id j j' hj hrecord hworker hdue
    refine h.apply ⟨j', none, none⟩ hj ((h.recorded id j hj).quiet hrecord hworker hdue) ?_
    intro run hrun
    cases hrun
  cases Queue.step_some hstep with
  | closed | full | check | refuse => exact h.same rfl rfl rfl
  | register _ _ _ hunknown => exact (h.register _ _ hunknown).same rfl rfl rfl
  | @submit c id call j _ _ _ hj => exact (hquiet {j with future := .pending} hj rfl rfl rfl).same rfl rfl rfl
  | @keep c id call j _ _ hj => exact (hquiet {j with kept := true} hj rfl rfl rfl).same rfl rfl rfl
  | @job id e j effect hj heffect =>
    have hlate : ∀ out, e = .store → j.worker = .computed out → out.stored.isSome = true →
        j.record.status = .running ∨ 0 < j.due := by
      rintro out rfl
      exact hrule j out hj
    obtain ⟨hrecorded, hid⟩ := (h.recorded id j hj).step (hcounted.ok id j hj) hlate heffect
    exact h.apply _ hj hrecorded hid
  | shutdown => exact h.touch Queue.signal (fun _ => ⟨rfl, rfl, rfl, rfl, rfl⟩) (fun _ => rfl) rfl rfl rfl
  | shutdownExecutor _ =>
    exact h.touch Queue.drain (fun _ => ⟨rfl, rfl, rfl, rfl, rfl⟩) (fun _ => rfl) rfl rfl rfl

theorem agrees_reachable (h : (queue (engineWorker s) cfg).Reachable notLate q) : Agrees q := by
  have hboth : Counted q ∧ Agrees q := by
    refine Transition.System.reachable_invariant (I := fun q => Counted q ∧ Agrees q)
      (fun q hq => ⟨counted_init hq, agrees_init hq⟩) ?_ h
    intro e q u ⟨hcounted, hagrees⟩ hrule hstep
    exact ⟨counted_change hcounted (step_change hcounted.ok hstep), agrees_step hcounted hagrees hrule hstep⟩
  exact hboth.2

end System

/-- **As long as the engine never comes late, a finished job's last stored run agrees with its
record: no error code under a SUCCEEDED one, the record's own under a FAILED one; and the
store holds that run unless it dropped it.** -/
theorem store_agrees (s : Settings) (cfg : Config) {q : Queue}
    (h : (queue (engineWorker s) cfg).Reachable notLate q) {id : RunId} {j : Job}
    (hj : q.jobs.get? id = some j) (hfinished : j.finished = true) :
    (j.record.status = .succeeded → ∃ run, q.written.get? id = some run ∧ run.errorCode = none ∧
      (q.store.get id = none ∨ q.store.get id = some run)) ∧
    (j.record.status = .failed → ∃ run, q.written.get? id = some run ∧
      run.errorCode = j.record.errorCode ∧ run.errorCode ≠ none ∧
      (q.store.get id = none ∨ q.store.get id = some run)) := by
  have hagrees := agrees_reachable h
  have hrecorded := hagrees.recorded id j hj
  have hstore := hagrees.store id j hj
  refine ⟨fun hs => ?_, fun hs => ?_⟩
  · obtain ⟨run, hlast, hcode⟩ := hrecorded.succeeded hs
    exact ⟨run, hlast, hcode, hlast ▸ hstore⟩
  · obtain ⟨hdue, hworker⟩ := j.nothing_left hfinished
    rcases hrecorded.failed hs with hpending | hpersisting | ⟨run, hlast, hcode⟩
    · omega
    · exact absurd hpersisting hworker
    · obtain ⟨code, hsome⟩ := ((counted_reachable h).ok id j hj).coded hs
      refine ⟨run, hlast, hcode, ?_, hlast ▸ hstore⟩
      rw [hcode, hsome]
      exact Option.some_ne_none code

/-- The rule as a test. -/
def onTime : Event Engine.RunInputs → Queue → Bool
  | .job id .store, q => (q.jobs.get? id).all fun j => j.record.status = .running || 0 < j.due
  | _, _ => true

theorem notLate_of_onTime {e : Event Engine.RunInputs} {q : Queue} (h : onTime e q = true) : notLate e q := by
  unfold notLate
  split
  · intro j out hj _ _
    simpa [onTime, hj] using h
  · trivial

/-! ### A cancel and a late engine -/

/-- A job up to a cancel that finds the engine's run computed and not yet added. -/
def cancelledLate : List (Event Engine.RunInputs) :=
  [.enqueue 0 simRequest 7, .register 0 1 0, .submit 0, .keep 0, .job 1 .start, .job 1 (.enter 1), .job 1 .arm,
    .job 1 .call, .job 1 (.work (Engine.plainInputs none)), .job 1 (.cancel "Cancelled" 2)]

/-- How the worker ends once its run is added. -/
def ending : List (Event Engine.RunInputs) :=
  [.job 1 (.complete 3), .job 1 .disarm, .job 1 (.close 4), .job 1 .observe]

/-- What can be seen of a job: whether all is over, its verdict, and the code of its entry. -/
structure Seen where
  finished : Bool
  status : JobStatus
  code : Option ErrorCode
  entry : Option (Option ErrorCode)
  deriving DecidableEq

def observed (id : RunId) (q : Queue) : Option Seen :=
  (q.jobs.get? id).map fun j =>
    ⟨j.finished, j.record.status, j.record.errorCode, (q.store.get id).map fun run => run.errorCode⟩

theorem observed_some {q : Queue} {id : RunId} {seen : Seen} (h : observed id q = some seen) :
    ∃ j, q.jobs.get? id = some j ∧ j.finished = seen.finished ∧ j.record.status = seen.status ∧
      j.record.errorCode = seen.code ∧ (q.store.get id).map (fun run => run.errorCode) = seen.entry := by
  obtain ⟨j, hj, hseen⟩ := Option.map_eq_some_iff.mp h
  exact ⟨j, hj, hseen ▸ ⟨rfl, rfl, rfl, rfl⟩⟩

/-- The engine adds its run first, then the canceller its entry. -/
theorem store_agrees_cancelled :
    ∃ q run, (queue (engineWorker {}) {}).Leads notLate emptyQueue q ∧ q.written.get? 1 = some run ∧
      run.errorCode = some .cancelled := by
  have hwalk : ((queue (engineWorker {}) {}).walk onTime emptyQueue
      (cancelledLate ++ .job 1 .store :: .job 1 (.persist 2) :: ending)).map (observed 1) =
      some (some ⟨true, .failed, some .cancelled, some (some .cancelled)⟩) := by decide +kernel
  obtain ⟨q, hq, hseen⟩ := Option.map_eq_some_iff.mp hwalk
  obtain ⟨j, hj, hover, hstatus, hcode, _⟩ := observed_some hseen
  have hleads := Transition.System.walk_leads (C := notLate) (fun _ _ _ => notLate_of_onTime) hq
  obtain ⟨run, hrun, hsame, _⟩ :=
    (store_agrees {} {} ⟨emptyQueue, ⟨rfl, rfl, rfl, rfl, rfl, rfl⟩, hleads⟩ hj hover).2 hstatus
  exact ⟨q, run, hleads, hrun, hsame.trans hcode⟩

/-- The canceller adds its entry first: the record says CANCELLED, the store a success. -/
theorem store_disagrees :
    ¬∀ q, (queue (engineWorker {}) {}).Reachable Transition.anything q → ∀ id j, q.jobs.get? id = some j →
      j.finished = true → j.record.status = .failed →
      q.store.get id = none ∨ ∃ run, q.store.get id = some run ∧ run.errorCode = j.record.errorCode := by
  intro hclaim
  have hrun : ((queue (engineWorker {}) {}).run emptyQueue
      (cancelledLate ++ .job 1 (.persist 2) :: .job 1 .store :: ending)).map (observed 1) =
      some (some ⟨true, .failed, some .cancelled, some none⟩) := by decide +kernel
  obtain ⟨q, hq, hseen⟩ := Option.map_eq_some_iff.mp hrun
  obtain ⟨j, hj, hover, hstatus, hcode, hentry⟩ := observed_some hseen
  obtain ⟨run, hstored, hnone⟩ := Option.map_eq_some_iff.mp hentry
  have hreach := Transition.System.run_reachable (S := queue (engineWorker {}) {}) ⟨rfl, rfl, rfl, rfl, rfl, rfl⟩ hq
  rcases hclaim q hreach 1 j hj hover hstatus with hgone | ⟨run', hstored', hsame⟩
  · cases hgone.symm.trans hstored
  · cases hstored.symm.trans hstored'
    rw [hnone, hcode] at hsame
    cases hsame

end SynQc.Jobs
