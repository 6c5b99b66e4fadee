import SynQc.Jobs.Queue

/-! What a section writes on a record, field by field.

A section of the lock that decides a record assigns to its fields one after the other, each
in its own order: `cancel` sets the status last, `timeout` and `_fail_record` set
`finished_at` after it, and a success leaves `finished_at` to the `finally` block. The record
the section leaves is the fold of these writes (`step_record`). Once the status is terminal,
the only write still to come is that of `finished_at` (`writes_orderly`). -/
namespace SynQc.Jobs

inductive Write where
  | status (status : JobStatus)
  | startedAt (t : Time)
  | finishedAt (t : Time)
  | result (run : RunExperimentResponse)
  | error (text : String)
  | errorCode (code : ErrorCode)
  | errorMessage (text : String)
  | actionHint (hint : Option String)
  | errorDetail (detail : Detail)

def Write.apply (r : JobRecord) : Write → JobRecord
  | .status st => {r with status := st}
  | .startedAt t => {r with startedAt := some t}
  | .finishedAt t => {r with finishedAt := some t}
  | .result run => {r with result := some run}
  | .error text => {r with error := some text}
  | .errorCode code => {r with errorCode := some code}
  | .errorMessage text => {r with errorMessage := some text}
  | .actionHint hint => {r with actionHint := hint}
  | .errorDetail detail => {r with errorDetail := some detail}

/-- The record after some writes. -/
def JobRecord.after (r : JobRecord) (ws : List Write) : JobRecord := ws.foldl Write.apply r

@[simp] theorem JobRecord.after_nil (r : JobRecord) : r.after [] = r := rfl

@[simp] theorem JobRecord.after_cons (r : JobRecord) (w : Write) (ws : List Write) :
    r.after (w :: ws) = (w.apply r).after ws := rfl

/-- The error fields of a failure, in the order in which all three writers set them. -/
def Failure.writes (f : Failure) : List Write :=
  [.error f.error, .errorCode f.code, .errorMessage f.message, .actionHint f.actionHint, .errorDetail f.detail]

/-- The writes of the section a job event runs under the lock. -/
def writes {ι : Type} (timeoutSeconds : Int) (j : Job) : JobEvent ι → List Write
  | .enter now =>
    match j.worker with
    | .started => if j.record.status = .failed then [] else [.status .running, .startedAt now]
    | _ => []
  | .complete now =>
    match j.worker with
    | .returned result =>
      if j.record.status ≠ .running then []
      else
        match result with
        | .ok run => [.result run, .status .succeeded]
        | .error exc => (report exc).failure.writes ++ [.status .failed, .finishedAt now]
    | _ => []
  | .close now => if j.record.finishedAt = none ∧ j.record.status.terminal then [.finishedAt now] else []
  | .timeout now =>
    if j.record.status ≠ .running then []
    else (expiry timeoutSeconds).writes ++ [.status .failed, .finishedAt now]
  | .cancel reason now =>
    if j.record.status.terminal then [] else (cancellation reason).writes ++ [.finishedAt now, .status .failed]
  | _ => []

section Steps
variable {ι : Type} {fn : WorkerFn ι} {timeoutSeconds : Int} {e : JobEvent ι} {j : Job} {effect : Effect}

theorem JobRecord.fail_eq_after (r : JobRecord) (f : Failure) (now : Time) :
    r.fail f now = r.after (f.writes ++ [.status .failed, .finishedAt now]) := by
  simp only [JobRecord.fail, JobRecord.after, Failure.writes, List.cons_append, List.nil_append, List.foldl_cons,
    List.foldl_nil, Write.apply]

/-- The order of the last two writes makes no difference once both are done. -/
theorem JobRecord.fail_eq_after_status_last (r : JobRecord) (f : Failure) (now : Time) :
    r.fail f now = r.after (f.writes ++ [.finishedAt now, .status .failed]) := by
  simp only [JobRecord.fail, JobRecord.after, Failure.writes, List.cons_append, List.nil_append, List.foldl_cons,
    List.foldl_nil, Write.apply]

/-- A step leaves the record its writes make. -/
theorem step_record (h : j.step fn timeoutSeconds e = some effect) :
    effect.job.record = j.record.after (writes timeoutSeconds j e) := by
  cases Job.step_some h with
  | leave hworker hfailed => simp only [writes, hworker, hfailed, if_true, JobRecord.after_nil]
  | enter hworker hopen =>
    simp only [writes, hworker, if_neg hopen]
    rfl
  | decided hworker hdecided => simp only [writes, hworker, if_pos hdecided, JobRecord.after_nil]
  | succeed hworker hrunning =>
    simp only [writes, hworker, hrunning, ne_eq, not_true_eq_false, if_false]
    rfl
  | fail hworker hrunning =>
    simp only [writes, hworker, hrunning, ne_eq, not_true_eq_false, if_false]
    exact j.record.fail_eq_after _ _
  | close hworker hrecord =>
    rcases hrecord with ⟨hunfinished, rfl⟩ | ⟨hfinished, rfl⟩
    · simp only [writes, if_pos hunfinished]
      rfl
    · simp only [writes, if_neg hfinished, JobRecord.after_nil]
  | spare _ hdecided => simp only [writes, if_pos hdecided, JobRecord.after_nil]
  | expire _ hrunning =>
    simp only [writes, hrunning, ne_eq, not_true_eq_false, if_false]
    exact j.record.fail_eq_after _ _
  | refuse hterminal => simp only [writes, if_pos hterminal, JobRecord.after_nil]
  | cancel hopen =>
    simp only [writes, hopen, Bool.false_eq_true, if_false]
    exact j.record.fail_eq_after_status_last _ _
  | start | discard | arm | call | work | store | persistWorker | disarm | observe | fire | persist => rfl

/-! ### What a record says at rest -/

def JobRecord.Faultless (r : JobRecord) : Prop :=
  r.error = none ∧ r.errorCode = none ∧ r.errorMessage = none ∧ r.errorDetail = none ∧ r.actionHint = none

/-- Whether the `finally` block has been through the section that sets `finished_at`. -/
def Worker.closedUp : Worker → Bool
  | .observing | .done => true
  | _ => false

/-- The fields of a record, by its status, between two sections. -/
structure Job.Written (j : Job) : Prop where
  undecided : j.record.status.terminal = false →
    j.record.result = none ∧ j.record.finishedAt = none ∧ j.record.Faultless
  succeeded : j.record.status = .succeeded →
    j.record.result ≠ none ∧ j.record.Faultless ∧ (j.record.finishedAt = none ↔ j.worker.closedUp = false)
  failed : j.record.status = .failed →
    j.record.result = none ∧ j.record.finishedAt ≠ none ∧ j.record.errorCode ≠ none ∧ j.record.errorDetail ≠ none

/-- Steps that leave the record alone, and the worker on its side of the `finally` block. -/
theorem Job.Written.same {j j' : Job} (h : j.Written) (hrecord : j'.record = j.record)
    (hworker : j.record.status = .succeeded → j'.worker.closedUp = j.worker.closedUp) : j'.Written := by
  refine ⟨?_, ?_, ?_⟩
  · rw [hrecord]
    exact h.undecided
  · rw [hrecord]
    intro hstatus
    rw [hworker hstatus]
    exact h.succeeded hstatus
  · rw [hrecord]
    exact h.failed

theorem Job.Written.fail {j j' : Job} (h : j.Written) (hopen : j.record.status.terminal = false) {f : Failure}
    {now : Time} (hrecord : j'.record = j.record.fail f now) : j'.Written := by
  refine ⟨?_, ?_, ?_⟩ <;> rw [hrecord]
  · exact nofun
  · exact nofun
  · exact fun _ => ⟨(h.undecided hopen).1, nofun, nofun, nofun⟩

theorem written_step (hok : j.Ok) (h : j.Written) (hstep : j.step fn timeoutSeconds e = some effect) :
    effect.job.Written := by
  cases Job.step_some hstep with
  | leave hworker hfailed => exact h.same rfl fun hstatus => absurd (hstatus.symm.trans hfailed) nofun
  | enter hworker hopen =>
    have hstage := hok.stage
    rw [hworker] at hstage
    have hqueued : j.record.status = .queued := hstage.resolve_right hopen
    have hblank := h.undecided (by rw [hqueued]; rfl)
    exact ⟨fun _ => hblank, nofun, nofun⟩
  | succeed hworker hrunning =>
    obtain ⟨_, hunfinished, hfaultless⟩ := h.undecided (by rw [hrunning]; rfl)
    exact ⟨nofun, fun _ => ⟨nofun, hfaultless, ⟨fun _ => rfl, fun _ => hunfinished⟩⟩, nofun⟩
  | fail hworker hrunning => exact h.fail (by rw [hrunning]; rfl) rfl
  | expire _ hrunning => exact h.fail (by rw [hrunning]; rfl) rfl
  | cancel hopen => exact h.fail hopen rfl
  | close hworker hrecord =>
    rcases hrecord with ⟨⟨_, hterminal⟩, rfl⟩ | ⟨hfinished, rfl⟩
    · refine ⟨fun hopen => absurd (hterminal.symm.trans hopen) nofun, fun hstatus => ?_, fun hstatus => ?_⟩
      · obtain ⟨hresult, hfaultless, _⟩ := h.succeeded hstatus
        exact ⟨hresult, hfaultless, ⟨nofun, nofun⟩⟩
      · obtain ⟨hresult, _, hfaults⟩ := h.failed hstatus
        exact ⟨hresult, nofun, hfaults⟩
    · refine ⟨h.undecided, fun hstatus => ?_, h.failed⟩
      obtain ⟨hresult, hfaultless, _⟩ := h.succeeded hstatus
      refine ⟨hresult, hfaultless, ⟨fun hnone => ?_, nofun⟩⟩
      exact absurd ⟨hnone, by rw [hstatus]; rfl⟩ hfinished
  | start hworker _ | arm hworker | call hworker | work hworker | store hworker | decided hworker _ | persistWorker hworker
  | disarm hworker | observe hworker =>
    refine h.same rfl fun _ => ?_
    rw [hworker]
    rfl
  | discard | fire | spare | refuse | persist => exact h.same rfl fun _ => rfl

/-! ### The order of the writes -/

/-- Once the status is terminal no write comes but one of `finished_at`, on a record that has
none. -/
def Orderly : JobRecord → List Write → Prop
  | _, [] => True
  | r, w :: ws =>
    (r.status.terminal = true → (∃ t, w = .finishedAt t) ∧ ws = [] ∧ r.finishedAt = none) ∧ Orderly (w.apply r) ws

/-- Any write may come on an open record. -/
theorem orderly_open {r : JobRecord} {w : Write} {ws : List Write} (hopen : r.status.terminal = false)
    (h : Orderly (w.apply r) ws) : Orderly r (w :: ws) :=
  ⟨fun ht => absurd (ht.symm.trans hopen) (by decide), h⟩

/-- The error fields come first, and leave the record open. -/
theorem orderly_failure {r : JobRecord} (f : Failure) (hopen : r.status.terminal = false) {ws : List Write}
    (h : ∀ r' : JobRecord, r'.status = r.status → r'.finishedAt = r.finishedAt → Orderly r' ws) :
    Orderly r (f.writes ++ ws) := by
  simp only [Failure.writes, List.cons_append, List.nil_append]
  iterate 5 refine orderly_open (by simpa only [Write.apply] using hopen) ?_
  exact h _ (by simp only [Write.apply]) (by simp only [Write.apply])

theorem writes_orderly (h : j.Written) (hok : j.Ok) (timeoutSeconds : Int) (e : JobEvent ι) :
    Orderly j.record (writes timeoutSeconds j e) := by
  have hopen : j.record.status = .running → j.record.status.terminal = false := fun hrunning => by
    rw [hrunning]
    rfl
  -- the status before `finished_at`, on a record that is not decided yet
  have hfailure : ∀ (f : Failure) (now : Time), j.record.status = .running →
      Orderly j.record (f.writes ++ [Write.status .failed, Write.finishedAt now]) := by
    intro f now hrunning
    have hunfinished := (h.undecided (hopen hrunning)).2.1
    refine orderly_failure f (hopen hrunning) fun r hstatus hfinished => ⟨fun ht => ?_, fun _ => ?_, trivial⟩
    · rw [hstatus, hopen hrunning] at ht
      cases ht
    · exact ⟨⟨now, rfl⟩, rfl, hfinished.trans hunfinished⟩
  cases e with
  | enter now =>
    simp only [writes]
    split
    · rename_i hworker
      split
      · trivial
      · rename_i hstatus
        have hstage := hok.stage
        rw [hworker] at hstage
        have hqueued : j.record.status = .queued := hstage.resolve_right hstatus
        refine ⟨fun ht => ?_, nofun, trivial⟩
        rw [hqueued] at ht
        cases ht
    · trivial
  | complete now =>
    simp only [writes]
    split
    · split
      · trivial
      · rename_i hstatus
        have hrunning := not_not.mp hstatus
        split
        · have hnot : ∀ {P : Prop}, j.record.status.terminal = true → P := fun ht =>
            absurd (ht.symm.trans (hopen hrunning)) nofun
          exact ⟨hnot, hnot, trivial⟩
        · exact hfailure _ now hrunning
    · trivial
  | close now =>
    simp only [writes]
    split
    · rename_i hunfinished
      exact ⟨fun _ => ⟨⟨now, rfl⟩, rfl, hunfinished.1⟩, trivial⟩
    · trivial
  | timeout now =>
    simp only [writes]
    split
    · trivial
    · rename_i hstatus
      exact hfailure _ now (not_not.mp hstatus)
  | cancel reason now =>
    simp only [writes]
    split
    · trivial
    · rename_i hstatus
      rw [Bool.not_eq_true] at hstatus
      refine orderly_failure _ hstatus fun r hsame _ => ⟨fun ht => ?_, fun ht => ?_, trivial⟩
      · rw [hsame, hstatus] at ht
        cases ht
      · change r.status.terminal = true at ht
        rw [hsame, hstatus] at ht
        cases ht
  | start | arm | call | work | store | persistWorker | disarm | observe | fire | persist => trivial

end Steps

end SynQc.Jobs
