import SynQc.Jobs.Writes

/-! Polling a run while its record is being written.

`EmbeddedRunQueue.get` finds the record under the lock and then reads its fields one by one,
without it. What it can see is written out here: a section of the lock that decides a record
leaves the queue where `Job.step` does, but other threads see its writes one at a time, and
until the last of them no other section begins. A reader that has seen a terminal status
reads a record that changes no more, save for `finished_at`. So its snapshot is coherent when
it comes to `finished_at` after that is set (`snapshots_coherent`). -/
namespace SynQc.Jobs

/-- The fields `get` returns. -/
inductive Field where
  | id
  | status
  | createdAt
  | startedAt
  | finishedAt
  | error
  | errorCode
  | errorMessage
  | errorDetail
  | actionHint
  | result
  deriving DecidableEq

/-- The fields in the order in which `get` reads them. -/
def Field.order : List Field :=
  [.id, .status, .createdAt, .startedAt, .finishedAt, .error, .errorCode, .errorMessage, .errorDetail, .actionHint,
    .result]

/-- The dictionary `get` builds. Id, status and creation time are missing until they are read. -/
structure Snapshot where
  id : Option RunId := none
  status : Option JobStatus := none
  createdAt : Option Time := none
  startedAt : Option Time := none
  finishedAt : Option Time := none
  error : Option String := none
  errorCode : Option String := none
  errorMessage : Option String := none
  errorDetail : Option Detail := none
  actionHint : Option String := none
  result : Option RunExperimentResponse := none

/-- Reading a field. -/
def Snapshot.read (s : Snapshot) (r : JobRecord) : Field → Snapshot
  | .id => {s with id := some r.id}
  | .status => {s with status := some r.status}
  | .createdAt => {s with createdAt := some r.createdAt}
  | .startedAt => {s with startedAt := r.startedAt}
  | .finishedAt => {s with finishedAt := r.finishedAt}
  | .error => {s with error := r.error}
  | .errorCode => {s with errorCode := r.errorCode.map ErrorCode.value}
  | .errorMessage => {s with errorMessage := r.errorMessage}
  | .errorDetail => {s with errorDetail := r.errorDetail}
  | .actionHint => {s with actionHint := r.actionHint}
  | .result => {s with result := r.result}

/-- What a client may expect of a snapshot. -/
structure Snapshot.Coherent (s : Snapshot) : Prop where
  succeeded : s.status = some .succeeded → s.result ≠ none ∧ s.finishedAt ≠ none ∧
    s.error = none ∧ s.errorCode = none ∧ s.errorMessage = none ∧ s.errorDetail = none ∧ s.actionHint = none
  failed : s.status = some .failed →
    s.finishedAt ≠ none ∧ s.errorCode ≠ none ∧ s.errorDetail ≠ none ∧ s.result = none

/-- A call of `get` that has found the record. -/
structure Reader where
  id : RunId
  left : List Field := Field.order
  seen : Snapshot := {}

/-- A section of the lock that is writing a record. -/
structure Writing where
  id : RunId
  /-- Whether the thread of the pool is the one that writes. -/
  worker : Bool
  /-- The record as other threads see it. -/
  shown : JobRecord
  todo : List Write

structure Polled where
  queue : Queue
  writing : Option Writing := none
  readers : Dict Nat Reader := Dict.empty

inductive PollEvent (ι : Type) where
  | queue (e : Event ι)
  | write
  | get (r : Nat) (id : RunId)
  | read (r : Nat)

/-- Whether the step belongs to the pool thread. The others are the timer's and the callers'. -/
def JobEvent.byWorker {ι : Type} : JobEvent ι → Bool
  | .fire | .timeout _ | .cancel _ _ | .persist _ => false
  | _ => true

/-- Whether the step is a section of the lock. -/
def Event.locked {ι : Type} (cfg : Config) : Event ι → Bool
  | .enqueue _ _ _ | .register _ _ _ | .keep _ | .shutdown => true
  | .submit _ | .shutdownExecutor => false
  | .job _ act =>
    match act with
    | .enter _ | .complete _ | .close _ | .timeout _ | .cancel _ _ => true
    | .arm => 0 < cfg.jobTimeoutSeconds
    | _ => false

/-- Whether the step is a later one of the thread that writes: of the pool thread, or of a timeout
or cancel, which then owes the store its entry. -/
def Writing.owns {ι : Type} (w : Writing) : Event ι → Bool
  | .job id act =>
    w.id = id &&
      match act with
      | .persist _ => !w.worker
      | _ => w.worker && act.byWorker
  | _ => false

namespace Polled

/-- What other threads see of a record. -/
def shown (s : Polled) (id : RunId) : Option JobRecord :=
  match s.writing with
  | some w => if w.id = id then some w.shown else (s.queue.jobs.get? id).map Job.record
  | none => (s.queue.jobs.get? id).map Job.record

/-- What can come while a section is writing: no other section, and nothing of the same thread. -/
def admits {ι : Type} (cfg : Config) (e : Event ι) (s : Polled) : Bool :=
  match s.writing with
  | some w => !e.locked cfg && !w.owns e
  | none => true

/-- The writing that a step of the queue begins, or does not touch. -/
def begun {ι : Type} (cfg : Config) (e : Event ι) (s : Polled) : Option Writing :=
  match e with
  | .job id act =>
    match s.queue.jobs.get? id with
    | some j =>
      match writes cfg.jobTimeoutSeconds j act with
      | [] => s.writing
      | w :: ws => some ⟨id, act.byWorker, j.record, w :: ws⟩
    | none => s.writing
  | _ => s.writing

def stepQueue {ι : Type} (fn : WorkerFn ι) (cfg : Config) (e : Event ι) (s : Polled) : Option Polled :=
  if s.admits cfg e then
    ((Jobs.queue fn cfg).step e s.queue).map fun u => {s with queue := u, writing := s.begun cfg e}
  else none

/-- The next write comes into view. After the last one the section is over. -/
def write (s : Polled) : Option Polled :=
  match s.writing with
  | some w =>
    match w.todo with
    | [] => none
    | [_] => some {s with writing := none}
    | x :: ws => some {s with writing := some {w with shown := x.apply w.shown, todo := ws}}
  | none => none

/-- `self._queue.get(job_id)`, under the lock. -/
def get (r : Nat) (id : RunId) (s : Polled) : Option Polled :=
  match s.writing, s.readers.get? r with
  | none, none =>
    match s.queue.jobs.get? id with
    | some _ => some {s with readers := s.readers.set r { id := id }}
    | none => some s
  | _, _ => none

/-- The next field of the dictionary. -/
def read (r : Nat) (s : Polled) : Option Polled :=
  match s.readers.get? r with
  | some ρ =>
    match ρ.left, s.shown ρ.id with
    | f :: left, some record =>
      some {s with readers := s.readers.set r {ρ with left := left, seen := ρ.seen.read record f}}
    | _, _ => none
  | none => none

end Polled

/-- The queue with its clients. -/
def polled {ι : Type} (fn : WorkerFn ι) (cfg : Config) : Transition.System Polled (PollEvent ι) where
  init s := (queue fn cfg).init s.queue ∧ s.writing = none ∧ s.readers = Dict.empty
  step
    | .queue e => Polled.stepQueue fn cfg e
    | .write => Polled.write
    | .get r id => Polled.get r id
    | .read r => Polled.read r

/-! ### Fields -/

/-- The field of the snapshot is the record's. -/
def Field.agrees (s : Snapshot) (r : JobRecord) : Field → Prop
  | .id => s.id = some r.id
  | .status => s.status = some r.status
  | .createdAt => s.createdAt = some r.createdAt
  | .startedAt => s.startedAt = r.startedAt
  | .finishedAt => s.finishedAt = r.finishedAt
  | .error => s.error = r.error
  | .errorCode => s.errorCode = r.errorCode.map ErrorCode.value
  | .errorMessage => s.errorMessage = r.errorMessage
  | .errorDetail => s.errorDetail = r.errorDetail
  | .actionHint => s.actionHint = r.actionHint
  | .result => s.result = r.result

section Fields
variable {s : Snapshot} {r r' : JobRecord} {f g : Field}

theorem agrees_read_self : f.agrees (s.read r f) r := by
  cases f <;> rfl

theorem agrees_read_other (h : f ≠ g) : g.agrees (s.read r' f) r ↔ g.agrees s r := by
  cases f <;> cases g <;> first | exact Iff.rfl | exact absurd rfl h

theorem agrees_finished (h : g ≠ .finishedAt) (t : Time) :
    g.agrees s (Write.apply r (.finishedAt t)) ↔ g.agrees s r := by
  cases g <;> first | exact Iff.rfl | exact absurd rfl h

theorem status_read_other (h : f ≠ .status) : (s.read r f).status = s.status := by
  cases f <;> first | rfl | exact absurd rfl h

/-- Up to `status`, only the id is read before it. -/
theorem eq_status_of_read (hread : g ∉ Field.order.drop 2) (hid : g ≠ .id) : g = .status := by
  cases g <;> first | rfl | exact absurd rfl hid | exact absurd (by decide) hread

theorem finishedAt_after_status : .finishedAt ∈ Field.order.drop 2 := by decide

end Fields

/-! ### A reader and the record it reads -/

/-- A reader that has seen a terminal status has read what the record says. -/
structure Reader.Follows (ρ : Reader) (r : JobRecord) : Prop where
  order : ρ.left = Field.order ∨ ρ.left = Field.order.drop 1 ∨ .status ∉ ρ.left
  decided : ∀ status, ρ.seen.status = some status → status.terminal = true →
    r.status = status ∧ (∀ f, f ∉ ρ.left → f ≠ .id → f.agrees ρ.seen r) ∧
      (.finishedAt ∉ ρ.left → r.finishedAt ≠ none)

/-- A write changes nothing that such a reader has read. -/
theorem Reader.Follows.write {ρ : Reader} {r : JobRecord} {x : Write} {ws : List Write} (h : ρ.Follows r)
    (horderly : Orderly r (x :: ws)) : ρ.Follows (x.apply r) := by
  refine ⟨h.order, fun status hstatus hterminal => ?_⟩
  obtain ⟨hsame, hagrees, hfinished⟩ := h.decided status hstatus hterminal
  obtain ⟨⟨t, rfl⟩, _, hunfinished⟩ := horderly.1 (by rw [hsame]; exact hterminal)
  have hleft : .finishedAt ∈ ρ.left := by
    by_contra hread
    exact hfinished hread hunfinished
  refine ⟨hsame, fun f hread hid => (agrees_finished ?_ t).mpr (hagrees f hread hid), fun hread => absurd hleft hread⟩
  intro hf
  rw [hf] at hread
  exact hread hleft

/-- Reading a field. `finished_at` is read of a record that has it, if its status is terminal. -/
theorem Reader.Follows.read {ρ : Reader} {r : JobRecord} {f : Field} {left : List Field} (h : ρ.Follows r)
    (hleft : ρ.left = f :: left)
    (hfinished : f = .finishedAt → ∀ status, ρ.seen.status = some status → status.terminal = true → r.finishedAt ≠ none) :
    Reader.Follows {ρ with left := left, seen := ρ.seen.read r f} r := by
  constructor
  · rcases h.order with hall | hfirst | hnot
    · rw [hleft] at hall
      exact .inr (.inl (List.cons.inj hall).2)
    · rw [hleft] at hfirst
      have hrest : left = Field.order.drop 2 := (List.cons.inj hfirst).2
      refine .inr (.inr ?_)
      show .status ∉ left
      rw [hrest]
      decide
    · rw [hleft] at hnot
      exact .inr (.inr fun hmem => hnot (List.mem_cons_of_mem _ hmem))
  · intro status hstatus hterminal
    by_cases hf : f = .status
    · subst hf
      have hrest : left = Field.order.drop 2 := by
        rcases h.order with hall | hfirst | hnot
        · rw [hleft] at hall
          exact absurd (List.cons.inj hall).1 nofun
        · rw [hleft] at hfirst
          exact (List.cons.inj hfirst).2
        · rw [hleft] at hnot
          exact absurd List.mem_cons_self hnot
      subst hrest
      refine ⟨Option.some.inj hstatus, fun g hread hid => ?_, fun hread => absurd finishedAt_after_status hread⟩
      rw [eq_status_of_read hread hid]
      show Field.agrees (ρ.seen.read r .status) r .status
      exact agrees_read_self
    · rw [status_read_other hf] at hstatus
      obtain ⟨hsame, hagrees, hset⟩ := h.decided status hstatus hterminal
      rw [hleft] at hagrees hset
      refine ⟨hsame, fun g hread hid => ?_, fun hread => ?_⟩
      · by_cases hg : f = g
        · subst hg
          exact agrees_read_self
        · refine (agrees_read_other hg).mpr (hagrees g (fun hmem => ?_) hid)
          exact (List.mem_cons.mp hmem).elim (fun heq => hg heq.symm) hread
      · by_cases hg : f = .finishedAt
        · exact hfinished hg status hstatus hterminal
        · refine hset fun hmem => ?_
          exact (List.mem_cons.mp hmem).elim (fun heq => hg heq.symm) hread

/-! ### The record and its writer -/

section Steps
variable {ι : Type} {fn : WorkerFn ι} {cfg : Config} {e : Event ι} {q u : Queue} {s s' : Polled}

/-- A step of the queue leaves each record what its writes make of it. -/
theorem record_of_step {id : RunId} {j : Job} (hj : q.jobs.get? id = some j) (h : (queue fn cfg).step e q = some u) :
    ∃ j', u.jobs.get? id = some j' ∧
      ((∃ act, e = .job id act ∧ j'.record = j.record.after (writes cfg.jobTimeoutSeconds j act)) ∨
        (∀ act, e ≠ .job id act) ∧ j'.record = j.record) := by
  obtain ⟨j', hj', ⟨act, effect, heq, heffect, rfl⟩ | ⟨hnot, hquiet⟩⟩ := job_of_step hj h
  · exact ⟨effect.job, hj', .inl ⟨act, heq, step_record heffect⟩⟩
  · exact ⟨j', hj', .inr ⟨hnot, hquiet.record⟩⟩

theorem newJob_written (id : RunId) (call : EnqueueCall) (now : Time) : (Queue.newJob id call now).Written :=
  ⟨fun _ => ⟨rfl, rfl, rfl, rfl, rfl, rfl, rfl⟩, nofun, nofun⟩

theorem written_queue_step (hcounted : Counted q) (hwritten : ∀ id j, q.jobs.get? id = some j → j.Written)
    (h : (queue fn cfg).step e q = some u) : ∀ id j, u.jobs.get? id = some j → j.Written := by
  refine forall_jobs_step (fun j j' hquiet hj => ?_) newJob_written (fun id act j effect _ hj heffect => ?_) hwritten h
  · exact hj.same hquiet.record fun _ => by rw [hquiet.worker]
  · exact written_step (hcounted.ok id j hj) (hwritten id j hj) heffect

/-- A step that needs no lock writes nothing. -/
theorem writes_of_unlocked {id : RunId} {act : JobEvent ι} (h : (Event.job id act).locked cfg = false) (j : Job) :
    writes cfg.jobTimeoutSeconds j act = [] := by
  cases act <;> first | rfl | cases h

/-- A step begins no writing, or it is a section that finds the lock free. -/
theorem begun_cases (h : s.admits cfg e = true) :
    (s.begun cfg e = s.writing ∧
      ∀ id j act, e = .job id act → s.queue.jobs.get? id = some j → writes cfg.jobTimeoutSeconds j act = []) ∨
    ∃ id j act, e = .job id act ∧ s.queue.jobs.get? id = some j ∧ writes cfg.jobTimeoutSeconds j act ≠ [] ∧
      s.writing = none ∧
      s.begun cfg e = some ⟨id, act.byWorker, j.record, writes cfg.jobTimeoutSeconds j act⟩ := by
  cases e with
  | job id act =>
    cases hj : s.queue.jobs.get? id with
    | none =>
      refine .inl ⟨by simp only [Polled.begun, hj], fun id' j act' heq hj' => ?_⟩
      cases heq
      cases hj.symm.trans hj'
    | some j =>
      cases hws : writes cfg.jobTimeoutSeconds j act with
      | nil =>
        refine .inl ⟨by simp only [Polled.begun, hj, hws], fun id' j' act' heq hj' => ?_⟩
        cases heq
        cases hj.symm.trans hj'
        exact hws
      | cons x ws =>
        have hfree : s.writing = none := by
          cases hwriting : s.writing with
          | none => rfl
          | some w =>
            simp only [Polled.admits, hwriting, Bool.and_eq_true, Bool.not_eq_true'] at h
            cases hws.symm.trans (writes_of_unlocked h.1 j)
        exact .inr ⟨id, j, act, rfl, hj, by rw [hws]; exact List.cons_ne_nil x ws, hfree, by simp only [Polled.begun, hj, hws]⟩
  | _ =>
    refine .inl ⟨rfl, fun _ _ _ heq _ => ?_⟩
    cases heq

/-! ### The invariant -/

structure Polled.Sound (s : Polled) : Prop where
  counted : Counted s.queue
  written : ∀ id j, s.queue.jobs.get? id = some j → j.Written
  writing : ∀ w, s.writing = some w → w.todo ≠ [] ∧ Orderly w.shown w.todo ∧
    ∃ j, s.queue.jobs.get? w.id = some j ∧ j.record = w.shown.after w.todo
  readers : ∀ r ρ, s.readers.get? r = some ρ → ∃ record, s.shown ρ.id = some record ∧ ρ.Follows record

theorem shown_free (h : s.writing = none) (id : RunId) : s.shown id = (s.queue.jobs.get? id).map Job.record := by
  simp only [Polled.shown, h]

theorem shown_writing {w : Writing} (h : s.writing = some w) : s.shown w.id = some w.shown := by
  simp only [Polled.shown, h, if_true]

theorem shown_other {w : Writing} (h : s.writing = some w) {id : RunId} (hid : w.id ≠ id) :
    s.shown id = (s.queue.jobs.get? id).map Job.record := by
  simp only [Polled.shown, h, if_neg hid]

/-- A step of the queue does not change what others see of a record: its writes are still to come. -/
theorem shown_queue (h : s.admits cfg e = true) (hstep : (queue fn cfg).step e s.queue = some u) {id : RunId}
    {record : JobRecord} (hshown : s.shown id = some record) :
    Polled.shown {s with queue := u, writing := s.begun cfg e} id = some record := by
  have hquiet : ∀ j, s.queue.jobs.get? id = some j →
      (∀ act, e = .job id act → writes cfg.jobTimeoutSeconds j act = []) →
      (u.jobs.get? id).map Job.record = some j.record := by
    intro j hj hnone
    obtain ⟨j', hj', ⟨act, heq, hrecord⟩ | ⟨_, hrecord⟩⟩ := record_of_step hj hstep
    · rw [hj', Option.map_some, hrecord, hnone act heq]
      rfl
    · rw [hj', Option.map_some, hrecord]
  rcases begun_cases h with ⟨hsame, hnone⟩ | ⟨id', j', act, heq, hj', hws, hfree, hbegun⟩
  · rw [hsame]
    cases hwriting : s.writing with
    | none =>
      rw [shown_free hwriting] at hshown
      obtain ⟨j, hj, rfl⟩ := Option.map_eq_some_iff.mp hshown
      rw [shown_free rfl]
      exact hquiet j hj fun act heq => hnone id j act heq hj
    | some w =>
      by_cases hid : w.id = id
      · subst hid
        rw [shown_writing hwriting] at hshown
        exact (shown_writing (s := {s with queue := u, writing := some w}) rfl).trans hshown
      · rw [shown_other hwriting hid] at hshown
        obtain ⟨j, hj, rfl⟩ := Option.map_eq_some_iff.mp hshown
        rw [shown_other rfl hid]
        exact hquiet j hj fun act heq => hnone id j act heq hj
  · rw [shown_free hfree] at hshown
    obtain ⟨j, hj, rfl⟩ := Option.map_eq_some_iff.mp hshown
    rw [hbegun]
    by_cases hid : id' = id
    · subst hid
      cases hj.symm.trans hj'
      exact shown_writing (s := {s with queue := u, writing := some _}) rfl
    · rw [shown_other (w := ⟨id', act.byWorker, j'.record, writes cfg.jobTimeoutSeconds j' act⟩) rfl hid]
      refine hquiet j hj fun act' heq' => ?_
      rw [heq] at heq'
      cases heq'
      exact absurd rfl hid

theorem sound_queue (h : s.Sound) (hstep : Polled.stepQueue fn cfg e s = some s') : s'.Sound := by
  unfold Polled.stepQueue at hstep
  split at hstep
  · rename_i hadmits
    obtain ⟨u, hu, rfl⟩ := Option.map_eq_some_iff.mp hstep
    refine ⟨counted_change h.counted (step_change h.counted.ok hu), written_queue_step h.counted h.written hu, ?_, ?_⟩
    · intro w hw
      change s.begun cfg e = some w at hw
      show w.todo ≠ [] ∧ Orderly w.shown w.todo ∧ ∃ j, u.jobs.get? w.id = some j ∧ j.record = w.shown.after w.todo
      rcases begun_cases hadmits with ⟨hsame, hnone⟩ | ⟨id, j, act, heq, hj, hws, _, hbegun⟩
      · rw [hsame] at hw
        obtain ⟨htodo, horderly, j, hj, hrecord⟩ := h.writing w hw
        obtain ⟨j', hj', ⟨act, heq, hrecord'⟩ | ⟨_, hrecord'⟩⟩ := record_of_step hj hu
        · rw [hnone _ _ _ heq hj] at hrecord'
          exact ⟨htodo, horderly, j', hj', hrecord'.trans hrecord⟩
        · exact ⟨htodo, horderly, j', hj', hrecord'.trans hrecord⟩
      · rw [hbegun] at hw
        cases hw
        refine ⟨hws, writes_orderly (h.written id j hj) (h.counted.ok id j hj) _ act, ?_⟩
        obtain ⟨j', hj', ⟨act', heq', hrecord⟩ | ⟨hnot, _⟩⟩ := record_of_step hj hu
        · cases heq.symm.trans heq'
          exact ⟨j', hj', hrecord⟩
        · exact absurd heq (hnot act)
    · intro r ρ hρ
      obtain ⟨record, hshown, hfollows⟩ := h.readers r ρ hρ
      exact ⟨record, shown_queue hadmits hu hshown, hfollows⟩
  · cases hstep

theorem sound_write (h : s.Sound) (hstep : Polled.write s = some s') : s'.Sound := by
  unfold Polled.write at hstep
  split at hstep
  · rename_i w hw
    obtain ⟨_, horderly, j, hj, hrecord⟩ := h.writing w hw
    -- other records are seen as before
    have hreaders : ∀ {writing : Option Writing} {x : Write} {ws : List Write}, w.todo = x :: ws →
        (∀ id, w.id ≠ id → Polled.shown {s with writing := writing} id = (s.queue.jobs.get? id).map Job.record) →
        Polled.shown {s with writing := writing} w.id = some (x.apply w.shown) →
        ∀ r ρ, s.readers.get? r = some ρ →
          ∃ record, Polled.shown {s with writing := writing} ρ.id = some record ∧ ρ.Follows record := by
      intro writing x ws htodo hothers hself r ρ hρ
      obtain ⟨record, hshown, hfollows⟩ := h.readers r ρ hρ
      by_cases hid : w.id = ρ.id
      · rw [← hid, shown_writing hw] at hshown
        cases hshown
        rw [htodo] at horderly
        exact ⟨_, hid ▸ hself, hfollows.write horderly⟩
      · rw [shown_other hw hid] at hshown
        exact ⟨record, (hothers ρ.id hid).trans hshown, hfollows⟩
    split at hstep
    · cases hstep
    · rename_i x htodo
      cases hstep
      refine ⟨h.counted, h.written, fun _ hnone => ?_, hreaders htodo (fun id _ => shown_free rfl id) ?_⟩
      · cases hnone
      · rw [shown_free rfl]
        show (s.queue.jobs.get? w.id).map Job.record = _
        rw [hj, Option.map_some, hrecord, htodo]
        rfl
    · rename_i x ws hws htodo
      cases hstep
      refine ⟨h.counted, h.written, ?_, hreaders htodo (fun id hid => ?_) ?_⟩
      · intro w' hw'
        cases hw'
        rw [htodo] at horderly hrecord
        exact ⟨hws, horderly.2, j, hj, hrecord⟩
      · exact shown_other (w := {w with shown := x.apply w.shown, todo := ws}) rfl hid
      · exact shown_writing (w := {w with shown := x.apply w.shown, todo := ws}) rfl
  · cases hstep

theorem sound_get {r : Nat} {id : RunId} (h : s.Sound) (hstep : Polled.get r id s = some s') : s'.Sound := by
  unfold Polled.get at hstep
  split at hstep
  · rename_i hfree _
    split at hstep
    · rename_i j hj
      cases hstep
      refine ⟨h.counted, h.written, h.writing, ?_⟩
      intro r' ρ hρ
      change (s.readers.set r { id := id }).get? r' = some ρ at hρ
      rw [Dict.get?_set] at hρ
      split at hρ
      · cases hρ
        refine ⟨j.record, ?_, .inl rfl, fun status hstatus => ?_⟩
        · show s.shown id = some j.record
          rw [shown_free hfree, hj]
          rfl
        · cases hstatus
      · exact h.readers r' ρ hρ
    · cases hstep
      exact h
  · cases hstep

/-! ### When a record is settled -/

/-- No section is writing the record, and if it succeeded the `finally` block has been through. -/
def Polled.settled (s : Polled) (id : RunId) : Prop :=
  (∀ w, s.writing = some w → w.id ≠ id) ∧
    ∀ j, s.queue.jobs.get? id = some j → j.record.status = .succeeded → j.worker.closedUp = true

/-- What others see of a record while it is written differs from what it will be by
`finished_at` only, once its status is terminal. -/
theorem shown_cases (h : s.Sound) {id : RunId} {record : JobRecord} (hshown : s.shown id = some record)
    (hterminal : record.status.terminal = true) :
    ∃ j, s.queue.jobs.get? id = some j ∧
      ((∀ w, s.writing = some w → w.id ≠ id) ∧ record = j.record ∨
        (∃ w, s.writing = some w ∧ w.id = id) ∧ record.finishedAt = none ∧
          ∃ t, j.record = {record with finishedAt := some t}) := by
  cases hwriting : s.writing with
  | none =>
    rw [shown_free hwriting] at hshown
    obtain ⟨j, hj, rfl⟩ := Option.map_eq_some_iff.mp hshown
    refine ⟨j, hj, .inl ⟨fun w hw => ?_, rfl⟩⟩
    cases hw
  | some w =>
    by_cases hid : w.id = id
    · subst hid
      rw [shown_writing hwriting] at hshown
      cases hshown
      obtain ⟨hne, horderly, j, hj, hrecord⟩ := h.writing w hwriting
      refine ⟨j, hj, .inr ⟨⟨w, rfl, rfl⟩, ?_⟩⟩
      cases htodo : w.todo with
      | nil => exact absurd htodo hne
      | cons x ws =>
        rw [htodo] at horderly hrecord
        obtain ⟨⟨t, rfl⟩, rfl, hunfinished⟩ := horderly.1 hterminal
        exact ⟨hunfinished, t, hrecord⟩
    · rw [shown_other hwriting hid] at hshown
      obtain ⟨j, hj, rfl⟩ := Option.map_eq_some_iff.mp hshown
      refine ⟨j, hj, .inl ⟨fun w' hw' => ?_, rfl⟩⟩
      cases hw'
      exact hid

/-- A record with a terminal status shows its `finished_at` exactly when it is settled. -/
theorem finished_iff_settled (h : s.Sound) {id : RunId} {record : JobRecord} (hshown : s.shown id = some record)
    (hterminal : record.status.terminal = true) : record.finishedAt ≠ none ↔ s.settled id := by
  obtain ⟨j, hj, ⟨hother, rfl⟩ | ⟨⟨w, hw, hid⟩, hunfinished, _⟩⟩ := shown_cases h hshown hterminal
  · have hwritten := h.written id j hj
    constructor
    · intro hfinished
      refine ⟨hother, fun j' hj' hsucceeded => ?_⟩
      cases hj.symm.trans hj'
      rw [← Bool.not_eq_false]
      exact fun hopen => hfinished ((hwritten.succeeded hsucceeded).2.2.mpr hopen)
    · intro hsettled
      cases hstatus : j.record.status with
      | queued | running =>
        rw [hstatus] at hterminal
        cases hterminal
      | succeeded =>
        intro hnone
        have hclosed := hsettled.2 j hj hstatus
        rw [(hwritten.succeeded hstatus).2.2.mp hnone] at hclosed
        cases hclosed
      | failed => exact (hwritten.failed hstatus).2.1
  · exact ⟨fun hfinished => absurd hunfinished hfinished, fun hsettled => absurd hid (hsettled.1 w hw)⟩

/-- The other fields are there as soon as the status is. -/
theorem shown_says (h : s.Sound) {id : RunId} {record : JobRecord} (hshown : s.shown id = some record) :
    (record.status = .succeeded → record.result ≠ none ∧ record.Faultless) ∧
      (record.status = .failed → record.result = none ∧ record.errorCode ≠ none ∧ record.errorDetail ≠ none) := by
  have hfields : ∀ status, record.status = status → status.terminal = true → ∃ j, s.queue.jobs.get? id = some j ∧
      j.record.status = status ∧ j.record.result = record.result ∧ (j.record.Faultless ↔ record.Faultless) ∧
        j.record.errorCode = record.errorCode ∧ j.record.errorDetail = record.errorDetail := by
    rintro status rfl hterminal
    obtain ⟨j, hj, ⟨_, rfl⟩ | ⟨_, _, t, hrecord⟩⟩ := shown_cases h hshown hterminal
    · exact ⟨j, hj, rfl, rfl, Iff.rfl, rfl, rfl⟩
    · refine ⟨j, hj, ?_⟩
      rw [hrecord]
      exact ⟨rfl, rfl, Iff.rfl, rfl, rfl⟩
  constructor
  · intro hstatus
    obtain ⟨j, hj, hsame, hresult, hfaultless, _⟩ := hfields _ hstatus rfl
    obtain ⟨hsome, hnone, _⟩ := (h.written id j hj).succeeded hsame
    exact ⟨hresult ▸ hsome, hfaultless.mp hnone⟩
  · intro hstatus
    obtain ⟨j, hj, hsame, hresult, _, hcode, hdetail⟩ := hfields _ hstatus rfl
    obtain ⟨hnone, _, hcoded, hdetailed⟩ := (h.written id j hj).failed hsame
    exact ⟨hresult ▸ hnone, hcode ▸ hcoded, hdetail ▸ hdetailed⟩

/-! ### Readers that come late enough -/

/-- A reader that has seen a terminal status comes to `finished_at` when the record is settled. -/
def readsSettled : PollEvent ι → Polled → Prop
  | .read r, s => ∀ ρ left status, s.readers.get? r = some ρ → ρ.left = .finishedAt :: left →
      ρ.seen.status = some status → status.terminal = true → s.settled ρ.id
  | _, _ => True

theorem sound_read {r : Nat} (h : s.Sound) (hrule : readsSettled (ι := ι) (.read r) s)
    (hstep : Polled.read r s = some s') : s'.Sound := by
  unfold Polled.read at hstep
  split at hstep
  · rename_i ρ hρ
    obtain ⟨record, hshown, hfollows⟩ := h.readers r ρ hρ
    split at hstep
    · rename_i f left record' hleft hshown'
      cases hshown.symm.trans hshown'
      cases hstep
      refine ⟨h.counted, h.written, h.writing, ?_⟩
      intro r' ρ' hρ'
      change (s.readers.set r _).get? r' = some ρ' at hρ'
      rw [Dict.get?_set] at hρ'
      split at hρ'
      · cases hρ'
        refine ⟨record, hshown, hfollows.read hleft fun hf status hstatus hterminal => ?_⟩
        subst hf
        have hsame := (hfollows.decided status hstatus hterminal).1
        refine (finished_iff_settled h hshown (by rw [hsame]; exact hterminal)).mpr ?_
        exact hrule ρ left status hρ hleft hstatus hterminal
      · exact h.readers r' ρ' hρ'
    · cases hstep
  · cases hstep

theorem sound_step {e : PollEvent ι} (h : s.Sound) (hrule : readsSettled e s) (hstep : (polled fn cfg).step e s = some s') :
    s'.Sound := by
  cases e with
  | queue e => exact sound_queue h hstep
  | write => exact sound_write h hstep
  | get r id => exact sound_get h hstep
  | read r => exact sound_read h hrule hstep

theorem sound_init (h : (polled fn cfg).init s) : s.Sound := by
  obtain ⟨hqueue, hwriting, hreaders⟩ := h
  refine ⟨counted_init hqueue, ?_, ?_, ?_⟩
  · intro id j hj
    rw [hqueue.1, Dict.get?_empty] at hj
    cases hj
  · intro w hw
    rw [hwriting] at hw
    cases hw
  · intro r ρ hρ
    rw [hreaders, Dict.get?_empty] at hρ
    cases hρ

/-- A reader that is through has the record's fields, if it saw a terminal status. -/
theorem Polled.Sound.coherent (h : s.Sound) {r : Nat} {ρ : Reader} (hρ : s.readers.get? r = some ρ)
    (hleft : ρ.left = []) : ρ.seen.Coherent := by
  obtain ⟨record, hshown, hfollows⟩ := h.readers r ρ hρ
  have hread : ∀ f : Field, f ∉ ρ.left := by
    rw [hleft]
    exact fun _ => List.not_mem_nil
  obtain ⟨hsucceeded, hfailed⟩ := shown_says h hshown
  constructor
  · intro hstatus
    obtain ⟨hsame, hagrees, hfinished⟩ := hfollows.decided _ hstatus rfl
    obtain ⟨hresult, herror, hcode, hmessage, hdetail, hhint⟩ := hsucceeded hsame
    have hagree : ∀ f : Field, f ≠ .id → f.agrees ρ.seen record := fun f => hagrees f (hread f)
    refine ⟨?_, ?_, (hagree .error nofun).trans herror, ?_, (hagree .errorMessage nofun).trans hmessage,
      (hagree .errorDetail nofun).trans hdetail, (hagree .actionHint nofun).trans hhint⟩
    · rw [show ρ.seen.result = record.result from hagree .result nofun]
      exact hresult
    · rw [show ρ.seen.finishedAt = record.finishedAt from hagree .finishedAt nofun]
      exact hfinished (hread _)
    · rw [show ρ.seen.errorCode = record.errorCode.map ErrorCode.value from hagree .errorCode nofun, hcode]
      rfl
  · intro hstatus
    obtain ⟨hsame, hagrees, hfinished⟩ := hfollows.decided _ hstatus rfl
    obtain ⟨hresult, hcode, hdetail⟩ := hfailed hsame
    have hagree : ∀ f : Field, f ≠ .id → f.agrees ρ.seen record := fun f => hagrees f (hread f)
    refine ⟨?_, ?_, ?_, (hagree .result nofun).trans hresult⟩
    · rw [show ρ.seen.finishedAt = record.finishedAt from hagree .finishedAt nofun]
      exact hfinished (hread _)
    · rw [show ρ.seen.errorCode = record.errorCode.map ErrorCode.value from hagree .errorCode nofun]
      exact fun hnone => hcode (Option.map_eq_none_iff.mp hnone)
    · rw [show ρ.seen.errorDetail = record.errorDetail from hagree .errorDetail nofun]
      exact hdetail

/-- **Every snapshot that `get` returns is coherent, along every interleaving in which readers
that have seen a terminal status come to `finished_at` when the record is settled.** -/
theorem snapshots_coherent (h : (polled fn cfg).Reachable readsSettled s) :
    ∀ r ρ, s.readers.get? r = some ρ → ρ.left = [] → ρ.seen.Coherent := by
  have hsound : s.Sound :=
    Transition.System.reachable_invariant (fun _ => sound_init) (fun _ _ _ hs hrule hstep => sound_step hs hrule hstep) h
  exact fun r ρ hρ hleft => hsound.coherent hρ hleft

end Steps

/-! ### A client that polls before the `finally` block -/

def emptyPolled : Polled := { queue := emptyQueue }

/-- A job up to the end of the section in which it succeeds. -/
def succeeding : List (PollEvent Unit) :=
  [.queue (.enqueue 0 simRequest 7), .queue (.register 0 1 0), .queue (.submit 0), .queue (.keep 0),
    .queue (.job 1 .start), .queue (.job 1 (.enter 1)), .write, .write, .queue (.job 1 .arm), .queue (.job 1 .call),
    .queue (.job 1 (.work ())), .queue (.job 1 .store), .queue (.job 1 (.complete 2)), .write, .write]

/-- A poll from beginning to end. -/
def poll (r : Nat) (id : RunId) : List (PollEvent Unit) := .get r id :: Field.order.map fun _ => .read r

theorem snapshot_incoherent :
    ¬∀ (fn : WorkerFn Unit) (cfg : Config) (s : Polled), (polled fn cfg).Reachable Transition.anything s →
      ∀ r ρ, s.readers.get? r = some ρ → ρ.left = [] → ρ.seen.Coherent := by
  intro hclaim
  have hrun : ((polled doneWorker {}).run emptyPolled (succeeding ++ poll 0 1)).map (fun s =>
      (s.readers.get? 0).map fun ρ => (ρ.left, ρ.seen.status, ρ.seen.finishedAt)) =
        some (some ([], some .succeeded, none)) := by decide +kernel
  obtain ⟨s, hs, hseen⟩ := Option.map_eq_some_iff.mp hrun
  obtain ⟨ρ, hρ, hfields⟩ := Option.map_eq_some_iff.mp hseen
  simp only [Prod.mk.injEq] at hfields
  obtain ⟨hleft, hstatus, hunfinished⟩ := hfields
  have hcoherent := hclaim doneWorker {} s
    (Transition.System.run_reachable ⟨⟨rfl, rfl, rfl, rfl, rfl, rfl⟩, rfl, rfl⟩ hs) 0 ρ hρ hleft
  exact (hcoherent.succeeded hstatus).2.1 hunfinished

/-- The rule as a test. -/
def readsSettledTest : PollEvent Unit → Polled → Bool
  | .read r, s =>
    (s.readers.get? r).all fun ρ =>
      ρ.left.head? != some .finishedAt ||
        (s.writing.all fun w => w.id != ρ.id) &&
          (s.queue.jobs.get? ρ.id).all fun j => j.record.status != .succeeded || j.worker.closedUp
  | _, _ => true

theorem readsSettled_of_test {e : PollEvent Unit} {s : Polled} (h : readsSettledTest e s = true) : readsSettled e s := by
  cases e with
  | read r =>
    intro ρ left status hρ hleft _ _
    simp only [readsSettledTest, hρ, Option.all_some, hleft, List.head?_cons, bne_self_eq_false, Bool.false_or,
      Bool.and_eq_true] at h
    refine ⟨fun w hw => ?_, fun j hj hsucceeded => ?_⟩
    · simpa [hw] using h.1
    · simpa [hj, hsucceeded] using h.2
  | _ => trivial

/-- The client polls once the `finally` block is through. -/
theorem snapshots_coherent_late : ∃ (s : Polled) (ρ : Reader), (polled doneWorker {}).walk readsSettledTest emptyPolled
    (succeeding ++ [.queue (.job 1 .disarm), .queue (.job 1 (.close 3)), .write] ++ poll 0 1) = some s ∧
      s.readers.get? 0 = some ρ ∧ ρ.seen.status = some .succeeded ∧ ρ.seen.Coherent := by
  have hrun : ((polled doneWorker {}).walk readsSettledTest emptyPolled
      (succeeding ++ [.queue (.job 1 .disarm), .queue (.job 1 (.close 3)), .write] ++ poll 0 1)).map (fun s =>
        (s.readers.get? 0).map fun ρ => (ρ.left, ρ.seen.status)) = some (some ([], some .succeeded)) := by
    decide +kernel
  obtain ⟨s, hs, hseen⟩ := Option.map_eq_some_iff.mp hrun
  obtain ⟨ρ, hρ, hfields⟩ := Option.map_eq_some_iff.mp hseen
  simp only [Prod.mk.injEq] at hfields
  obtain ⟨hleft, hstatus⟩ := hfields
  exact ⟨s, ρ, hs, hρ, hstatus, snapshots_coherent ⟨emptyPolled, ⟨⟨rfl, rfl, rfl, rfl, rfl, rfl⟩, rfl, rfl⟩,
    Transition.System.walk_leads (fun _ _ _ htest => readsSettled_of_test htest) hs⟩ 0 ρ hρ hleft⟩

end SynQc.Jobs
