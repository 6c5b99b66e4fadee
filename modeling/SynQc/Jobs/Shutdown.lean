import SynQc.Jobs.Futures

/-! Shutting the queue down, and what it waits for.

`shutdown` lists the futures it has kept, shuts the pool down and waits for the list. The
pool's work queue is written out here: a work item is put there by `submit`, a thread takes
it out to run it or, where its future was cancelled, to notify the waiters, and shutting the
pool down takes out what is left and cancels it. A future that leaves the work queue this
last way is cancelled and never notified, and `wait` does not count it as done. So the wait
ends when the threads have come to everything in the list before the pool is shut down
(`wait_ends`). Every step is a step of the queue. -/
namespace SynQc.Jobs

/-- What `concurrent.futures.wait` counts as done. -/
def Future.done : Future → Bool
  | .notified | .finished => true
  | _ => false

/-- The queue with the work queue of its pool. -/
structure Pool where
  queue : Queue
  /-- The work items that no thread has taken up, and shutting down has not taken out. -/
  work : List RunId := []
  /-- The futures of each `shutdown`: `list(self._futures.values())`. -/
  waits : List (List RunId) := []

namespace Pool

/-- The jobs whose futures are kept. -/
def kept (q : Queue) : List RunId := (q.jobs.entries.filter fun entry => entry.2.kept).map Prod.fst

/-- The threads at work. -/
def busy (q : Queue) : Nat := q.jobs.total fun _ j => if j.worker.busy then 1 else 0

/-- The record a call hands to the pool now. -/
def handed (c : Nat) (q : Queue) : Option RunId :=
  match (q.calls.get? c).map EnqueueCall.phase with
  | some (.registered id) => if q.executorDown then none else some id
  | _ => none

/-- What a step does to the work queue and the lists, besides what it does to the queue. A
thread takes an item up only while there is one and a thread is free. -/
def book {ι : Type} (maxWorkers : Nat) (e : Event ι) (p : Pool) (u : Queue) : Option Pool :=
  match e with
  | .submit c => some {p with queue := u, work := p.work ++ (handed c p.queue).toList}
  | .job id .start =>
    if id ∈ p.work ∧ busy p.queue < maxWorkers then some {p with queue := u, work := p.work.erase id} else none
  | .shutdown => some {p with queue := u, waits := p.waits ++ [kept p.queue]}
  | .shutdownExecutor => some {p with queue := u, work := []}
  | _ => some {p with queue := u}

end Pool

/-- The queue on a pool of `maxWorkers` threads. -/
def pool {ι : Type} (fn : WorkerFn ι) (cfg : Config) (maxWorkers : Nat) : Transition.System Pool (Event ι) where
  init p := (queue fn cfg).init p.queue ∧ p.work = [] ∧ p.waits = []
  step e p := ((queue fn cfg).step e p.queue).bind (p.book maxWorkers e)

section Steps
variable {ι : Type} {fn : WorkerFn ι} {cfg : Config} {maxWorkers : Nat} {e : Event ι} {p p' : Pool}

theorem pool_step (h : (pool fn cfg maxWorkers).step e p = some p') :
    (queue fn cfg).step e p.queue = some p'.queue ∧ p.book maxWorkers e p'.queue = some p' := by
  obtain ⟨u, hu, hbook⟩ := Option.bind_eq_some_iff.mp h
  have hqueue : p'.queue = u := by
    unfold Pool.book at hbook
    split at hbook
    · cases hbook
      rfl
    · split at hbook
      · cases hbook
        rfl
      · cases hbook
    · cases hbook
      rfl
    · cases hbook
      rfl
    · cases hbook
      rfl
  rw [hqueue]
  exact ⟨hu, hbook⟩

theorem book_start {id : RunId} {u : Queue} (h : p.book maxWorkers (.job (ι := ι) id .start) u = some p') :
    id ∈ p.work ∧ Pool.busy p.queue < maxWorkers ∧ p' = {p with queue := u, work := p.work.erase id} := by
  change (if id ∈ p.work ∧ Pool.busy p.queue < maxWorkers then some {p with queue := u, work := p.work.erase id}
    else none) = some p' at h
  split at h
  · rename_i hfree
    cases h
    exact ⟨hfree.1, hfree.2, rfl⟩
  · cases h

/-- What a job does but start leaves the pool's own data alone. -/
theorem book_job {id : RunId} {act : JobEvent ι} {u : Queue} (hact : act ≠ .start)
    (h : p.book maxWorkers (.job id act) u = some p') : p' = {p with queue := u} := by
  cases act with
  | start => exact absurd rfl hact
  | _ =>
    cases h
    rfl

theorem mem_kept {q : Queue} {id : RunId} : id ∈ Pool.kept q ↔ ∃ j, q.jobs.get? id = some j ∧ j.kept = true := by
  constructor
  · intro h
    obtain ⟨⟨id', j⟩, hmem, rfl⟩ := List.mem_map.mp h
    obtain ⟨hentry, hkept⟩ := List.mem_filter.mp hmem
    exact ⟨j, Dict.mem_entries.mp hentry, hkept⟩
  · rintro ⟨j, hj, hkept⟩
    exact List.mem_map.mpr ⟨(id, j), List.mem_filter.mpr ⟨Dict.mem_entries.mpr hj, hkept⟩, rfl⟩

/-! ### What is waited for -/

/-- The futures some `shutdown` waits for. -/
def Waited (p : Pool) (id : RunId) : Prop := ∃ ids ∈ p.waits, id ∈ ids

/-- Nothing that is waited for is cancelled by taking it out of the work queue: when the pool is
shut down none of it is there, and no `shutdown` lists what an earlier one took out. -/
def takenUpBefore : Event ι → Pool → Prop
  | .shutdown, p => ∀ id j, p.queue.jobs.get? id = some j → j.kept = true → j.future = .cancelled → id ∈ p.work
  | .shutdownExecutor, p => ∀ id, Waited p id → id ∉ p.work
  | _, _ => True

/-- The work queue holds what can still be taken up. -/
structure Stocked (p : Pool) : Prop where
  handed : Handed p.queue
  pending : ∀ id j, p.queue.jobs.get? id = some j → j.future = .pending → id ∈ p.work
  waited : ∀ id, Waited p id → ∃ j, p.queue.jobs.get? id = some j ∧ j.future ≠ .unsubmitted ∧
    (j.future = .cancelled → id ∈ p.work)
  empty : p.queue.executorDown = true → p.work = []

/-- The wait of every `shutdown` is over as far as the threads are: what it waits for is done, or
a thread is at work on it. -/
def WaitEnds (p : Pool) : Prop :=
  p.queue.executorDown = true → ∀ id, Waited p id → ∀ j, p.queue.jobs.get? id = some j →
    j.worker.busy = false → j.future.done = true

theorem Stocked.waitEnds (h : Stocked p) : WaitEnds p := by
  intro hdown id hwaited j hj hidle
  obtain ⟨k, hk, hsome, hcancelled⟩ := h.waited id hwaited
  cases hj.symm.trans hk
  have hempty := h.empty hdown
  cases hfuture : j.future with
  | unsubmitted => exact absurd hfuture hsome
  | pending =>
    have hmem := h.pending id j hj hfuture
    rw [hempty] at hmem
    cases hmem
  | cancelled =>
    have hmem := hcancelled hfuture
    rw [hempty] at hmem
    cases hmem
  | running => exact absurd hfuture ((h.handed.placed id j hj).at_rest hidle)
  | notified | finished => rfl

/-- What a step may do to a job, seen from the work queue it leaves: nothing becomes waiting that
is not in it, and nothing leaves it that could still be taken up. -/
structure Carried (p : Pool) (work : List RunId) (id : RunId) (j j' : Job) : Prop where
  pending : j'.future = .pending → id ∈ work ∨ (j.future = .pending ∧ (id ∈ p.work → id ∈ work))
  cancelled : j'.future = .cancelled → (j.future = .pending ∨ j.future = .cancelled) ∧ (id ∈ p.work → id ∈ work)
  unsubmitted : j'.future = .unsubmitted → j.future = .unsubmitted

theorem Carried.same {id : RunId} {j j' : Job} (hfuture : j'.future = j.future) {work : List RunId}
    (hwork : id ∈ p.work → id ∈ work) : Carried p work id j j' :=
  ⟨fun h => .inr ⟨hfuture.symm.trans h, hwork⟩, fun h => ⟨.inr (hfuture.symm.trans h), hwork⟩,
    fun h => hfuture.symm.trans h⟩

/-- Cancelling a work item leaves it where it is. -/
theorem Carried.cancel {id : RunId} {j j' : Job} (hbefore : j.future = .pending) (hafter : j'.future = .cancelled) :
    Carried p p.work id j j' := by
  refine ⟨fun h => ?_, fun _ => ⟨.inl hbefore, fun hmem => hmem⟩, fun h => ?_⟩
  · exact absurd (hafter.symm.trans h) nofun
  · exact absurd (hafter.symm.trans h) nofun

/-- A future that a thread has taken up is out of the question. -/
theorem Carried.taken {id : RunId} {j j' : Job}
    (hafter : j'.future = .running ∨ j'.future = .notified ∨ j'.future = .finished) {work : List RunId} :
    Carried p work id j j' := by
  refine ⟨fun h => ?_, fun h => ?_, fun h => ?_⟩ <;> rcases hafter with hafter | hafter | hafter <;>
    exact absurd (hafter.symm.trans h) nofun

theorem Stocked.carry (h : Stocked p) {u : Queue} {work : List RunId} (hhanded : Handed u)
    (hdown : u.executorDown = true → p.queue.executorDown = true ∧ (p.work = [] → work = []))
    (hold : ∀ id j, p.queue.jobs.get? id = some j → ∃ j', u.jobs.get? id = some j' ∧ Carried p work id j j')
    (hnew : ∀ id j', p.queue.jobs.get? id = none → u.jobs.get? id = some j' → j'.future = .unsubmitted) :
    Stocked {p with queue := u, work := work} := by
  refine ⟨hhanded, ?_, ?_, ?_⟩
  · intro id j' hj' hpending
    cases hj : p.queue.jobs.get? id with
    | none => exact absurd ((hnew id j' hj hj').symm.trans hpending) nofun
    | some j =>
      obtain ⟨k, hk, hcarried⟩ := hold id j hj
      cases hj'.symm.trans hk
      rcases hcarried.pending hpending with hmem | ⟨hbefore, hmem⟩
      · exact hmem
      · exact hmem (h.pending id j hj hbefore)
  · intro id hwaited
    obtain ⟨j, hj, hsome, hcancelled⟩ := h.waited id hwaited
    obtain ⟨j', hj', hcarried⟩ := hold id j hj
    refine ⟨j', hj', fun hnone => hsome (hcarried.unsubmitted hnone), fun hafter => ?_⟩
    obtain ⟨hbefore | hbefore, hmem⟩ := hcarried.cancelled hafter
    · exact hmem (h.pending id j hj hbefore)
    · exact hmem (hcancelled hbefore)
  · intro hafter
    obtain ⟨hbefore, hwork⟩ := hdown hafter
    exact hwork (h.empty hbefore)

/-- Steps that change no job. -/
theorem Stocked.same (h : Stocked p) {u : Queue} (hhanded : Handed u) (hjobs : u.jobs = p.queue.jobs)
    (hdown : u.executorDown = p.queue.executorDown) : Stocked {p with queue := u} := by
  refine h.carry hhanded (fun hafter => ⟨hdown ▸ hafter, fun hnone => hnone⟩) ?_ ?_
  · intro id j hj
    exact ⟨j, hjobs ▸ hj, .same rfl fun hmem => hmem⟩
  · intro id j' hnone hj'
    rw [hjobs, hnone] at hj'
    cases hj'

/-- Steps that change one job. -/
theorem Stocked.set (h : Stocked p) {u : Queue} {work : List RunId} {id : RunId} {j j' : Job} (hhanded : Handed u)
    (hj : p.queue.jobs.get? id = some j) (hjobs : u.jobs = p.queue.jobs.set id j')
    (hdown : u.executorDown = true → p.queue.executorDown = true ∧ (p.work = [] → work = []))
    (hcarried : Carried p work id j j') (hwork : ∀ other, id ≠ other → other ∈ p.work → other ∈ work) :
    Stocked {p with queue := u, work := work} := by
  refine h.carry hhanded hdown ?_ ?_
  · intro other k hk
    rw [hjobs, Dict.get?_set]
    by_cases hid : id = other
    · subst hid
      cases hj.symm.trans hk
      exact ⟨j', if_pos rfl, hcarried⟩
    · exact ⟨k, (if_neg hid).trans hk, .same rfl (hwork other hid)⟩
  · intro other k hnone hk
    rw [hjobs, Dict.get?_set] at hk
    split at hk
    · rename_i hid
      rw [hid, hnone] at hj
      cases hj
    · rw [hnone] at hk
      cases hk

theorem handed_some {c : Nat} {id : RunId} {q : Queue} {call : EnqueueCall} (hcall : q.calls.get? c = some call)
    (hphase : call.phase = .registered id) (hup : q.executorDown = false) : Pool.handed c q = some id := by
  simp only [Pool.handed, hcall, Option.map_some, hphase, hup, Bool.false_eq_true, if_false]

theorem handed_none {c : Nat} {q : Queue} (hdown : q.executorDown = true) : Pool.handed c q = none := by
  unfold Pool.handed
  split
  · rw [if_pos hdown]
  · rfl

/-- Steps of a job other than a thread taking it up. -/
theorem carried_step {timeoutSeconds : Int} {id : RunId} {e : JobEvent ι} {j : Job} {effect : Effect} (hplaced : j.Placed)
    (hstep : j.step fn timeoutSeconds e = some effect) (hstart : e ≠ .start) : Carried p p.work id j effect.job := by
  rcases future_step hplaced hstep with hsame | ⟨hbefore, hafter⟩ | ⟨hstarted, _⟩ | ⟨_, hafter⟩
  · exact .same hsame fun hmem => hmem
  · exact .cancel hbefore hafter
  · exact absurd hstarted hstart
  · exact .taken (.inr (.inr hafter))

theorem start_taken {timeoutSeconds : Int} {j : Job} {effect : Effect} (h : j.step fn timeoutSeconds .start = some effect) :
    effect.job.future = .running ∨ effect.job.future = .notified ∨ effect.job.future = .finished := by
  cases Job.step_some h with
  | start => exact .inl rfl
  | discard => exact .inr (.inl rfl)

theorem waited_append {ids : List RunId} {id : RunId} :
    Waited {p with waits := p.waits ++ [ids]} id ↔ Waited p id ∨ id ∈ ids := by
  constructor
  · rintro ⟨ids', hmem, hid⟩
    rcases List.mem_append.mp hmem with hold | hnew
    · exact .inl ⟨ids', hold, hid⟩
    · cases List.mem_singleton.mp hnew
      exact .inr hid
  · rintro (⟨ids', hmem, hid⟩ | hid)
    · exact ⟨ids', List.mem_append_left _ hmem, hid⟩
    · exact ⟨ids, List.mem_append_right _ List.mem_cons_self, hid⟩

/-- A thread takes an item up: the others stay in the work queue. -/
theorem stocked_start (h : Stocked p) {timeoutSeconds : Int} {id : RunId} {j : Job} {effect : Effect}
    (hj : p.queue.jobs.get? id = some j) (hstep : j.step fn timeoutSeconds .start = some effect)
    (hhanded : Handed (p.queue.apply id effect)) (hmem : id ∈ p.work) :
    Stocked {p with queue := p.queue.apply id effect, work := p.work.erase id} := by
  refine h.set hhanded hj rfl (fun hdown => ⟨hdown, fun hnone => ?_⟩) (.taken (start_taken hstep)) ?_
  · rw [hnone] at hmem
    cases hmem
  · intro other hne hother
    exact (List.mem_erase_of_ne (Ne.symm hne)).mpr hother

/-- `shutdown` sets the events, and lists what it will wait for. -/
theorem stocked_shutdown (h : Stocked p) (hrule : takenUpBefore (ι := ι) .shutdown p) {u : Queue} (hhanded : Handed u)
    (hjobs : u.jobs = p.queue.jobs.mapValues Queue.signal) (hdown : u.executorDown = p.queue.executorDown) :
    Stocked {p with queue := u, waits := p.waits ++ [Pool.kept p.queue]} := by
  have hget : ∀ {id : RunId} {j : Job}, p.queue.jobs.get? id = some j → u.jobs.get? id = some (Queue.signal j) := by
    intro id j hj
    rw [hjobs, Dict.get?_mapValues, hj]
    rfl
  have hback : ∀ {id : RunId} {j : Job}, u.jobs.get? id = some j → ∃ j', p.queue.jobs.get? id = some j' ∧
      j.future = j'.future := by
    intro id j hj
    rw [hjobs, Dict.get?_mapValues] at hj
    obtain ⟨j', hj', rfl⟩ := Option.map_eq_some_iff.mp hj
    exact ⟨j', hj', rfl⟩
  refine ⟨hhanded, ?_, ?_, fun hafter => h.empty (hdown.symm.trans hafter)⟩
  · intro id j hj hpending
    obtain ⟨j', hj', hfuture⟩ := hback hj
    exact h.pending id j' hj' (hfuture.symm.trans hpending)
  · intro id hwaited
    rcases waited_append.mp hwaited with hold | hnew
    · obtain ⟨j, hj, hsome, hcancelled⟩ := h.waited id hold
      exact ⟨Queue.signal j, hget hj, hsome, hcancelled⟩
    · obtain ⟨j, hj, hkept⟩ := mem_kept.mp hnew
      exact ⟨Queue.signal j, hget hj, h.handed.kept id j hj hkept, hrule id j hj hkept⟩

/-- Shutting the pool down empties the work queue. -/
theorem stocked_drain (h : Stocked p) (hrule : takenUpBefore (ι := ι) .shutdownExecutor p) {u : Queue} (hhanded : Handed u)
    (hjobs : u.jobs = p.queue.jobs.mapValues Queue.drain) : Stocked {p with queue := u, work := []} := by
  refine ⟨hhanded, ?_, ?_, fun _ => rfl⟩
  · intro id j hj hpending
    rw [hjobs, Dict.get?_mapValues] at hj
    obtain ⟨j', _, rfl⟩ := Option.map_eq_some_iff.mp hj
    rcases drain_future j' with hsame | ⟨_, hafter⟩
    · have hdrained : (Queue.drain j').future = .cancelled := if_pos (hsame.symm.trans hpending)
      exact absurd (hdrained.symm.trans hpending) nofun
    · exact absurd (hafter.symm.trans hpending) nofun
  · intro id hwaited
    obtain ⟨j, hj, hsome, hcancelled⟩ := h.waited id hwaited
    have hgone := hrule id hwaited
    refine ⟨Queue.drain j, by rw [hjobs, Dict.get?_mapValues, hj]; rfl, ?_, fun hafter => ?_⟩
    · exact fun hnone => hsome ((drain_unsubmitted j).mp hnone)
    · rcases drain_future j with hsame | ⟨hbefore, _⟩
      · exact absurd (hcancelled (hsame.symm.trans hafter)) hgone
      · exact absurd (h.pending id j hj hbefore) hgone

theorem stocked_step (h : Stocked p) (hrule : takenUpBefore e p) (hstep : (pool fn cfg maxWorkers).step e p = some p') :
    Stocked p' := by
  obtain ⟨hqueue, hbook⟩ := pool_step hstep
  have hhanded := handed_step h.handed hqueue
  generalize p'.queue = u at hqueue hbook hhanded
  cases Queue.step_some hqueue with
  | closed | full | check =>
    cases hbook
    exact h.same hhanded rfl rfl
  | @register c id now call hcall hphase hfresh _ =>
    cases hbook
    refine h.carry hhanded (fun hafter => ⟨hafter, fun hnone => hnone⟩) ?_ ?_
    · intro other j hj
      have hne : id ≠ other := by
        intro heq
        rw [heq, hj] at hfresh
        cases hfresh
      exact ⟨j, (Dict.get?_set_ne _ _ hne).trans hj, .same rfl fun hmem => hmem⟩
    · intro other j hnone hj
      change (p.queue.jobs.set id _).get? other = some j at hj
      rw [Dict.get?_set] at hj
      split at hj
      · cases hj
        rfl
      · rw [hnone] at hj
        cases hj
  | refuse _ _ hdown =>
    cases hbook
    rw [handed_none hdown, Option.toList_none, List.append_nil]
    exact h.same hhanded rfl rfl
  | @submit c id call j hcall hphase hup hj =>
    cases hbook
    rw [handed_some hcall hphase hup, Option.toList_some]
    refine h.set hhanded hj rfl (fun hdown => ?_) ⟨fun _ => ?_, fun hfuture => ?_, fun hfuture => ?_⟩ ?_
    · cases hup.symm.trans hdown
    · exact .inl (List.mem_append_right _ List.mem_cons_self)
    · cases hfuture
    · cases hfuture
    · exact fun other _ hmem => List.mem_append_left _ hmem
  | @keep c id call j hcall hphase hj =>
    cases hbook
    have hcarried : Carried p p.work id j {j with kept := true} := by
      refine .same ?_ fun hmem => hmem
      rfl
    exact h.set hhanded hj rfl (fun hdown => ⟨hdown, fun hnone => hnone⟩) hcarried fun _ _ hmem => hmem
  | @job id act j effect hj heffect =>
    have hplaced := h.handed.placed id j hj
    by_cases hstart : act = .start
    · subst hstart
      obtain ⟨hmem, _, rfl⟩ := book_start hbook
      exact stocked_start h hj heffect hhanded hmem
    · rw [book_job hstart hbook]
      exact h.set hhanded hj rfl (fun hdown => ⟨hdown, fun hnone => hnone⟩) (carried_step hplaced heffect hstart)
        fun _ _ hmem => hmem
  | shutdown =>
    cases hbook
    exact stocked_shutdown h hrule hhanded rfl rfl
  | shutdownExecutor =>
    cases hbook
    exact stocked_drain h hrule hhanded rfl

theorem stocked_init (h : (pool fn cfg maxWorkers).init p) : Stocked p := by
  obtain ⟨hqueue, hwork, hwaits⟩ := h
  have hnone : ∀ id j, p.queue.jobs.get? id ≠ some j := by
    intro id j hj
    rw [hqueue.1, Dict.get?_empty] at hj
    cases hj
  refine ⟨handed_init hqueue, fun id j hj => absurd hj (hnone id j), ?_, fun _ => hwork⟩
  rintro id ⟨ids, hmem, _⟩
  rw [hwaits] at hmem
  cases hmem

/-- **Where nothing that a `shutdown` waits for is taken out of the work queue unseen, every
`shutdown` waits only for futures that are done and for threads at work, along every
interleaving and for any number of threads.** -/
theorem wait_ends (h : (pool fn cfg maxWorkers).Reachable takenUpBefore p) : WaitEnds p :=
  (Transition.System.reachable_invariant (fun _ => stocked_init) (fun _ _ _ hp hrule hstep => stocked_step hp hrule hstep)
    h).waitEnds

/-! ### What is lost is lost -/

/-- A future that was cancelled outside the work queue of a pool that is shut down. -/
structure Lost (p : Pool) (id : RunId) : Prop where
  handed : Handed p.queue
  waited : Waited p id
  down : p.queue.executorDown = true
  empty : p.work = []
  cancelled : ∃ j, p.queue.jobs.get? id = some j ∧ j.future = .cancelled

/-- No thread ever comes to it. -/
theorem lost_step {id : RunId} (h : Lost p id) (hstep : (pool fn cfg maxWorkers).step e p = some p') : Lost p' id := by
  obtain ⟨hqueue, hbook⟩ := pool_step hstep
  have hhanded := handed_step h.handed hqueue
  obtain ⟨j, hj, hcancelled⟩ := h.cancelled
  generalize p'.queue = u at hqueue hbook hhanded
  -- changing one job: another one, or this one in a way that keeps its future
  have hset : ∀ {other : RunId} {k k' : Job}, p.queue.jobs.get? other = some k → k'.future = k.future →
      ∃ j', (p.queue.jobs.set other k').get? id = some j' ∧ j'.future = .cancelled := by
    intro other k k' hk hfuture
    obtain ⟨j', hj', hsame⟩ := Dict.get?_set_related (R := fun j j' => j'.future = j.future) (fun _ => rfl) hk hfuture hj
    exact ⟨j', hj', hsame.trans hcancelled⟩
  have hmap : ∀ {f : Job → Job}, (f j).future = .cancelled →
      ∃ j', (p.queue.jobs.mapValues f).get? id = some j' ∧ j'.future = .cancelled := by
    intro f hfuture
    exact ⟨f j, by rw [Dict.get?_mapValues, hj]; rfl, hfuture⟩
  cases Queue.step_some hqueue with
  | closed | full | check =>
    cases hbook
    exact ⟨hhanded, h.waited, h.down, h.empty, h.cancelled⟩
  | register _ _ hfresh _ =>
    cases hbook
    exact ⟨hhanded, h.waited, h.down, h.empty, j, Dict.get?_set_new hfresh hj _, hcancelled⟩
  | refuse _ _ hdown =>
    cases hbook
    rw [handed_none hdown, Option.toList_none, List.append_nil]
    exact ⟨hhanded, h.waited, h.down, h.empty, h.cancelled⟩
  | submit _ _ hup _ => exact absurd (hup.symm.trans h.down) nofun
  | keep _ _ hk =>
    cases hbook
    exact ⟨hhanded, h.waited, h.down, h.empty, hset hk rfl⟩
  | @job other act k effect hk heffect =>
    have hnot : act ≠ .start := by
      intro hstart
      subst hstart
      have hmem := (book_start hbook).1
      rw [h.empty] at hmem
      cases hmem
    rw [book_job hnot hbook]
    refine ⟨hhanded, h.waited, h.down, h.empty, ?_⟩
    by_cases hid : other = id
    · subst hid
      cases hj.symm.trans hk
      rcases future_step (h.handed.placed other j hj) heffect with hsame | ⟨hpending, _⟩ | ⟨hstart, _⟩ | ⟨hrunning, _⟩
      · exact hset hk hsame
      · exact absurd (hpending.symm.trans hcancelled) nofun
      · exact absurd hstart hnot
      · exact absurd (hrunning.symm.trans hcancelled) nofun
    · exact ⟨j, (Dict.get?_set_ne _ _ hid).trans hj, hcancelled⟩
  | shutdown =>
    cases hbook
    exact ⟨hhanded, waited_append.mpr (.inl h.waited), h.down, h.empty, hmap hcancelled⟩
  | shutdownExecutor =>
    cases hbook
    refine ⟨hhanded, h.waited, rfl, rfl, hmap ?_⟩
    show (if j.future = .pending then Future.cancelled else j.future) = .cancelled
    rw [hcancelled]
    rfl

/-- What a `shutdown` waits for and the pool takes out of its work queue is never done. -/
theorem wait_hangs {id : RunId} {j : Job} {p₁ : Pool} (hhanded : Handed p.queue) (hwaited : Waited p id)
    (hj : p.queue.jobs.get? id = some j) (hfuture : j.future = .pending ∨ j.future = .cancelled)
    (hdown : (pool fn cfg maxWorkers).step .shutdownExecutor p = some p₁)
    (hl : (pool fn cfg maxWorkers).Leads Transition.anything p₁ p') :
    Waited p' id ∧ ∃ j', p'.queue.jobs.get? id = some j' ∧ j'.worker.busy = false ∧ j'.future.done = false := by
  have hlost : Lost p₁ id := by
    obtain ⟨hqueue, hbook⟩ := pool_step hdown
    have hafter := handed_step hhanded hqueue
    generalize p₁.queue = u at hqueue hbook hafter
    cases Queue.step_some hqueue with
    | shutdownExecutor =>
      cases hbook
      refine ⟨hafter, hwaited, rfl, rfl, Queue.drain j, by rw [Dict.get?_mapValues, hj]; rfl, ?_⟩
      show (if j.future = .pending then Future.cancelled else j.future) = .cancelled
      rcases hfuture with hpending | hcancelled
      · exact if_pos hpending
      · rw [hcancelled]
        rfl
  have hend := Transition.System.leads_invariant (fun _ _ _ hp _ hstep => lost_step hp hstep) hl hlost
  obtain ⟨j', hj', hcancelled⟩ := hend.cancelled
  refine ⟨hend.waited, j', hj', ?_, by rw [hcancelled]; rfl⟩
  have hidle := (hend.handed.placed id j' hj').idle (by rw [hcancelled]; exact ⟨nofun, nofun⟩)
  rw [hidle]
  rfl

end Steps

/-! ### A job that no thread has come to -/

def emptyPool : Pool := { queue := emptyQueue }

/-- Two jobs on one thread, and the shutdown finds the second one waiting. The first then ends. -/
def leftWaiting : List (Event Unit) :=
  [.enqueue 0 simRequest 7, .register 0 1 0, .submit 0, .keep 0, .enqueue 1 simRequest 8, .register 1 2 0, .submit 1,
    .keep 1, .job 1 .start, .job 1 (.enter 1), .job 1 .arm, .job 1 .call, .shutdown, .shutdownExecutor, .job 1 (.work ()),
    .job 1 .store, .job 1 (.complete 2), .job 1 (.persistWorker 3), .job 1 .disarm, .job 1 (.close 4), .job 1 .observe]

theorem shutdown_hangs :
    ¬∀ (fn : WorkerFn Unit) (cfg : Config) (maxWorkers : Nat) (p : Pool),
      (pool fn cfg maxWorkers).Reachable Transition.anything p → WaitEnds p := by
  intro hclaim
  have hrun : ((pool idleWorker {} 1).run emptyPool leftWaiting).map (fun p => (p.queue.executorDown, p.waits,
      (p.queue.jobs.get? 2).map fun j => (j.worker.busy, j.future.done))) =
        some (true, [[1, 2]], some (false, false)) := by decide +kernel
  obtain ⟨p, hp, hstate⟩ := Option.map_eq_some_iff.mp hrun
  have hends := hclaim idleWorker {} 1 p
    (Transition.System.run_reachable ⟨⟨rfl, rfl, rfl, rfl, rfl, rfl⟩, rfl, rfl⟩ hp)
  simp only [Prod.mk.injEq, Option.map_eq_some_iff] at hstate
  obtain ⟨hdown, hwaits, j, hj, hidle, hopen⟩ := hstate
  have hwaited : Waited p 2 := ⟨[1, 2], by rw [hwaits]; exact List.mem_cons_self, by decide⟩
  cases (hends hdown 2 hwaited j hj hidle).symm.trans hopen

/-- The shutdown finds the thread at work and nothing waiting. -/
def nothingWaiting : List (Event Unit) :=
  [.enqueue 0 simRequest 7, .register 0 1 0, .submit 0, .keep 0, .job 1 .start, .job 1 (.enter 1), .shutdown,
    .shutdownExecutor, .job 1 .arm, .job 1 .call, .job 1 (.work ()), .job 1 .store, .job 1 (.complete 2),
    .job 1 (.persistWorker 3), .job 1 .disarm, .job 1 (.close 4), .job 1 .observe]

def takenUpBeforeTest : Event Unit → Pool → Bool
  | .shutdown, p => p.queue.jobs.entries.all fun entry =>
      !(entry.2.kept && entry.2.future == .cancelled) || p.work.contains entry.1
  | .shutdownExecutor, p => p.waits.all fun ids => ids.all fun id => !p.work.contains id
  | _, _ => true

theorem takenUpBefore_of_test {e : Event Unit} {p : Pool} (h : takenUpBeforeTest e p = true) : takenUpBefore e p := by
  cases e with
  | shutdown =>
    intro id j hj hkept hcancelled
    have hentry := List.all_eq_true.mp h (id, j) (Dict.mem_entries.mpr hj)
    simpa [hkept, hcancelled] using hentry
  | shutdownExecutor =>
    rintro id ⟨ids, hids, hid⟩ hmem
    have hnot := List.all_eq_true.mp (List.all_eq_true.mp h ids hids) id hid
    simp [hmem] at hnot
  | _ => trivial

theorem wait_ends_nothingWaiting :
    ∃ p : Pool, (pool idleWorker {} 1).walk takenUpBeforeTest emptyPool nothingWaiting = some p ∧ WaitEnds p := by
  have hrun : ((pool idleWorker {} 1).walk takenUpBeforeTest emptyPool nothingWaiting).isSome = true := by
    decide +kernel
  obtain ⟨p, hp⟩ := Option.isSome_iff_exists.mp hrun
  exact ⟨p, hp, wait_ends ⟨emptyPool, ⟨⟨rfl, rfl, rfl, rfl, rfl, rfl⟩, rfl, rfl⟩,
    Transition.System.walk_leads (fun _ _ _ htest => takenUpBefore_of_test htest) hp⟩⟩

end SynQc.Jobs
