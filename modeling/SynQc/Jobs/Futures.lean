import SynQc.Jobs.Queue

/-! The futures of the jobs, along every run of the queue.

A future runs while its job's thread does and is finished when the thread is done with it. A
call of `enqueue` that has inserted its record is the only one that can hand it to the pool;
until then the record has no future, and afterwards it never loses it again. -/
namespace SynQc.Jobs

/-- Whether a pool thread is at work on the job. -/
def Worker.busy : Worker → Bool
  | .idle | .done => false
  | _ => true

/-- Where the future stands, by where the worker does. -/
def Job.Placed (j : Job) : Prop :=
  match j.worker with
  | .idle => j.future ≠ .running ∧ j.future ≠ .finished
  | .done => j.future = .finished
  | _ => j.future = .running

theorem Job.Placed.of_idle {j : Job} (hidle : j.worker = .idle) (hfuture : j.future ≠ .running ∧ j.future ≠ .finished) :
    j.Placed := by
  unfold Job.Placed
  rw [hidle]
  exact hfuture

theorem Job.Placed.of_busy {j : Job} (h : j.Placed) (hbusy : j.worker.busy = true) : j.future = .running := by
  unfold Job.Placed at h
  split at h
  · rename_i hidle
    rw [hidle] at hbusy
    cases hbusy
  · rename_i hdone
    rw [hdone] at hbusy
    cases hbusy
  · exact h

theorem Job.Placed.idle {j : Job} (h : j.Placed) (hfuture : j.future ≠ .running ∧ j.future ≠ .finished) :
    j.worker = .idle := by
  unfold Job.Placed at h
  split at h
  · rename_i hidle
    exact hidle
  · exact absurd h hfuture.2
  · exact absurd h hfuture.1

/-- No future runs without a thread. -/
theorem Job.Placed.at_rest {j : Job} (h : j.Placed) (hbusy : j.worker.busy = false) : j.future ≠ .running := by
  unfold Job.Placed at h
  cases hworker : j.worker with
  | idle =>
    rw [hworker] at h
    exact h.1
  | done =>
    rw [hworker] at h
    rw [show j.future = .finished from h]
    exact nofun
  | _ =>
    rw [hworker] at hbusy
    cases hbusy

/-- A worker at work that stays at work, or comes to its end with the future. -/
theorem Job.Placed.working {j j' : Job} (h : j.Placed) (hbusy : j.worker.busy = true) (hbusy' : j'.worker.busy = true)
    (hfuture : j'.future = j.future) : j'.Placed := by
  have hrunning := h.of_busy hbusy
  unfold Job.Placed
  split
  · rename_i hidle
    rw [hidle] at hbusy'
    cases hbusy'
  · rename_i hdone
    rw [hdone] at hbusy'
    cases hbusy'
  · exact hfuture.trans hrunning

/-- Changes that leave worker and future alone. -/
theorem Job.Placed.same {j j' : Job} (h : j.Placed) (hworker : j'.worker = j.worker) (hfuture : j'.future = j.future) :
    j'.Placed := by
  unfold Job.Placed at h ⊢
  rw [hworker, hfuture]
  exact h

/-- Cancelling what has not started. -/
theorem Job.Placed.cancelled {j j' : Job} (h : j.Placed) (hworker : j'.worker = j.worker)
    (hfuture : j'.future = j.future ∨ (j.future = .pending ∧ j'.future = .cancelled)) : j'.Placed := by
  rcases hfuture with hsame | ⟨hpending, hcancelled⟩
  · exact h.same hworker hsame
  · have hidle := h.idle (by rw [hpending]; exact ⟨nofun, nofun⟩)
    refine .of_idle (hworker.trans hidle) ?_
    rw [hcancelled]
    exact ⟨nofun, nofun⟩

theorem abandon_future (j : Job) (f : Failure) (now : Time) :
    (j.abandon f now).future = j.future ∨ (j.future = .pending ∧ (j.abandon f now).future = .cancelled) := by
  simp only [Job.abandon]
  split
  · rename_i hboth
    exact .inr ⟨hboth.2, rfl⟩
  · exact .inl rfl

section Steps
variable {ι : Type} {fn : WorkerFn ι} {timeoutSeconds : Int} {e : JobEvent ι} {j : Job} {effect : Effect}

theorem placed_step (h : j.Placed) (hstep : j.step fn timeoutSeconds e = some effect) : effect.job.Placed := by
  cases Job.step_some hstep with
  | start => exact rfl
  | discard hworker _ =>
    have hnotified : Job.Placed {j with future := .notified} := .of_idle hworker ⟨nofun, nofun⟩
    exact hnotified
  | leave | observe => exact rfl
  | enter hworker _ | arm hworker | call hworker | work hworker | store hworker | decided hworker _ | succeed hworker _
  | fail hworker _ | persistWorker hworker | disarm hworker | close hworker _ =>
    exact h.working (by rw [hworker]; rfl) rfl rfl
  | @expire now _ _ => exact h.cancelled rfl (abandon_future j (expiry timeoutSeconds) now)
  | @cancel reason now _ => exact h.cancelled rfl (abandon_future j (cancellation reason) now)
  | fire | spare | refuse | persist => exact h.same rfl rfl

/-- What a step of a job does to its future. -/
theorem future_step (h : j.Placed) (hstep : j.step fn timeoutSeconds e = some effect) :
    effect.job.future = j.future ∨ (j.future = .pending ∧ effect.job.future = .cancelled) ∨
      (e = .start ∧ (effect.job.future = .running ∨ effect.job.future = .notified)) ∨
      (j.future = .running ∧ effect.job.future = .finished) := by
  cases Job.step_some hstep with
  | start => exact .inr (.inr (.inl ⟨rfl, .inl rfl⟩))
  | discard => exact .inr (.inr (.inl ⟨rfl, .inr rfl⟩))
  | leave hworker _ | observe hworker => exact .inr (.inr (.inr ⟨h.of_busy (by rw [hworker]; rfl), rfl⟩))
  | @expire now _ _ => exact (abandon_future j (expiry timeoutSeconds) now).imp_right .inl
  | @cancel reason now _ => exact (abandon_future j (cancellation reason) now).imp_right .inl
  | _ => exact .inl rfl

/-- A job without a future starts without one, and takes no step to get one. -/
theorem unsubmitted_step (h : j.Placed) (hstep : j.step fn timeoutSeconds e = some effect) :
    effect.job.future = .unsubmitted ↔ j.future = .unsubmitted := by
  rcases future_step h hstep with hsame | ⟨hbefore, hafter⟩ | ⟨rfl, hafter⟩ | ⟨hbefore, hafter⟩
  · rw [hsame]
  · rw [hbefore, hafter]
    exact ⟨nofun, nofun⟩
  · have hstarted : j.future ≠ .unsubmitted := by
      intro hnone
      cases Job.step_some hstep with
      | start _ hfuture => exact absurd (hnone.symm.trans hfuture) nofun
      | discard _ hfuture => exact absurd (hnone.symm.trans hfuture) nofun
    refine ⟨fun hnone => ?_, fun hnone => absurd hnone hstarted⟩
    rcases hafter with hafter | hafter
    · exact absurd (hafter.symm.trans hnone) nofun
    · exact absurd (hafter.symm.trans hnone) nofun
  · rw [hbefore, hafter]
    exact ⟨nofun, nofun⟩

end Steps

/-! ### The queue -/

/-- Futures and calls fit together. -/
structure Handed (q : Queue) : Prop where
  placed : ∀ id j, q.jobs.get? id = some j → j.Placed
  /-- A call that has inserted its record has not handed it over. -/
  registered : ∀ c call id, q.calls.get? c = some call → call.phase = .registered id →
    ∃ j, q.jobs.get? id = some j ∧ j.future = .unsubmitted
  single : ∀ c c' call call' id, q.calls.get? c = some call → call.phase = .registered id →
    q.calls.get? c' = some call' → call'.phase = .registered id → c = c'
  /-- A call that has handed its record over left it with a future. -/
  submitted : ∀ c call id, q.calls.get? c = some call → call.phase = .submitted id →
    ∃ j, q.jobs.get? id = some j ∧ j.future ≠ .unsubmitted
  kept : ∀ id j, q.jobs.get? id = some j → j.kept = true → j.future ≠ .unsubmitted

section Queue
variable {ι : Type} {fn : WorkerFn ι} {cfg : Config} {e : Event ι} {q u : Queue}

theorem handed_init (h : (queue fn cfg).init q) : Handed q := by
  obtain ⟨hjobs, _, hcalls, _⟩ := h
  have hnoJob : ∀ id j, q.jobs.get? id ≠ some j := by
    intro id j hj
    rw [hjobs, Dict.get?_empty] at hj
    cases hj
  have hnoCall : ∀ c call, q.calls.get? c ≠ some call := by
    intro c call hcall
    rw [hcalls, Dict.get?_empty] at hcall
    cases hcall
  exact ⟨fun id j hj => absurd hj (hnoJob id j), fun c call id hcall => absurd hcall (hnoCall c call),
    fun c c' call call' id hcall => absurd hcall (hnoCall c call), fun c call id hcall => absurd hcall (hnoCall c call),
    fun id j hj => absurd hj (hnoJob id j)⟩

/-- A call gets a phase in which it owns no record. -/
theorem Handed.setCall (h : Handed q) {c : Nat} {call : EnqueueCall} {phase : EnqueuePhase}
    (hregistered : ∀ id, phase ≠ .registered id) (hsubmitted : ∀ id, phase ≠ .submitted id) :
    Handed (q.setCall c call phase) := by
  have hget : ∀ {c' : Nat} {call' : EnqueueCall}, (q.setCall c call phase).calls.get? c' = some call' →
      call'.phase ≠ phase → q.calls.get? c' = some call' := by
    intro c' call' hcall' hne
    change (q.calls.set c _).get? c' = some call' at hcall'
    rw [Dict.get?_set] at hcall'
    split at hcall'
    · cases hcall'
      exact absurd rfl hne
    · exact hcall'
  have hreg : ∀ {call' : EnqueueCall} {id : RunId}, call'.phase = .registered id → call'.phase ≠ phase :=
    fun hphase heq => hregistered _ (heq.symm.trans hphase)
  have hsub : ∀ {call' : EnqueueCall} {id : RunId}, call'.phase = .submitted id → call'.phase ≠ phase :=
    fun hphase heq => hsubmitted _ (heq.symm.trans hphase)
  refine ⟨h.placed, ?_, ?_, ?_, h.kept⟩
  · exact fun c' call' id hcall' hphase => h.registered c' call' id (hget hcall' (hreg hphase)) hphase
  · exact fun c₁ c₂ call₁ call₂ id h₁ hphase₁ h₂ hphase₂ =>
      h.single c₁ c₂ call₁ call₂ id (hget h₁ (hreg hphase₁)) hphase₁ (hget h₂ (hreg hphase₂)) hphase₂
  · exact fun c' call' id hcall' hphase => h.submitted c' call' id (hget hcall' (hsub hphase)) hphase

/-- All jobs change in a way that keeps their place and whether they have a future. -/
theorem Handed.mapJobs (h : Handed q) (f : Job → Job) (hplaced : ∀ j, j.Placed → (f j).Placed)
    (hfuture : ∀ j, (f j).future = .unsubmitted ↔ j.future = .unsubmitted) (hkept : ∀ j, (f j).kept = j.kept)
    (hjobs : u.jobs = q.jobs.mapValues f) (hcalls : u.calls = q.calls) : Handed u := by
  have hget : ∀ {id : RunId} {j : Job}, u.jobs.get? id = some j → ∃ j', q.jobs.get? id = some j' ∧ f j' = j := by
    intro id j hj
    rw [hjobs, Dict.get?_mapValues] at hj
    exact Option.map_eq_some_iff.mp hj
  have hset : ∀ {id : RunId} {j : Job}, q.jobs.get? id = some j → u.jobs.get? id = some (f j) := by
    intro id j hj
    rw [hjobs, Dict.get?_mapValues, hj]
    rfl
  refine ⟨?_, ?_, ?_, ?_, ?_⟩
  · intro id j hj
    obtain ⟨j', hj', rfl⟩ := hget hj
    exact hplaced j' (h.placed id j' hj')
  · intro c call id hcall hphase
    obtain ⟨j, hj, hnone⟩ := h.registered c call id (hcalls ▸ hcall) hphase
    exact ⟨f j, hset hj, (hfuture j).mpr hnone⟩
  · rw [hcalls]
    exact h.single
  · intro c call id hcall hphase
    obtain ⟨j, hj, hsome⟩ := h.submitted c call id (hcalls ▸ hcall) hphase
    exact ⟨f j, hset hj, fun hnone => hsome ((hfuture j).mp hnone)⟩
  · intro id j hj hk
    obtain ⟨j', hj', rfl⟩ := hget hj
    rw [hkept] at hk
    exact fun hnone => h.kept id j' hj' hk ((hfuture j').mp hnone)

/-- One job changes, and keeps whether it has a future. -/
theorem Handed.setJob (h : Handed q) {id : RunId} {j j' : Job} (hj : q.jobs.get? id = some j) (hplaced : j'.Placed)
    (hfuture : j'.future = .unsubmitted ↔ j.future = .unsubmitted) (hkept : j'.kept = true → j'.future ≠ .unsubmitted)
    (hjobs : u.jobs = q.jobs.set id j') (hcalls : u.calls = q.calls) : Handed u := by
  have hget : ∀ id', u.jobs.get? id' = if id = id' then some j' else q.jobs.get? id' := by
    intro id'
    rw [hjobs, Dict.get?_set]
  refine ⟨?_, ?_, ?_, ?_, ?_⟩
  · rw [hjobs]
    exact Dict.forall_set h.placed hplaced
  · intro c call id' hcall hphase
    obtain ⟨k, hk, hnone⟩ := h.registered c call id' (hcalls ▸ hcall) hphase
    rw [hget]
    split
    · rename_i hid
      subst hid
      cases hj.symm.trans hk
      exact ⟨j', rfl, hfuture.mpr hnone⟩
    · exact ⟨k, hk, hnone⟩
  · rw [hcalls]
    exact h.single
  · intro c call id' hcall hphase
    obtain ⟨k, hk, hsome⟩ := h.submitted c call id' (hcalls ▸ hcall) hphase
    rw [hget]
    split
    · rename_i hid
      subst hid
      cases hj.symm.trans hk
      exact ⟨j', rfl, fun hnone => hsome (hfuture.mp hnone)⟩
    · exact ⟨k, hk, hsome⟩
  · rw [hjobs]
    exact Dict.forall_set h.kept hkept

theorem step_kept {ι : Type} {fn : WorkerFn ι} {timeoutSeconds : Int} {e : JobEvent ι} {j : Job} {effect : Effect}
    (h : j.step fn timeoutSeconds e = some effect) : effect.job.kept = j.kept := by
  cases Job.step_some h with
  | _ => rfl

theorem handed_register (h : Handed q) {c : Nat} {id : RunId} {now : Time} {call : EnqueueCall}
    (hfresh : q.jobs.get? id = none) :
    Handed ({q with jobs := q.jobs.set id (Queue.newJob id call now)}.setCall c call (.registered id)) := by
  have hold : ∀ {id' : RunId} {j : Job}, q.jobs.get? id' = some j →
      (q.jobs.set id (Queue.newJob id call now)).get? id' = some j := fun hj => Dict.get?_set_new hfresh hj _
  have hcallGet : ∀ c', (q.calls.set c {call with phase := .registered id}).get? c' =
      if c = c' then some {call with phase := .registered id} else q.calls.get? c' := fun c' => Dict.get?_set _ _ _ _
  have hnotOld : ∀ {c' : Nat} {call' : EnqueueCall}, q.calls.get? c' = some call' → call'.phase ≠ .registered id := by
    intro c' call' hcall' hphase
    obtain ⟨j, hj, _⟩ := h.registered c' call' id hcall' hphase
    rw [hfresh] at hj
    cases hj
  refine ⟨?_, ?_, ?_, ?_, ?_⟩
  · have hnew : (Queue.newJob id call now).Placed := by
      refine Job.Placed.of_idle rfl ⟨?_, ?_⟩ <;> intro hfuture <;> cases hfuture
    exact Dict.forall_set h.placed hnew
  · intro c' call' id' hcall' hphase
    change (q.calls.set c _).get? c' = some call' at hcall'
    rw [hcallGet] at hcall'
    split at hcall'
    · cases hcall'
      cases hphase
      exact ⟨_, Dict.get?_set_self _ _ _, rfl⟩
    · obtain ⟨j, hj, hnone⟩ := h.registered c' call' id' hcall' hphase
      exact ⟨j, hold hj, hnone⟩
  · intro c₁ c₂ call₁ call₂ id' h₁ hphase₁ h₂ hphase₂
    change (q.calls.set c _).get? c₁ = some call₁ at h₁
    change (q.calls.set c _).get? c₂ = some call₂ at h₂
    rw [hcallGet] at h₁ h₂
    split at h₁
    · rename_i hc₁
      split at h₂
      · rename_i hc₂
        exact hc₁.symm.trans hc₂
      · cases h₁
        cases hphase₁
        exact absurd hphase₂ (hnotOld h₂)
    · split at h₂
      · cases h₂
        cases hphase₂
        exact absurd hphase₁ (hnotOld h₁)
      · exact h.single c₁ c₂ call₁ call₂ id' h₁ hphase₁ h₂ hphase₂
  · intro c' call' id' hcall' hphase
    change (q.calls.set c _).get? c' = some call' at hcall'
    rw [hcallGet] at hcall'
    split at hcall'
    · cases hcall'
      cases hphase
    · obtain ⟨j, hj, hsome⟩ := h.submitted c' call' id' hcall' hphase
      exact ⟨j, hold hj, hsome⟩
  · have hnew : (Queue.newJob id call now).kept = true → (Queue.newJob id call now).future ≠ .unsubmitted := by
      intro hkept
      cases hkept
    exact Dict.forall_set h.kept hnew

theorem handed_submit (h : Handed q) {c : Nat} {id : RunId} {call : EnqueueCall} {j : Job}
    (hcall : q.calls.get? c = some call) (hphase : call.phase = .registered id) (hj : q.jobs.get? id = some j) :
    Handed ((q.apply id ⟨{j with future := .pending}, none, none⟩).setCall c call (.submitted id)) := by
  have hnone : j.future = .unsubmitted := by
    obtain ⟨k, hk, hnone⟩ := h.registered c call id hcall hphase
    cases hj.symm.trans hk
    exact hnone
  have hidle : j.worker = .idle := (h.placed id j hj).idle (by rw [hnone]; decide)
  have hjob : ∀ id', (q.jobs.set id {j with future := .pending}).get? id' =
      if id = id' then some {j with future := .pending} else q.jobs.get? id' := fun id' => Dict.get?_set _ _ _ _
  have hcallGet : ∀ c', (q.calls.set c {call with phase := .submitted id}).get? c' =
      if c = c' then some {call with phase := .submitted id} else q.calls.get? c' := fun c' => Dict.get?_set _ _ _ _
  have hreg : ∀ {c' : Nat} {call' : EnqueueCall} {id' : RunId},
      (q.calls.set c {call with phase := .submitted id}).get? c' = some call' → call'.phase = .registered id' →
        q.calls.get? c' = some call' ∧ id ≠ id' := by
    intro c' call' id' hcall' hphase'
    rw [hcallGet] at hcall'
    split at hcall'
    · cases hcall'
      cases hphase'
    · rename_i hne
      refine ⟨hcall', fun hid => hne ?_⟩
      subst hid
      exact h.single c c' call call' id hcall hphase hcall' hphase'
  refine ⟨?_, ?_, ?_, ?_, ?_⟩
  · have hpending : Job.Placed {j with future := .pending} := by
      refine Job.Placed.of_idle hidle ⟨?_, ?_⟩ <;> intro hfuture <;> cases hfuture
    exact Dict.forall_set h.placed hpending
  · intro c' call' id' hcall' hphase'
    obtain ⟨hbefore, hne⟩ := hreg hcall' hphase'
    obtain ⟨k, hk, hfuture⟩ := h.registered c' call' id' hbefore hphase'
    exact ⟨k, (Dict.get?_set_ne _ _ hne).trans hk, hfuture⟩
  · intro c₁ c₂ call₁ call₂ id' h₁ hphase₁ h₂ hphase₂
    exact h.single c₁ c₂ call₁ call₂ id' (hreg h₁ hphase₁).1 hphase₁ (hreg h₂ hphase₂).1 hphase₂
  · intro c' call' id' hcall' hphase'
    show ∃ k, (q.jobs.set id _).get? id' = some k ∧ _
    rw [hjob]
    change (q.calls.set c _).get? c' = some call' at hcall'
    rw [hcallGet] at hcall'
    split
    · exact ⟨_, rfl, fun hfuture => by cases hfuture⟩
    · rename_i hid
      split at hcall'
      · cases hcall'
        cases hphase'
        exact absurd rfl hid
      · exact h.submitted c' call' id' hcall' hphase'
  · have hpending : j.kept = true → Future.pending ≠ Future.unsubmitted := fun _ => by decide
    exact Dict.forall_set h.kept hpending

theorem signal_placed {j : Job} (h : j.Placed) : (Queue.signal j).Placed := h.same rfl rfl

theorem drain_future (j : Job) :
    (Queue.drain j).future = j.future ∨ (j.future = .pending ∧ (Queue.drain j).future = .cancelled) := by
  simp only [Queue.drain]
  split
  · rename_i hpending
    exact .inr ⟨hpending, rfl⟩
  · exact .inl rfl

theorem drain_unsubmitted (j : Job) : (Queue.drain j).future = .unsubmitted ↔ j.future = .unsubmitted := by
  rcases drain_future j with hsame | ⟨hbefore, hafter⟩
  · rw [hsame]
  · rw [hbefore, hafter]
    exact ⟨nofun, nofun⟩

theorem handed_step (h : Handed q) (hstep : (queue fn cfg).step e q = some u) : Handed u := by
  cases Queue.step_some hstep with
  | closed | full | check | refuse => exact h.setCall nofun nofun
  | register _ _ hfresh _ => exact handed_register h hfresh
  | submit hcall hphase _ hj => exact handed_submit h hcall hphase hj
  | @keep c id call j hcall hphase hj =>
    have hsome : j.future ≠ .unsubmitted := by
      obtain ⟨k, hk, hsome⟩ := h.submitted c call id hcall hphase
      cases hj.symm.trans hk
      exact hsome
    have hplaced : Job.Placed {j with kept := true} := (h.placed id j hj).same rfl rfl
    have hjob : Handed (q.apply id ⟨{j with kept := true}, none, none⟩) :=
      h.setJob hj hplaced Iff.rfl (fun _ => hsome) rfl rfl
    exact hjob.setCall nofun nofun
  | @job id _ j effect hj heffect =>
    have hplaced := h.placed id j hj
    have hfuture := unsubmitted_step hplaced heffect
    refine h.setJob hj (placed_step hplaced heffect) hfuture (fun hk hnone => ?_) rfl rfl
    rw [step_kept heffect] at hk
    exact h.kept id j hj hk (hfuture.mp hnone)
  | shutdown => exact h.mapJobs Queue.signal (fun _ => signal_placed) (fun _ => Iff.rfl) (fun _ => rfl) rfl rfl
  | shutdownExecutor =>
    exact h.mapJobs Queue.drain (fun j hplaced => hplaced.cancelled rfl (drain_future j)) drain_unsubmitted
      (fun _ => rfl) rfl rfl

end Queue

end SynQc.Jobs
