import SynQc.Jobs.Futures

/-! Submissions that are refused.

`enqueue` raises in one of two places. Its first section refuses while the queue shuts down
or is full; nothing has happened then, so the run without the call is the same run
(`refused_without_trace`). The other place is the thread pool, which raises once it is shut
down; by then the record is in the table, and nothing takes it out again. -/
namespace SynQc.Jobs

/-- The call of `enqueue` a step belongs to. -/
def Event.call? {ι : Type} : Event ι → Option Nat
  | .enqueue c _ _ => some c
  | .register c _ _ => some c
  | .submit c => some c
  | .keep c => some c
  | _ => none

/-- The steps of a run that are not the call's. -/
def without {ι : Type} (c : Nat) (es : List (Event ι)) : List (Event ι) := es.filter fun e => e.call? ≠ some c

/-- The call has raised. -/
def Raised (c : Nat) (q : Queue) : Prop := ∃ call message, q.calls.get? c = some call ∧ call.phase = .raised message

/-- Two queues that differ in what they know of one call. -/
structure Twin (c : Nat) (q q' : Queue) : Prop where
  jobs : q'.jobs = q.jobs
  failureCounts : q'.failureCounts = q.failureCounts
  shutdown : q'.shutdown = q.shutdown
  executorDown : q'.executorDown = q.executorDown
  store : q'.store = q.store
  written : q'.written = q.written
  calls : ∀ c', c' ≠ c → q'.calls.get? c' = q.calls.get? c'

theorem Twin.refl (c : Nat) (q : Queue) : Twin c q q := ⟨rfl, rfl, rfl, rfl, rfl, rfl, fun _ _ => rfl⟩

/-- Twins have the same jobs and report the same counts. -/
theorem Twin.stats {c : Nat} {q q' : Queue} (h : Twin c q q') (cfg : Config) (now : Time) :
    q'.stats cfg now = q.stats cfg now := by
  simp only [Queue.stats, Queue.withStatus, Queue.oldestQueuedAge, h.jobs, h.failureCounts]

theorem Twin.active {c : Nat} {q q' : Queue} (h : Twin c q q') : q'.active = q.active := by
  simp only [Queue.active, Queue.withStatus, h.jobs]

section Steps
variable {ι : Type} {fn : WorkerFn ι} {cfg : Config} {e : Event ι} {q q' u : Queue} {c : Nat}

/-- Giving another call a phase. -/
theorem Twin.setCall (h : Twin c q q') (c' : Nat) (call : EnqueueCall) (phase : EnqueuePhase) :
    Twin c (q.setCall c' call phase) (q'.setCall c' call phase) := by
  refine ⟨h.jobs, h.failureCounts, h.shutdown, h.executorDown, h.store, h.written, ?_⟩
  intro c'' hne
  show (q'.calls.set c' _).get? c'' = (q.calls.set c' _).get? c''
  rw [Dict.get?_set, Dict.get?_set, h.calls c'' hne]

theorem Twin.apply (h : Twin c q q') (id : RunId) (effect : Effect) : Twin c (q.apply id effect) (q'.apply id effect) where
  jobs := congrArg (fun jobs => jobs.set id effect.job) h.jobs
  failureCounts := congrArg (fun counts => Queue.count counts effect.counted) h.failureCounts
  shutdown := h.shutdown
  executorDown := h.executorDown
  store := by
    rw [Queue.apply, Queue.apply, h.store]
  written := by
    rw [Queue.apply, Queue.apply, h.written]
  calls := h.calls

/-- A step of anything else goes the same way in both. -/
theorem Twin.step (h : Twin c q q') (hother : e.call? ≠ some c) (hstep : (queue fn cfg).step e q = some u) :
    ∃ u', (queue fn cfg).step e q' = some u' ∧ Twin c u u' := by
  have hne : ∀ {c' : Nat}, some c' ≠ some c → q'.calls.get? c' = q.calls.get? c' := fun hc' =>
    h.calls _ fun heq => hc' (congrArg some heq)
  cases Queue.step_some hstep with
  | closed hnew hdown =>
    exact ⟨_, (Queue.Step.closed ((hne hother).trans hnew) (h.shutdown.trans hdown)).run, h.setCall _ _ _⟩
  | full hnew hopen hfull =>
    have hfull' : cfg.maxPending ≤ q'.active := h.active.symm ▸ hfull
    exact ⟨_, (Queue.Step.full ((hne hother).trans hnew) (h.shutdown.trans hopen) hfull').run, h.setCall _ _ _⟩
  | check hnew hopen hroom =>
    have hroom' : q'.active < cfg.maxPending := h.active.symm ▸ hroom
    exact ⟨_, (Queue.Step.check ((hne hother).trans hnew) (h.shutdown.trans hopen) hroom').run, h.setCall _ _ _⟩
  | @register c' id now call hcall hphase hfresh hunknown =>
    refine ⟨_, (Queue.Step.register ((hne hother).trans hcall) hphase (h.jobs ▸ hfresh) (h.store ▸ hunknown)).run, ?_⟩
    have hset : Twin c {q with jobs := q.jobs.set id (Queue.newJob id call now)}
        {q' with jobs := q'.jobs.set id (Queue.newJob id call now)} :=
      ⟨congrArg (fun jobs => jobs.set id (Queue.newJob id call now)) h.jobs, h.failureCounts, h.shutdown, h.executorDown,
        h.store, h.written, h.calls⟩
    exact hset.setCall _ _ _
  | refuse hcall hphase hdown =>
    exact ⟨_, (Queue.Step.refuse ((hne hother).trans hcall) hphase (h.executorDown.trans hdown)).run, h.setCall _ _ _⟩
  | submit hcall hphase hup hjob =>
    exact ⟨_, (Queue.Step.submit ((hne hother).trans hcall) hphase (h.executorDown.trans hup) (h.jobs ▸ hjob)).run,
      (h.apply _ _).setCall _ _ _⟩
  | keep hcall hphase hjob =>
    exact ⟨_, (Queue.Step.keep ((hne hother).trans hcall) hphase (h.jobs ▸ hjob)).run, (h.apply _ _).setCall _ _ _⟩
  | job hjob heffect => exact ⟨_, (Queue.Step.job (h.jobs ▸ hjob) heffect).run, h.apply _ _⟩
  | shutdown =>
    exact ⟨_, Queue.Step.shutdown.run, congrArg (fun jobs => jobs.mapValues Queue.signal) h.jobs, h.failureCounts, rfl,
      h.executorDown, h.store, h.written, h.calls⟩
  | shutdownExecutor hdown =>
    exact ⟨_, (Queue.Step.shutdownExecutor (h.shutdown.trans hdown)).run,
      congrArg (fun jobs => jobs.mapValues Queue.drain) h.jobs, h.failureCounts, h.shutdown, rfl, h.store, h.written,
      h.calls⟩

/-! ### Calls that come to the pool in time -/

/-- No call hands its job to a pool that is shut down. -/
def submitsInTime : Event ι → Queue → Prop
  | .submit _, q => q.executorDown = false
  | _, _ => True

/-- The call has passed its first section without being refused. -/
def Admitted (c : Nat) (q : Queue) : Prop :=
  ∃ call, q.calls.get? c = some call ∧ ∀ message, call.phase ≠ .raised message

theorem not_raised_of_admitted (h : Admitted c q) : ¬Raised c q := by
  rintro ⟨call, message, hcall, hraised⟩
  obtain ⟨call', hcall', hnot⟩ := h
  cases hcall.symm.trans hcall'
  exact hnot message hraised

/-- A call that was admitted is not refused afterwards. -/
theorem admitted_step (h : Admitted c q) (hrule : submitsInTime e q) (hstep : (queue fn cfg).step e q = some u) :
    Admitted c u := by
  obtain ⟨call, hcall, hnot⟩ := h
  have hset : ∀ {q : Queue} {c' : Nat} {call' : EnqueueCall} {phase : EnqueuePhase}, q.calls.get? c = some call →
      (∀ message, phase ≠ .raised message) → Admitted c (q.setCall c' call' phase) := by
    intro q c' call' phase hcall hphase
    by_cases hsame : c' = c
    · subst hsame
      exact ⟨_, Dict.get?_set_self _ _ _, hphase⟩
    · exact ⟨call, (Dict.get?_set_ne _ _ hsame).trans hcall, hnot⟩
  have hkeep : ∀ {c' : Nat} {call' : EnqueueCall} {phase : EnqueuePhase}, q.calls.get? c' = none →
      Admitted c (q.setCall c' call' phase) := by
    intro c' call' phase hnew
    have hne : c' ≠ c := by
      intro heq
      rw [heq, hcall] at hnew
      cases hnew
    exact ⟨call, (Dict.get?_set_ne _ _ hne).trans hcall, hnot⟩
  cases Queue.step_some hstep with
  | closed hnew _ | full hnew _ _ | check hnew _ _ => exact hkeep hnew
  | refuse _ _ hdown => exact absurd (hdown.symm.trans hrule) nofun
  | register | submit | keep => exact hset hcall nofun
  | job | shutdown | shutdownExecutor => exact ⟨call, hcall, hnot⟩

theorem admitted_trace {es : List (Event ι)} (h : Admitted c q) (htrace : (queue fn cfg).Trace submitsInTime q es u) :
    Admitted c u := by
  induction htrace with
  | nil => exact h
  | cons rule step _ ih => exact ih (admitted_step h rule step)

/-- What a call does first: it is refused and nothing else happens, or it is admitted. -/
theorem first_step (hnew : q.calls.get? c = none) (hown : e.call? = some c) (hstep : (queue fn cfg).step e q = some u) :
    (Twin c q u ∧ Raised c u) ∨ Admitted c u := by
  have hrefused : ∀ (call : EnqueueCall) (message : String),
      Twin c q (q.setCall c call (.raised message)) ∧ Raised c (q.setCall c call (.raised message)) := by
    intro call message
    refine ⟨⟨rfl, rfl, rfl, rfl, rfl, rfl, fun c' hne => ?_⟩, _, message, Dict.get?_set_self _ _ _, rfl⟩
    exact Dict.get?_set_ne _ _ (Ne.symm hne)
  cases Queue.step_some hstep with
  | closed | full =>
    cases hown
    exact .inl (hrefused _ _)
  | check =>
    cases hown
    exact .inr ⟨_, Dict.get?_set_self _ _ _, nofun⟩
  | register hcall | refuse hcall | submit hcall | keep hcall =>
    cases hown
    exact absurd (hnew.symm.trans hcall) nofun
  | job | shutdown | shutdownExecutor => cases hown

/-- A call that has raised does nothing more. -/
theorem raised_over (h : Raised c q) (hown : e.call? = some c) (hstep : (queue fn cfg).step e q = some u) : False := by
  obtain ⟨call, message, hcall, hraised⟩ := h
  have hphase : ∀ {call' : EnqueueCall} {phase : EnqueuePhase}, q.calls.get? c = some call' → call'.phase = phase →
      phase = .raised message := by
    intro call' phase hcall' hphase
    cases hcall.symm.trans hcall'
    exact hphase.symm.trans hraised
  cases Queue.step_some hstep with
  | closed hnew _ | full hnew _ _ | check hnew _ _ =>
    cases hown
    exact absurd (hcall.symm.trans hnew) nofun
  | register hcall' hphase' _ _ | refuse hcall' hphase' _ | submit hcall' hphase' _ _ | keep hcall' hphase' _ =>
    cases hown
    exact absurd (hphase hcall' hphase') nofun
  | job | shutdown | shutdownExecutor => cases hown

theorem Twin.trans {q₁ q₂ q₃ : Queue} (h : Twin c q₁ q₂) (h' : Twin c q₂ q₃) : Twin c q₁ q₃ :=
  ⟨h'.jobs.trans h.jobs, h'.failureCounts.trans h.failureCounts, h'.shutdown.trans h.shutdown,
    h'.executorDown.trans h.executorDown, h'.store.trans h.store, h'.written.trans h.written,
    fun c' hne => (h'.calls c' hne).trans (h.calls c' hne)⟩

theorem Twin.symm (h : Twin c q q') : Twin c q' q :=
  ⟨h.jobs.symm, h.failureCounts.symm, h.shutdown.symm, h.executorDown.symm, h.store.symm, h.written.symm,
    fun c' hne => (h.calls c' hne).symm⟩

/-- Only its own steps change what the queue knows of a call. -/
theorem calls_other (hother : e.call? ≠ some c) (hstep : (queue fn cfg).step e q = some u) :
    u.calls.get? c = q.calls.get? c := by
  have hset : ∀ {q : Queue} {c' : Nat} {call : EnqueueCall} {phase : EnqueuePhase}, some c' ≠ some c →
      (q.setCall c' call phase).calls.get? c = q.calls.get? c := fun hne =>
    Dict.get?_set_ne _ _ fun heq => hne (congrArg some heq)
  cases Queue.step_some hstep with
  | closed | full | check | register | refuse | submit | keep => exact hset hother
  | job | shutdown | shutdownExecutor => rfl

/-- The run without a call that is refused goes as the run with it does. -/
theorem twin_trace {es : List (Event ι)} (hcall : q.calls.get? c = none ∨ Raised c q) (h : Twin c q q')
    (htrace : (queue fn cfg).Trace submitsInTime q es u) (hraised : Raised c u) :
    ∃ u', (queue fn cfg).run q' (without c es) = some u' ∧ Twin c u u' := by
  induction htrace generalizing q' with
  | nil => exact ⟨q', rfl, h⟩
  | @cons e s t u es rule step rest ih =>
    by_cases hown : e.call? = some c
    · have hskip : without c (e :: es) = without c es := List.filter_cons_of_neg (by simp [hown])
      rw [hskip]
      rcases hcall with hnew | hover
      · rcases first_step hnew hown step with ⟨htwin, hrefused⟩ | hadmitted
        · exact ih (.inr hrefused) (htwin.symm.trans h) hraised
        · exact absurd hraised (not_raised_of_admitted (admitted_trace hadmitted rest))
      · exact absurd (raised_over hover hown step) id
    · have hkeep : without c (e :: es) = e :: without c es := List.filter_cons_of_pos (by simp [hown])
      obtain ⟨t', hstep', htwin⟩ := h.step hown step
      have hsame := calls_other hown step
      have hcall' : t.calls.get? c = none ∨ Raised c t := by
        unfold Raised at hcall ⊢
        rw [hsame]
        exact hcall
      obtain ⟨u', hrun, hu⟩ := ih hcall' htwin hraised
      refine ⟨u', ?_, hu⟩
      rw [hkeep, Transition.System.run, hstep']
      exact hrun

/-! ### Records and their futures -/

/-- A record that has no future yet belongs to a call that is on its way to the pool. -/
def Owned (q : Queue) : Prop :=
  ∀ id j, q.jobs.get? id = some j → j.future = .unsubmitted →
    ∃ c call, q.calls.get? c = some call ∧ call.phase = .registered id

theorem Owned.of_calls (h : Owned q) (hcalls : ∀ c call id, q.calls.get? c = some call → call.phase = .registered id →
      u.calls.get? c = some call)
    (hjobs : ∀ id j, u.jobs.get? id = some j → j.future = .unsubmitted →
      ∃ j', q.jobs.get? id = some j' ∧ j'.future = .unsubmitted) : Owned u := by
  intro id j hj hfuture
  obtain ⟨j', hj', hfuture'⟩ := hjobs id j hj hfuture
  obtain ⟨c, call, hcall, hphase⟩ := h id j' hj' hfuture'
  exact ⟨c, call, hcalls c call id hcall hphase, hphase⟩

theorem owned_step (hq : Handed q) (h : Owned q) (hrule : submitsInTime e q)
    (hstep : (queue fn cfg).step e q = some u) : Owned u := by
  -- a call that was not there, or was past the pool, owned no record
  have hset : ∀ {q : Queue} {c : Nat} {call : EnqueueCall} {phase : EnqueuePhase},
      (∀ call' id, q.calls.get? c = some call' → call'.phase ≠ .registered id) →
      ∀ c' call' id, q.calls.get? c' = some call' → call'.phase = .registered id →
        (q.setCall c call phase).calls.get? c' = some call' := by
    intro q c call phase hnone c' call' id hcall' hphase'
    have hne : c ≠ c' := by
      intro heq
      exact hnone call' id (heq ▸ hcall') hphase'
    exact (Dict.get?_set_ne _ _ hne).trans hcall'
  cases Queue.step_some hstep with
  | closed hnew _ | full hnew _ _ | check hnew _ _ =>
    refine h.of_calls (hset fun call' id hcall' => ?_) fun id j hj hfuture => ⟨j, hj, hfuture⟩
    cases hnew.symm.trans hcall'
  | @register c id now call hcall hphase hfresh _ =>
    intro id' j hj hfuture
    change (q.jobs.set id _).get? id' = some j at hj
    rw [Dict.get?_set] at hj
    split at hj
    · rename_i hid
      subst hid
      exact ⟨c, _, Dict.get?_set_self _ _ _, rfl⟩
    · obtain ⟨c', call', hcall', hphase'⟩ := h id' j hj hfuture
      have hne : c ≠ c' := by
        intro heq
        cases hcall.symm.trans (heq ▸ hcall')
        cases hphase.symm.trans hphase'
      exact ⟨c', call', (Dict.get?_set_ne _ _ hne).trans hcall', hphase'⟩
  | refuse _ _ hdown => cases hdown.symm.trans hrule
  | @submit c id call j hcall hphase _ hjob =>
    intro id' j' hj' hfuture
    change (q.jobs.set id _).get? id' = some j' at hj'
    rw [Dict.get?_set] at hj'
    split at hj'
    · cases hj'
      cases hfuture
    · rename_i hid
      obtain ⟨c', call', hcall', hphase'⟩ := h id' j' hj' hfuture
      have hne : c ≠ c' := by
        intro heq
        cases hcall.symm.trans (heq ▸ hcall')
        exact hid (EnqueuePhase.registered.inj (hphase.symm.trans hphase'))
      exact ⟨c', call', (Dict.get?_set_ne _ _ hne).trans hcall', hphase'⟩
  | @keep c id call j hcall hphase hjob =>
    refine h.of_calls (hset fun call' id' hcall' hphase' => ?_) (Dict.exists_of_set hjob fun hfuture => hfuture)
    cases hcall.symm.trans hcall'
    cases hphase.symm.trans hphase'
  | @job id _ j effect hjob heffect =>
    have hback := (unsubmitted_step (hq.placed id j hjob) heffect).mp
    exact h.of_calls (fun _ _ _ hcall _ => hcall) (Dict.exists_of_set hjob hback)
  | shutdown =>
    have hback : ∀ j : Job, (Queue.signal j).future = .unsubmitted → j.future = .unsubmitted := fun _ hfuture => hfuture
    exact h.of_calls (fun _ _ _ hcall _ => hcall) (Dict.exists_of_mapValues hback)
  | shutdownExecutor =>
    exact h.of_calls (fun _ _ _ hcall _ => hcall) (Dict.exists_of_mapValues fun j => (drain_unsubmitted j).mp)

/-- A call that the pool refuses always leaves its record behind, without a future. -/
theorem not_owned_of_refused (hq : Handed q) (hdown : q.executorDown = true)
    (hstep : (queue fn cfg).step (.submit c) q = some u) : ¬Owned u := by
  intro howned
  cases Queue.step_some hstep with
  | submit _ _ hup _ => exact absurd (hdown.symm.trans hup) nofun
  | @refuse _ id call hcall hphase _ =>
    obtain ⟨j, hj, hnone⟩ := hq.registered c call id hcall hphase
    obtain ⟨c', call', hcall', hphase'⟩ := howned id j hj hnone
    change (q.calls.set c _).get? c' = some call' at hcall'
    rw [Dict.get?_set] at hcall'
    split at hcall'
    · cases hcall'
      cases hphase'
    · rename_i hne
      exact hne (hq.single c c' call call' id hcall hphase hcall' hphase')

theorem owned_trace {es : List (Event ι)} (hq : Handed q) (h : Owned q)
    (htrace : (queue fn cfg).Trace submitsInTime q es u) : Owned u := by
  induction htrace with
  | nil => exact h
  | cons rule step _ ih => exact ih (handed_step hq step) (owned_step hq h rule step)

/-- What a refused submission should leave: the run without it ends with the same jobs and the
same counts. -/
def LeavesNoTrace (fn : WorkerFn ι) (cfg : Config) (c : Nat) (q₀ : Queue) (es : List (Event ι)) (q : Queue) : Prop :=
  ∃ q', (queue fn cfg).run q₀ (without c es) = some q' ∧ q'.jobs = q.jobs ∧
    ∀ now, q'.stats cfg now = q.stats cfg now

/-- **While no call comes to the pool after it was shut down, a refused submission leaves no
trace, and every record without a future belongs to a call that is still on its way.** -/
theorem refused_without_trace {es : List (Event ι)} {q₀ : Queue} (hinit : (queue fn cfg).init q₀)
    (htrace : (queue fn cfg).Trace submitsInTime q₀ es q) :
    (∀ c, Raised c q → LeavesNoTrace fn cfg c q₀ es q) ∧ Owned q := by
  constructor
  · intro c hraised
    have hnew : q₀.calls.get? c = none := by
      rw [hinit.2.2.1]
      rfl
    obtain ⟨q', hrun, htwin⟩ := twin_trace (.inl hnew) (Twin.refl c q₀) htrace hraised
    exact ⟨q', hrun, htwin.jobs, htwin.stats cfg⟩
  · refine owned_trace (handed_init hinit) ?_ htrace
    intro id j hj
    rw [hinit.1, Dict.get?_empty] at hj
    cases hj

end Steps

/-! ### A call that loses against shutdown -/

/-- The pool is shut down between the insertion of the record and the hand-over. -/
def lostRace : List (Event Unit) :=
  [.enqueue 0 simRequest 7, .register 0 1 0, .shutdown, .shutdownExecutor, .submit 0]

theorem refused_leaves_record :
    ¬∀ (fn : WorkerFn Unit) (cfg : Config) (q₀ q : Queue) (es : List (Event Unit)), (queue fn cfg).init q₀ →
      (queue fn cfg).run q₀ es = some q → (∀ c, Raised c q → LeavesNoTrace fn cfg c q₀ es q) ∧ Owned q := by
  intro hclaim
  have hrun : ((queue idleWorker {}).run emptyQueue lostRace).map (fun q => q.jobs.size) = some 1 := by decide +kernel
  obtain ⟨q, hq, hone⟩ := Option.map_eq_some_iff.mp hrun
  have hraised : Raised 0 q := by
    have hphase : ((queue idleWorker {}).run emptyQueue lostRace).map (fun q => (q.calls.get? 0).map EnqueueCall.phase) =
        some (some (.raised "cannot schedule new futures after shutdown")) := by rfl
    rw [hq, Option.map_some, Option.some.injEq] at hphase
    obtain ⟨call, hcall, hraised⟩ := Option.map_eq_some_iff.mp hphase
    exact ⟨call, _, hcall, hraised⟩
  obtain ⟨q', hq', hjobs, _⟩ := (hclaim idleWorker {} emptyQueue q lostRace ⟨rfl, rfl, rfl, rfl, rfl, rfl⟩ hq).1 0 hraised
  have hempty : ((queue idleWorker {}).run emptyQueue (without 0 lostRace)).map (fun q => q.jobs.size) = some 0 := by
    decide +kernel
  rw [hq', Option.map_some, hjobs, hone] at hempty
  cases hempty

/-- With room for one job, a call is refused while another's job is on its way to the pool; that job is
submitted and kept, and the queue is told to shut down after it. -/
def refusedRun : List (Event Unit) :=
  [.enqueue 1 simRequest 7, .register 1 1 0, .enqueue 0 simRequest 7, .submit 1, .keep 1, .shutdown]

def submitsInTimeTest : Event Unit → Queue → Bool
  | .submit _, q => !q.executorDown
  | _, _ => true

/-- What the queue knows of a call that has raised. -/
def EnqueuePhase.message? : EnqueuePhase → Option String
  | .raised message => some message
  | _ => none

theorem EnqueuePhase.message?_eq_some {phase : EnqueuePhase} {message : String} (h : phase.message? = some message) :
    phase = .raised message := by
  cases phase <;> cases h
  rfl

theorem refused_without_trace_run :
    ∃ q : Queue, (queue idleWorker { maxPending := 1 }).walk submitsInTimeTest emptyQueue refusedRun = some q ∧
      (q.jobs.get? 1).map Job.future = some .pending ∧ Raised 0 q ∧
        LeavesNoTrace idleWorker { maxPending := 1 } 0 emptyQueue refusedRun q ∧ Owned q := by
  have hrun : ((queue idleWorker { maxPending := 1 }).walk submitsInTimeTest emptyQueue refusedRun).map (fun q =>
      ((q.jobs.get? 1).map Job.future, (q.calls.get? 0).map fun call => call.phase.message?)) =
        some (some .pending, some (some "Queue is full; try again later")) := by decide +kernel
  obtain ⟨q, hq, hseen⟩ := Option.map_eq_some_iff.mp hrun
  obtain ⟨hpending, hcalls⟩ := Prod.mk.inj hseen
  obtain ⟨call, hcall, hmessage⟩ := Option.map_eq_some_iff.mp hcalls
  have hraised : Raised 0 q := ⟨call, _, hcall, EnqueuePhase.message?_eq_some hmessage⟩
  have hrule : ∀ e ∈ refusedRun, ∀ s, submitsInTimeTest e s = true → submitsInTime e s := by
    intro e _ s htest
    cases e with
    | submit c => exact Bool.not_eq_true' _ |>.mp htest
    | _ => trivial
  obtain ⟨hrefused, howned⟩ :=
    refused_without_trace ⟨rfl, rfl, rfl, rfl, rfl, rfl⟩ (Transition.System.walk_trace hrule hq)
  exact ⟨q, hq, hpending, hraised, hrefused 0 hraised, howned⟩

end SynQc.Jobs
