import SynQc.Jobs.Queue

/-! The capacity of the queue under concurrent submissions.

`enqueue` counts the jobs that wait or run in one section of the lock and inserts its record
in a later one. Every call that finds room inserts, whatever was inserted in between, so two
calls can share the last place (`capacity_exceeded`). With callers that take turns the room a
call has found is still there when it inserts, and the bound holds (`capacity_taking_turns`).
Threads, timeouts and cancels only lower the count. -/
namespace SynQc.Jobs

/-! ### The count -/

/-- What a job adds to the count. -/
def activeWeight (j : Job) : Nat := statusWeight .queued j + statusWeight .running j

theorem active_eq_total (q : Queue) : q.active = q.jobs.total fun _ j => activeWeight j :=
  (Dict.total_add q.jobs (fun _ j => statusWeight .queued j) fun _ j => statusWeight .running j).symm

theorem activeWeight_of_status {j j' : Job} (h : j'.record.status = j.record.status) :
    activeWeight j' = activeWeight j := by
  simp only [activeWeight, statusWeight, h]

theorem activeWeight_queued {j : Job} (h : j.record.status = .queued) : activeWeight j = 1 := by
  simp [activeWeight, statusWeight, h]

/-- No move of a job makes it count more. -/
theorem Job.Move.activeWeight_le {j : Job} {effect : Effect} (h : j.Move effect) :
    activeWeight effect.job ≤ activeWeight j := by
  cases h with
  | still verdict _ _ => exact (activeWeight_of_status (verdict_status verdict).1).le
  | enter source target _ _ => simp [activeWeight, Jobs.statusWeight, source, target]
  | succeed source target _ _ => simp [activeWeight, Jobs.statusWeight, source, target]
  | fail f now source record _ _ => simp [activeWeight, Jobs.statusWeight, record, JobRecord.fail]

section Queue
variable {ι : Type} {fn : WorkerFn ι} {cfg : Config} {e : Event ι} {q u : Queue}

/-- Inserting a record raises the count by one. -/
theorem active_register {c : Nat} {id : RunId} {now : Time}
    (h : (queue fn cfg).step (.register c id now) q = some u) : u.active = q.active + 1 := by
  cases Queue.step_some h with
  | @register _ _ _ call _ _ hfresh _ =>
    rw [active_eq_total, active_eq_total]
    show (q.jobs.set id (Queue.newJob id call now)).total (fun _ j => activeWeight j) = _
    rw [Dict.total_set_none hfresh, activeWeight_queued rfl]

/-- A step that inserts none does not raise it. -/
theorem active_le_of_step (hq : Counted q) (h : (queue fn cfg).step e q = some u)
    (hnot : ∀ c id now, e ≠ .register c id now) : u.active ≤ q.active := by
  have hquiet : ∀ j j', Quiet j j' → activeWeight j' = activeWeight j :=
    fun _ _ hquiet => activeWeight_of_status (congrArg JobRecord.status hquiet.record)
  rw [active_eq_total, active_eq_total]
  rcases jobs_total_step hquiet h with ⟨c, id, now, _, heq, _⟩ | ⟨id, _, j, effect, _, hj, heffect, _, htotal⟩ |
      ⟨_, _, htotal⟩
  · exact absurd heq (hnot c id now)
  · have hle := (Job.step_move (hq.ok id j hj) heffect).activeWeight_le
    omega
  · exact htotal.le

/-! ### The bound -/

/-- A record is inserted only while there is room for it. -/
def insertsWithRoom (cfg : Config) : Event ι → Queue → Prop
  | .register _ _ _, q => q.active < cfg.maxPending
  | _, _ => True

/-- An insertion keeps the bound exactly when there is room for it. -/
theorem register_within_iff {c : Nat} {id : RunId} {now : Time}
    (h : (queue fn cfg).step (.register c id now) q = some u) :
    u.active ≤ cfg.maxPending ↔ insertsWithRoom cfg (.register (ι := ι) c id now) q := by
  rw [active_register h]
  exact Iff.rfl

theorem active_within_step (hq : Counted q) (hle : q.active ≤ cfg.maxPending) (hroom : insertsWithRoom cfg e q)
    (h : (queue fn cfg).step e q = some u) : u.active ≤ cfg.maxPending := by
  by_cases hregister : ∃ c id now, e = .register c id now
  · obtain ⟨c, id, now, rfl⟩ := hregister
    exact (register_within_iff h).mpr hroom
  · have hstep := active_le_of_step hq h fun c id now heq => hregister ⟨c, id, now, heq⟩
    exact hstep.trans hle

theorem active_init (h : (queue fn cfg).init q) : q.active ≤ cfg.maxPending := by
  rw [active_eq_total, h.1]
  exact Nat.zero_le cfg.maxPending

/-! ### Callers that take turns -/

/-- A call begins only while no other is between its check and its insertion. -/
def takesTurns : Event ι → Queue → Prop
  | .enqueue _ _ _, q => ∀ c call, q.calls.get? c = some call → call.phase ≠ .checked
  | _, _ => True

/-- The call between its check and its insertion, if there is one, still has its room. -/
def HasTurn (cfg : Config) (q : Queue) : Prop :=
  ∀ c call, q.calls.get? c = some call → call.phase = .checked →
    q.active < cfg.maxPending ∧ ∀ c' call', q.calls.get? c' = some call' → call'.phase = .checked → c' = c

/-- A step that gives no call the phase `checked` and does not raise the count. -/
theorem HasTurn.of_le (h : HasTurn cfg q) (hle : u.active ≤ q.active)
    (hcalls : ∀ c call, u.calls.get? c = some call → call.phase = .checked → q.calls.get? c = some call) :
    HasTurn cfg u := by
  intro c call hcall hphase
  obtain ⟨hroom, honly⟩ := h c call (hcalls c call hcall hphase) hphase
  refine ⟨lt_of_le_of_lt hle hroom, ?_⟩
  intro c' call' hcall' hphase'
  exact honly c' call' (hcalls c' call' hcall' hphase') hphase'

theorem checked_setCall {c c' : Nat} {call call' : EnqueueCall} {phase : EnqueuePhase} (hne : phase ≠ .checked)
    (h : (q.setCall c call phase).calls.get? c' = some call') (hphase : call'.phase = .checked) :
    c ≠ c' ∧ q.calls.get? c' = some call' := by
  change (q.calls.set c {call with phase := phase}).get? c' = some call' at h
  rw [Dict.get?_set] at h
  split at h
  · cases h
    exact absurd hphase hne
  · rename_i hother
    exact ⟨hother, h⟩

theorem hasTurn_step (hq : Counted q) (h : HasTurn cfg q) (hturn : takesTurns e q)
    (hstep : (queue fn cfg).step e q = some u) : HasTurn cfg u := by
  cases Queue.step_some hstep with
  | closed | full | refuse =>
    exact h.of_le (Nat.le_refl _) fun c call hcall hphase =>
      (checked_setCall (fun heq => by cases heq) hcall hphase).2
  | @check c request session _ _ hroom =>
    have honly : ∀ c' call', (q.setCall c ⟨request, session, .checked⟩ .checked).calls.get? c' = some call' →
        call'.phase = .checked → c' = c := by
      intro c' call' hcall hphase
      change (q.calls.set c _).get? c' = some call' at hcall
      rw [Dict.get?_set] at hcall
      split at hcall
      · rename_i hsame
        exact hsame.symm
      · exact absurd hphase (hturn c' call' hcall)
    intro c' call' hcall hphase
    refine ⟨hroom, fun c'' call'' hcall' hphase' => ?_⟩
    rw [honly c' call' hcall hphase, honly c'' call'' hcall' hphase']
  | @register c id now call hcall hphase _ _ =>
    intro c' call' hcall' hphase'
    obtain ⟨hother, hbefore⟩ := checked_setCall (fun heq => by cases heq) hcall' hphase'
    exact absurd ((h c call hcall hphase).2 c' call' hbefore hphase').symm hother
  | submit | keep =>
    exact h.of_le (active_le_of_step hq hstep fun _ _ _ heq => by cases heq) fun c call hcall hphase =>
      (checked_setCall (fun heq => by cases heq) hcall hphase).2
  | job | shutdown | shutdownExecutor =>
    exact h.of_le (active_le_of_step hq hstep fun _ _ _ heq => by cases heq) fun c call hcall _ => hcall

theorem HasTurn.withRoom (h : HasTurn cfg q) (hstep : (queue fn cfg).step e q = some u) : insertsWithRoom cfg e q := by
  cases Queue.step_some hstep with
  | register hcall hphase _ _ => exact (h _ _ hcall hphase).1
  | _ => trivial

/-- **With callers that take turns between check and insertion, no more than `max_pending` jobs wait or run,
along every interleaving** with the threads, timeouts and cancels. -/
theorem capacity_taking_turns (h : (queue fn cfg).Reachable takesTurns q) : q.active ≤ cfg.maxPending := by
  suffices hall : Counted q ∧ HasTurn cfg q ∧ q.active ≤ cfg.maxPending from hall.2.2
  refine Transition.System.reachable_invariant
    (I := fun q => Counted q ∧ HasTurn cfg q ∧ q.active ≤ cfg.maxPending) ?_ ?_ h
  · intro q hinit
    refine ⟨counted_init hinit, ?_, active_init hinit⟩
    intro c call hcall _
    rw [hinit.2.2.1, Dict.get?_empty] at hcall
    cases hcall
  · intro e q u ⟨hq, hturn, hle⟩ hrule hstep
    exact ⟨counted_change hq (step_change hq.ok hstep), hasTurn_step hq hturn hrule hstep,
      active_within_step hq hle (hturn.withRoom hstep) hstep⟩

end Queue

/-! ### Two callers at once -/

/-- Two calls find the one free place, and both insert. -/
def bothInsert : List (Event Unit) :=
  [.enqueue 0 simRequest 7, .enqueue 1 simRequest 8, .register 0 1 0, .register 1 2 0]

theorem capacity_exceeded :
    ¬∀ (fn : WorkerFn Unit) (cfg : Config) (q : Queue), (queue fn cfg).Reachable Transition.anything q →
      q.active ≤ cfg.maxPending := by
  intro hclaim
  have hrun : ((queue idleWorker { maxPending := 1 }).run emptyQueue bothInsert).map Queue.active = some 2 := by
    decide +kernel
  obtain ⟨q, hq, htwo⟩ := Option.map_eq_some_iff.mp hrun
  have hle := hclaim idleWorker { maxPending := 1 } q
    (Transition.System.run_reachable ⟨rfl, rfl, rfl, rfl, rfl, rfl⟩ hq)
  rw [htwo] at hle
  cases Nat.le_of_succ_le_succ hle

/-- The first call inserts before the second begins, which finds no place and is refused. -/
def inTurn : List (Event Unit) := [.enqueue 0 simRequest 7, .register 0 1 0, .enqueue 1 simRequest 8, .submit 0]

def EnqueuePhase.isChecked : EnqueuePhase → Bool
  | .checked => true
  | _ => false

def takesTurnsTest : Event Unit → Queue → Bool
  | .enqueue _ _ _, q => q.calls.values.all fun call => !call.phase.isChecked
  | _, _ => true

theorem takesTurns_of_test (e : Event Unit) (q : Queue) (h : takesTurnsTest e q = true) : takesTurns e q := by
  cases e with
  | enqueue c request session =>
    intro c' call hcall hphase
    have hmem : call ∈ q.calls.values := List.mem_map_of_mem (f := Prod.snd) (Dict.mem_entries.mpr hcall)
    have hfree := List.all_eq_true.mp h call hmem
    rw [hphase] at hfree
    cases hfree
  | _ => trivial

theorem capacity_inTurn : ∃ q : Queue, (queue idleWorker { maxPending := 1 }).walk takesTurnsTest emptyQueue inTurn =
    some q ∧ q.calls.size = 2 ∧ q.jobs.size = 1 ∧ q.active ≤ 1 := by
  have hrun : ((queue idleWorker { maxPending := 1 }).walk takesTurnsTest emptyQueue inTurn).map
      (fun q => (q.calls.size, q.jobs.size)) = some (2, 1) := by decide +kernel
  obtain ⟨q, hq, hsizes⟩ := Option.map_eq_some_iff.mp hrun
  obtain ⟨hcalls, hjobs⟩ := Prod.mk.inj hsizes
  have hleads := Transition.System.walk_leads (fun e _ s => takesTurns_of_test e s) hq
  exact ⟨q, hq, hcalls, hjobs, capacity_taking_turns ⟨emptyQueue, ⟨rfl, rfl, rfl, rfl, rfl, rfl⟩, hleads⟩⟩

end SynQc.Jobs
