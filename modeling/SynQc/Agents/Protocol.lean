import SynQc.Agents.Attempts

/-! The worker protocol, without a sandbox route.

Where no agent is routed to the sandbox, no call ever enters the route, so every run keeps
the rule `oneExecutor` and with it the invariants of the protocol. What they say of a state
is said here in terms of places. A job has its place as long as no call pushes at a key that
holds a sorted set (`unclashing`): the delayed key of a queue is the key of the list of the
queue with `:delayed` in its name, and a job whose push is refused there is nowhere
(`refused_nowhere`). -/
namespace SynQc.Agents

/-! ### Calls off the sandbox route -/

/-- Whether a call is on the sandbox route. -/
def CallPhase.onRoute : CallPhase → Bool
  | .routed _ | .posting .. | .writing .. | .recording .. | .rereading _ => true
  | _ => false

def Unrouted (s : State) : Prop := ∀ c, (s.call c).phase.onRoute = false

section Unrouted
variable {cfg : Config} {s u : State} {e : Event} {c : Nat}

theorem Unrouted.absurd {phase : CallPhase} (h : Unrouted s) (hphase : (s.call c).phase = phase) :
    phase.onRoute = false := hphase ▸ h c

theorem Unrouted.oneExecutor (h : Unrouted s) (e : Event) : oneExecutor e s := by
  cases e with
  | mark c =>
    intro t hphase
    cases h.absurd hphase
  | record c raised =>
    intro t t0 hphase
    cases h.absurd hphase
  | _ => trivial

theorem Unrouted.set (h : Unrouted s) {call : Call} (hcalls : u.calls = s.calls.set c call)
    (hphase : call.phase.onRoute = false) : Unrouted u := by
  intro c'
  rw [State.call, hcalls, Roster.phase_set]
  split
  · exact hphase
  · exact h c'

theorem onRoute_afterCreate (hoff : ∀ agent, cfg.routed agent = false) (request : Request) (t : Ticket) :
    (State.afterCreate cfg request t).onRoute = false := by
  rw [State.afterCreate, hoff, if_neg Bool.false_ne_true]
  rfl

theorem onRoute_afterPush (request : Request) (t : Ticket) : (s.afterPush request t).onRoute = false := by
  rw [State.afterPush]
  split <;> rfl

theorem unrouted_step (hoff : ∀ agent, cfg.routed agent = false) (h : Unrouted s) (hstep : Step cfg s e u) :
    Unrouted u := by
  cases hstep with
  | submit hphase hnew =>
    rcases hnew with rfl | ⟨_, message, rfl⟩
    · exact h.set rfl rfl
    · exact h.set rfl rfl
  | hit => exact h.set rfl (onRoute_afterCreate hoff _ _)
  | miss | unencoded | refused => exact h.set rfl rfl
  | create => exact h.set rfl (onRoute_afterCreate hoff _ _)
  | mark hphase | write hphase | uncaught hphase | caught hphase | recorded hphase | reread hphase =>
    cases h.absurd hphase
  | post hphase hends => cases h.absurd hphase
  | skip => exact h.set rfl (onRoute_afterPush _ _)
  | push => exact h.set rfl (onRoute_afterPush _ _)
  | poll => exact h.set rfl rfl
  | _ => exact h

theorem unrouted_reachable (hoff : ∀ agent, cfg.routed agent = false)
    (h : (service cfg).Reachable Transition.anything s) : Unrouted s ∧ (service cfg).Reachable oneExecutor s := by
  have hinit : ∀ s, (service cfg).init s → Unrouted s := by
    intro s hs c
    rw [show s = {} from hs]
    rfl
  have hstep : ∀ e s u, Unrouted s → Transition.anything e s → (service cfg).step e s = some u → Unrouted u :=
    fun e s u hs _ hstep => unrouted_step hoff hs (step_some hstep)
  exact ⟨Transition.System.reachable_invariant hinit hstep h, h.strengthen hinit hstep fun e s hs => hs.oneExecutor e⟩

end Unrouted

/-! ### Pushes that are refused -/

/-- No call pushes its job at a key that holds a sorted set. -/
def unclashing : Event → State → Prop
  | .push c, s => ∀ t, (s.call c).phase = .queueing t → t.reused = false →
    (s.redis.kept (queueKey (s.call c).request.queueName)).isZset = false
  | _, _ => True

/-- The call has created a job that it could not push. -/
def CallPhase.isRefused : CallPhase → Bool
  | .refused _ => true
  | _ => false

def Unrefused (s : State) : Prop := ∀ c, (s.call c).phase.isRefused = false

section Unrefused
variable {cfg : Config} {s u : State} {e : Event} {c : Nat}

theorem Unrefused.set (h : Unrefused s) {call : Call} (hcalls : u.calls = s.calls.set c call)
    (hphase : call.phase.isRefused = false) : Unrefused u := by
  intro c'
  rw [State.call, hcalls, Roster.phase_set]
  split
  · exact hphase
  · exact h c'

theorem isRefused_afterCreate (request : Request) (t : Ticket) :
    (State.afterCreate cfg request t).isRefused = false := by
  rw [State.afterCreate]
  split <;> rfl

theorem isRefused_afterPush (request : Request) (t : Ticket) : (s.afterPush request t).isRefused = false := by
  rw [State.afterPush]
  split <;> rfl

theorem unrefused_step (h : Unrefused s) (hrule : unclashing e s) (hstep : Step cfg s e u) : Unrefused u := by
  cases hstep with
  | submit hphase hnew =>
    rcases hnew with rfl | ⟨_, message, rfl⟩
    · exact h.set rfl rfl
    · exact h.set rfl rfl
  | hit | create => exact h.set rfl (isRefused_afterCreate _ _)
  | miss | unencoded | mark | post | caught | uncaught | reread | poll => exact h.set rfl rfl
  | write => exact h.set rfl (by dsimp only; split <;> rfl)
  | recorded => exact h.set rfl (by dsimp only; split <;> rfl)
  | skip | push => exact h.set rfl (isRefused_afterPush _ _)
  | @refused c t hphase hnew hpush =>
    rw [Redis.push, hrule t hphase hnew] at hpush
    cases hpush
  | _ => exact h

theorem unrefused_reachable (h : (service cfg).Reachable unclashing s) : Unrefused s := by
  refine Transition.System.reachable_invariant (I := Unrefused) (fun s hs => ?_)
    (fun e s u hs hrule hstep => unrefused_step hs hrule (step_some hstep)) h
  intro c
  rw [show s = {} from hs]
  rfl

end Unrefused

/-! ### Places -/

/-- The job a pump has popped and not yet put anywhere. -/
def Worker.popped? : Worker → Option JobId
  | .popped _ _ _ id _ => some id
  | _ => none

/-- The job a worker has dequeued. -/
def Worker.taken? (p : Worker) : Option JobId := if p.popped?.isSome then none else p.hand?

/-- Where a job can be. Lists and sorted sets go by their keys. -/
inductive Place where
  | submitter (c : Nat)
  | ready (key : String)
  | delayed (key : String)
  | pumper (w : Nat)
  | worker (w : Nat)
  | finished

def State.At (s : State) (id : JobId) : Place → Prop
  | .submitter c => (s.call c).phase.hand? = some id ∧ (s.call c).phase.isRefused = false
  | .ready key => id ∈ (s.redis.kept key).ids
  | .delayed key => ∃ due, (s.redis.kept key).scores.get? id = some due
  | .pumper w => (s.worker w).popped? = some id
  | .worker w => (s.worker w).taken? = some id
  | .finished => ∃ hash, s.redis.jobs.get? id = some hash ∧ hash.status.terminal = true

/-- The count of the invariant that a place is part of. -/
def State.amount (s : State) (id : JobId) : Place → Nat
  | .submitter _ => s.handing id
  | .ready _ => s.redis.listed id
  | .delayed _ => s.redis.set id
  | .pumper _ | .worker _ => s.inHands id
  | .finished => s.redis.ended id

section Places
variable {s : State} {id : JobId} {w : Nat}

theorem has_pos {hand : Option JobId} : 0 < has id hand ↔ hand = some id := by
  rw [has]
  split <;> simp [*]

theorem Worker.hand_of_popped {p : Worker} (h : p.popped? = some id) : p.hand? = some id := by
  cases p with
  | popped => exact h
  | _ => cases h

theorem Worker.hand_of_taken {p : Worker} (h : p.taken? = some id) : p.hand? = some id := by
  rw [Worker.taken?] at h
  split at h
  · cases h
  · exact h

theorem Worker.hand_cases {p : Worker} (h : p.hand? = some id) :
    (p.popped? = some id ∧ p.taken? = none) ∨ (p.popped? = none ∧ p.taken? = some id) := by
  cases p with
  | idle | pumping | waiting => cases h
  | popped => exact .inl ⟨h, rfl⟩
  | _ => exact .inr ⟨rfl, h⟩

theorem delayed_pos {d : Dict JobId Time} : 0 < (d.get? id).isSome.toNat ↔ ∃ due, d.get? id = some due := by
  cases d.get? id <;> simp

theorem ended_pos :
    0 < s.redis.ended id ↔ ∃ hash, s.redis.jobs.get? id = some hash ∧ hash.status.terminal = true := by
  rw [Redis.ended]
  split
  · rename_i hash hget
    cases hterminal : hash.status.terminal <;> simp [hget, hterminal]
  · rename_i hnone
    simp [hnone]

theorem amount_pos {place : Place} (h : s.At id place) : 0 < s.amount id place := by
  cases place with
  | submitter c =>
    have hle := Roster.le_weigh s.calls c (f := fun call => has id call.phase.hand?) rfl
    exact (has_pos.mpr h.1).trans_le hle
  | ready key =>
    have hle := Roster.le_weigh s.redis.queues key (f := fun k => k.ids.count id) rfl
    exact (List.count_pos_iff.mpr h).trans_le hle
  | delayed key => exact (delayed_pos.mpr h).trans_le (s.redis.le_set key id)
  | pumper w =>
    have hle := Roster.le_weigh s.workers w (f := fun p => has id p.hand?) rfl
    exact (has_pos.mpr (Worker.hand_of_popped h)).trans_le hle
  | worker w =>
    have hle := Roster.le_weigh s.workers w (f := fun p => has id p.hand?) rfl
    exact (has_pos.mpr (Worker.hand_of_taken h)).trans_le hle
  | finished => exact ended_pos.mpr h

/-- One of the five counts is one, and one member has it. -/
theorem Custody.one_place (h : Custody s) (hunrefused : Unrefused s) (hmem : id ∈ s.created) :
    ∃! place, s.At id place := by
  have hplaced := h.placed id
  rw [List.count_eq_one_of_mem h.once hmem, State.places, Redis.places, Redis.queued] at hplaced
  rcases (by omega : s.handing id = 1 ∨ s.inHands id = 1 ∨ s.redis.listed id = 1 ∨ s.redis.set id = 1 ∨
    s.redis.ended id = 1) with hone | hone | hone | hone | hone
  · obtain ⟨c, hc, honly⟩ := Roster.unique_of_weigh_one (r := s.calls) (f := fun call => has id call.phase.hand?)
      rfl hone
    refine ⟨.submitter c, ⟨has_pos.mp hc, hunrefused c⟩, fun place hplace => ?_⟩
    have hpos := amount_pos hplace
    cases place with
    | submitter c' => rw [honly c' (has_pos.mpr hplace.1)]
    | _ => simp only [State.amount] at hpos; omega
  · obtain ⟨w, hw, honly⟩ := Roster.unique_of_weigh_one (r := s.workers) (f := fun p => has id p.hand?) rfl hone
    rcases Worker.hand_cases (has_pos.mp hw) with ⟨hpopped, htaken⟩ | ⟨hpopped, htaken⟩
    · refine ⟨.pumper w, hpopped, fun place hplace => ?_⟩
      have hpos := amount_pos hplace
      cases place with
      | pumper w' => rw [honly w' (has_pos.mpr (Worker.hand_of_popped hplace))]
      | worker w' =>
        rw [honly w' (has_pos.mpr (Worker.hand_of_taken hplace))] at hplace
        cases htaken.symm.trans hplace
      | _ => simp only [State.amount] at hpos; omega
    · refine ⟨.worker w, htaken, fun place hplace => ?_⟩
      have hpos := amount_pos hplace
      cases place with
      | pumper w' =>
        rw [honly w' (has_pos.mpr (Worker.hand_of_popped hplace))] at hplace
        cases hpopped.symm.trans hplace
      | worker w' => rw [honly w' (has_pos.mpr (Worker.hand_of_taken hplace))]
      | _ => simp only [State.amount] at hpos; omega
  · obtain ⟨key, hkey, honly⟩ :=
      Roster.unique_of_weigh_one (r := s.redis.queues) (f := fun k => k.ids.count id) rfl hone
    refine ⟨.ready key, List.count_pos_iff.mp hkey, fun place hplace => ?_⟩
    have hpos := amount_pos hplace
    cases place with
    | ready key' => rw [honly key' (List.count_pos_iff.mpr hplace)]
    | _ => simp only [State.amount] at hpos; omega
  · obtain ⟨key, hkey, honly⟩ :=
      Roster.unique_of_weigh_one (r := s.redis.queues) (f := fun k => (k.scores.get? id).isSome.toNat) rfl hone
    refine ⟨.delayed key, delayed_pos.mp hkey, fun place hplace => ?_⟩
    have hpos := amount_pos hplace
    cases place with
    | delayed key' => rw [honly key' (delayed_pos.mpr hplace)]
    | _ => simp only [State.amount] at hpos; omega
  · refine ⟨.finished, ended_pos.mp (by omega), fun place hplace => ?_⟩
    have hpos := amount_pos hplace
    cases place with
    | finished => rfl
    | _ => simp only [State.amount] at hpos; omega

/-- The one count of a job whose push was refused is the call's, and that is no place. -/
theorem Custody.refused_nowhere (h : Custody s) {c : Nat} {t : Ticket} (hphase : (s.call c).phase = .refused t)
    (hnew : t.reused = false) (place : Place) : ¬s.At t.id place := by
  intro hplace
  have hhand : (s.call c).phase.hand? = some t.id := by simp only [hphase, CallPhase.hand?, hnew]; rfl
  obtain ⟨hone, hzero, _⟩ := h.callHeld hhand
  have hle := Roster.le_weigh s.calls c (f := fun call => has t.id call.phase.hand?) rfl
  have hmine : 0 < has t.id (s.call c).phase.hand? := has_pos.mpr hhand
  have hpos := amount_pos hplace
  simp only [State.handing, State.call, Redis.places, Redis.queued] at hone hzero hle hmine
  cases place with
  | submitter c' =>
    obtain ⟨hhand', hunrefused⟩ := hplace
    have hne : c ≠ c' := by
      intro hc
      subst hc
      rw [hphase] at hunrefused
      cases hunrefused
    have htwo := Roster.add_le_weigh s.calls hne (f := fun call => has t.id call.phase.hand?) rfl
    have hhis : 0 < has t.id (s.call c').phase.hand? := has_pos.mpr hhand'
    simp only [State.call] at hhis
    omega
  | _ => simp only [State.amount] at hpos; omega

end Places

/-! ### Release -/

section Release
variable {cfg : Config} {s u : State} {e : Event} {id : JobId}

/-- A ready list grows by a first push, or by a job that is due. -/
theorem release_due (h : Protocol s) (hstep : Step cfg s e u) (hmore : s.redis.listed id < u.redis.listed id) :
    id ∉ s.pushed ∨ ∃ due, s.dues.get? id = some due ∧ due ≤ s.now := by
  have hquiet : u.redis.listed id ≠ s.redis.listed id := hmore.ne'
  have hwritten {id' : JobId} {f : JobHash → JobHash} : (s.redis.hset id' f).listed id = s.redis.listed id := by
    rw [Redis.listed, Redis.listed, (Redis.hset_frame _ _ _).2]
  cases hstep with
  | @push c t redis hphase hnew hpush =>
    have hlisted := Redis.listed_push hpush id
    have hhand : 0 < has id (some t.id) := by
      change _ < redis.listed id at hmore
      omega
    cases has_pos.mp hhand
    have hle := Roster.le_weigh s.calls c (f := fun call => has t.id call.phase.undispatched?) rfl
    have hone : has t.id (s.call c).phase.undispatched? = 1 := by
      rw [hphase, CallPhase.undispatched?, hnew]
      exact if_pos rfl
    have honce := h.dispatched.once t.id
    have hcount := List.nodup_iff_count_le_one.mp h.custody.once t.id
    refine .inl (List.count_eq_zero.mp ?_)
    simp only [State.undispatched, State.call] at hle hone honce
    omega
  | @putReady w seat now left id' score redis hphase hdue hpush =>
    have hlisted := Redis.listed_push hpush id
    have hhand : 0 < has id (some id') := by
      change _ < redis.listed id at hmore
      omega
    cases has_pos.mp hhand
    have htime := h.scheduled.worker w
    rw [hphase] at htime
    exact .inr ⟨score, htime.2, hdue.trans htime.1⟩
  | @brpop w seat id' redis hphase hpop =>
    have hlisted := Redis.listed_pop hpop id
    change _ < redis.listed id at hmore
    omega
  | zpopmin hphase hpop => exact absurd (Redis.listed_zpopmin hpop id) hquiet
  | putBack hphase hadd | schedule hphase hadd => exact absurd (Redis.listed_zadd hadd id) hquiet
  | cancel | mark | write | cancelled | begin | count | writeBack => exact absurd hwritten hquiet
  | _ => exact absurd rfl hquiet

end Release

/-! ### Cancels -/

def State.Cancelled (s : State) (id : JobId) : Prop :=
  ∃ hash, s.redis.jobs.get? id = some hash ∧ hash.status = .cancelled

/-- A worker that has dequeued the job, and its hash if it has read it, and is about to cancel it. -/
def State.Cancelling (s : State) (w : Nat) (id : JobId) : Prop :=
  (∃ seat, s.worker w = .holding seat id) ∨ ∃ seat job, s.worker w = .loaded seat id job ∧ job.cancelRequested = true

/-- A job that is cancelled, or will be by the worker that has it, and was started so many times. -/
structure Doomed (w : Nat) (id : JobId) (n : Nat) (s : State) : Prop where
  custody : Custody s
  requested : ∃ hash, s.redis.jobs.get? id = some hash ∧ hash.cancelRequested = true
  started : s.started.count id = n
  fate : s.Cancelled id ∨ s.Cancelling w id

section Cancels
variable {cfg : Config} {s u : State} {e : Event} {w : Nat} {id : JobId} {n : Nat}

/-- A worker in one phase is not touched by the step of a worker in another. -/
theorem other_worker {w' : Nat} {p q r : Worker} (hw : s.worker w = p) (hw' : s.worker w' = q) (hne : p ≠ q) :
    Roster.phase (s.workers.set w' r) w = p := by
  have hother : w' ≠ w := by
    intro hsame
    subst hsame
    exact hne (hw.symm.trans hw')
  exact (Roster.phase_set_ne s.workers hother r).trans hw

theorem step_holding {seat : Seat} (hstep : Step cfg s e u) (hphase : s.worker w = .holding seat id) :
    u.worker w = .holding seat id ∨ s.redis.jobs.get? id = none ∨
      ∃ job, s.redis.jobs.get? id = some job ∧ u.worker w = .loaded seat id job := by
  cases hstep with
  | @load w' seat' id' job hphase' hget =>
    by_cases hw : w' = w
    · subst hw
      cases hphase.symm.trans hphase'
      exact .inr (.inr ⟨job, hget, Roster.phase_set_self _ _ _⟩)
    · exact .inl ((Roster.phase_set_ne s.workers hw _).trans hphase)
  | @lose w' seat' id' hphase' hnone =>
    by_cases hw : w' = w
    · subst hw
      cases hphase.symm.trans hphase'
      exact .inr (.inl hnone)
    · exact .inl ((Roster.phase_set_ne s.workers hw _).trans hphase)
  | pump hphase' | endPump hphase' | giveUp hphase' | count hphase' | start hphase' | writeBack hphase' =>
    exact .inl (other_worker hphase hphase' nofun)
  | putBack hphase' _ | putReady hphase' _ _ | schedule hphase' _ => exact .inl (other_worker hphase hphase' nofun)
  | zpopmin hphase' _ | brpop hphase' _ | cancelled hphase' _ | begin hphase' _ | finish hphase' _ =>
    exact .inl (other_worker hphase hphase' nofun)
  | _ => exact .inl hphase

theorem step_loaded {seat : Seat} {job : JobHash} (hstep : Step cfg s e u) (hphase : s.worker w = .loaded seat id job)
    (hcancel : job.cancelRequested = true) :
    u.worker w = .loaded seat id job ∨
      u.redis = s.redis.hset id (Write.apply s.now (.updateStatus .cancelled false true)) := by
  cases hstep with
  | @cancelled w' seat' id' job' hphase' _ =>
    by_cases hw : w' = w
    · subst hw
      cases hphase.symm.trans hphase'
      exact .inr rfl
    · exact .inl ((Roster.phase_set_ne s.workers hw _).trans hphase)
  | @begin w' seat' id' job' hphase' hcancel' =>
    by_cases hw : w' = w
    · subst hw
      cases hphase.symm.trans hphase'
      cases hcancel.symm.trans hcancel'
    · exact .inl ((Roster.phase_set_ne s.workers hw _).trans hphase)
  | pump hphase' | endPump hphase' | giveUp hphase' | count hphase' | start hphase' | writeBack hphase' =>
    exact .inl (other_worker hphase hphase' nofun)
  | putBack hphase' _ | putReady hphase' _ _ | schedule hphase' _ => exact .inl (other_worker hphase hphase' nofun)
  | zpopmin hphase' _ | brpop hphase' _ | load hphase' _ | lose hphase' _ | finish hphase' _ =>
    exact .inl (other_worker hphase hphase' nofun)
  | _ => exact .inl hphase

/-- Nobody starts a job that is cancelled or about to be. -/
theorem step_started (h : Doomed w id n s) (hstep : Step cfg s e u) : u.started.count id = n := by
  cases hstep with
  | @start w' seat id' job attempt hphase =>
    have hne : id' ≠ id := by
      intro hid
      subst hid
      have hhand : (s.worker w').hand? = some id' := by rw [hphase]; rfl
      rcases h.fate with ⟨hash, hget, hcancelled⟩ | ⟨seat', hholding⟩ | ⟨seat', job', hloaded, _⟩
      · obtain ⟨_, _, hash', hget', hopen⟩ := h.custody.workerHeld hhand
        cases hget.symm.trans hget'
        rw [hcancelled] at hopen
        cases hopen
      · have hw := h.custody.one_worker hhand (show (s.worker w).hand? = some id' by rw [hholding]; rfl)
        subst hw
        cases hphase.symm.trans hholding
      · have hw := h.custody.one_worker hhand (show (s.worker w).hand? = some id' by rw [hloaded]; rfl)
        subst hw
        cases hphase.symm.trans hloaded
    show (id' :: s.started).count id = n
    rw [List.count_cons_of_ne hne]
    exact h.started
  | _ => exact h.started

theorem doomed_step (h : Doomed w id n s) (hrule : oneExecutor e s) (hstep : (service cfg).step e s = some u) :
    Doomed w id n u := by
  have hmove := step_some hstep
  obtain ⟨hash, hget, hrequested⟩ := h.requested
  obtain ⟨hash', hget', hrewritten⟩ := step_hash h.custody hrule hmove hget
  refine ⟨custody_step h.custody hrule hstep, ⟨hash', hget', hrewritten.cancelRequested hrequested⟩,
    step_started h hmove, ?_⟩
  rcases h.fate with ⟨old, hold, hcancelled⟩ | ⟨seat, hholding⟩ | ⟨seat, job, hloaded, hcancel⟩
  · cases hget.symm.trans hold
    have hfinal := h.custody.final hget (by rw [hcancelled]; rfl) hrewritten
    exact .inl ⟨hash', hget', (congrArg Prod.fst hfinal).trans hcancelled⟩
  · rcases step_holding hmove hholding with hstill | hnone | ⟨job, hjob, hloaded⟩
    · exact .inr (.inl ⟨seat, hstill⟩)
    · cases hget.symm.trans hnone
    · cases hget.symm.trans hjob
      exact .inr (.inr ⟨seat, hash, hloaded, hrequested⟩)
  · rcases step_loaded hmove hloaded hcancel with hstill | hredis
    · exact .inr (.inr ⟨seat, job, hstill, hcancel⟩)
    · refine .inl ⟨{hash with status := .cancelled, finishedAt := some s.now}, ?_, rfl⟩
      rw [hredis, Redis.get?_hset, if_pos rfl, hget]
      rfl

/-- The next two commands of the worker cancel the job. -/
theorem run_cancel {seat : Seat} {hash : JobHash} (hphase : s.worker w = .holding seat id)
    (hget : s.redis.jobs.get? id = some hash) (hrequested : hash.cancelRequested = true) :
    ∃ u, (service cfg).run s [.load w, .begin w] = some u ∧ u.Cancelled id := by
  have hload : (service cfg).step (.load w) s = some (s.setWorker w (.loaded seat id hash)) := by
    show s.load w = _
    simp only [State.load, hphase, hget]
  have hworker : (s.setWorker w (.loaded seat id hash)).worker w = .loaded seat id hash := Roster.phase_set_self _ _ _
  have hbegin : (service cfg).step (.begin w) (s.setWorker w (.loaded seat id hash)) =
      some (((s.setWorker w (.loaded seat id hash)).hset id (.updateStatus .cancelled false true)).setWorker w .idle) := by
    show (s.setWorker w (.loaded seat id hash)).begin w = _
    simp only [State.begin, hworker, hrequested, if_true]
  refine ⟨((s.setWorker w (.loaded seat id hash)).hset id (.updateStatus .cancelled false true)).setWorker w .idle, ?_,
    {hash with status := .cancelled, finishedAt := some s.now}, ?_, rfl⟩
  · simp only [Transition.System.run, hload, Option.bind_some, hbegin]
  · show (s.redis.hset id (Write.apply s.now (.updateStatus .cancelled false true))).jobs.get? id = _
    rw [Redis.get?_hset, if_pos rfl, hget]
    rfl

end Cancels

/-- **Without a sandbox route, and with no call pushing at a key that holds a sorted set, a created job
is in exactly one place and in the hands of one worker at a time; a ready list grows by first
pushes and by delayed jobs that are due; an agent is started at most as often as its job's
attempts allow, and once at least; and a job that was cancelled before its worker read it is
not started again, and is cancelled by that worker's next two commands.** -/
theorem worker_protocol {cfg : Config} (hoff : ∀ agent, cfg.routed agent = false) {s : State}
    (h : (service cfg).Reachable unclashing s) :
    (∀ id ∈ s.created, ∃! place, s.At id place) ∧
    (∀ w w' id, (s.worker w).hand? = some id → (s.worker w').hand? = some id → w = w') ∧
    (∀ queue id score, (s.redis.delayed queue).get? id = some score → s.dues.get? id = some score) ∧
    (∀ e u id, (service cfg).step e s = some u → s.redis.listed id < u.redis.listed id →
      id ∉ s.pushed ∨ ∃ due, s.dues.get? id = some due ∧ due ≤ s.now) ∧
    (∀ id hash, s.redis.jobs.get? id = some hash → (s.started.count id : Int) ≤ max 1 (maxAttempts hash)) ∧
    ∀ w seat id hash, s.worker w = .holding seat id → s.redis.jobs.get? id = some hash →
      hash.cancelRequested = true →
      (∃ u, (service cfg).run s [.load w, .begin w] = some u ∧ u.Cancelled id) ∧
      ∀ u, (service cfg).Leads Transition.anything s u →
        u.started.count id = s.started.count id ∧ (u.Cancelled id ∨ u.Cancelling w id) := by
  have hunrefused := unrefused_reachable h
  obtain ⟨hunrouted, hreach⟩ := unrouted_reachable hoff h.plain
  have hp := protocol_reachable hreach
  refine ⟨fun id => hp.custody.one_place hunrefused, fun w w' id => hp.custody.one_worker,
    fun queue => hp.scheduled.delayed (delayedKey queue), fun e u id hstep => release_due hp (step_some hstep),
    fun id hash hget => ?_, fun w seat id hash hholding hget hrequested => ⟨run_cancel hholding hget hrequested,
      fun u hl => ?_⟩⟩
  · have hstarts := hp.attempted.starts id hash hget
    have hlimit := hp.attempted.limit id hash hget
    omega
  · have hboth := Transition.System.leads_invariant
      (I := fun u => Unrouted u ∧ Doomed w id (s.started.count id) u) (fun e s u ⟨hoffs, hd⟩ _ hstep => ?_) hl
      ⟨hunrouted, hp.custody, ⟨hash, hget, hrequested⟩, rfl, .inr (.inl ⟨seat, hholding⟩)⟩
    · exact ⟨hboth.2.started, hboth.2.fate⟩
    · exact ⟨unrouted_step hoff hoffs (step_some hstep), doomed_step hd (hoffs.oneExecutor e) hstep⟩

def echoing : Config where
  agents := ["echo", "grover_search"]

/-- A job fails for a transient reason, comes back when it is due, and is cancelled as it is dequeued. -/
def retriedRun : List Event :=
  [.submit 0 { agent := "echo" }, .lookup 0, .create 0 7, .push 0, .pump 0 ⟨"default", 60⟩, .endPump 0, .brpop 0,
    .load 0, .begin 0, .count 0, .start 0, .finish 0 (.error "HTTPError" "503" ""), .writeBack 0, .writeBack 0,
    .schedule 0, .tick 1, .pump 0 ⟨"default", 60⟩, .zpopmin 0 7, .put 0, .endPump 0, .brpop 0, .cancel 7]

/-- The rule, as a test. -/
def unclashingTest : Event → State → Bool
  | .push c, s => !(s.redis.kept (queueKey (s.call c).request.queueName)).isZset
  | _, _ => true

theorem unclashing_of_test (e : Event) (s : State) (h : unclashingTest e s = true) : unclashing e s := by
  cases e with
  | push c => exact fun _ _ _ => (Bool.not_eq_true' _).mp h
  | _ => trivial

/-- The job of a worker that has dequeued it and no more. -/
def Worker.dequeued? : Worker → Option JobId
  | .holding _ id => some id
  | _ => none

theorem Worker.dequeued?_eq_some {p : Worker} {id : JobId} (h : p.dequeued? = some id) :
    ∃ seat, p = .holding seat id := by
  cases p <;> cases h
  exact ⟨_, rfl⟩

theorem worker_protocol_retried : ∃ s, (service echoing).Reachable unclashing s ∧ s.started = [7] ∧
    (∃! place, s.At 7 place) ∧ ∀ u, (service echoing).Leads Transition.anything s u →
      u.started.count 7 = 1 ∧ (u.Cancelled 7 ∨ u.Cancelling 0 7) := by
  have hrun : (Transition.System.walk (service echoing) unclashingTest {} retriedRun).map (fun s =>
      (s.created, s.started, (s.worker 0).dequeued?, (s.redis.jobs.get? 7).map fun h => h.cancelRequested)) =
        some ([7], [7], some 7, some true) := by decide +kernel
  obtain ⟨s, hs, hseen⟩ := Option.map_eq_some_iff.mp hrun
  simp only [Prod.mk.injEq] at hseen
  obtain ⟨hcreated, hstarted, hworker, hcancel⟩ := hseen
  obtain ⟨hash, hget, hrequested⟩ := Option.map_eq_some_iff.mp hcancel
  have hreach : (service echoing).Reachable unclashing s :=
    ⟨{}, rfl, Transition.System.walk_leads (fun e _ => unclashing_of_test e) hs⟩
  obtain ⟨hplaces, _, _, _, _, hcancels⟩ := worker_protocol (fun agent => by simp [Config.routed, echoing]) hreach
  refine ⟨s, hreach, hstarted, hplaces 7 (by rw [hcreated]; decide), fun u hl => ?_⟩
  obtain ⟨seat, hholding⟩ := Worker.dequeued?_eq_some hworker
  have hafter := (hcancels 0 seat 7 hash hholding hget hrequested).2 u hl
  rw [hstarted] at hafter
  exact hafter

/-- While a retried job waits in the delayed set of `default`, another is created for the queue
`default:delayed`. -/
def clashingRun : List Event :=
  [.submit 0 { agent := "echo" }, .lookup 0, .create 0 7, .push 0, .pump 0 ⟨"default", 60⟩, .endPump 0, .brpop 0,
    .load 0, .begin 0, .count 0, .start 0, .finish 0 (.error "HTTPError" "503" ""), .writeBack 0, .writeBack 0,
    .schedule 0, .submit 1 { agent := "echo", queueName := "default:delayed" }, .lookup 1, .create 1 8, .push 1]

/-- The job of a call whose push was refused. -/
def CallPhase.refused? : CallPhase → Option Ticket
  | .refused t => some t
  | _ => none

theorem CallPhase.refused?_eq_some {phase : CallPhase} {t : Ticket} (h : phase.refused? = some t) :
    phase = .refused t := by
  cases phase <;> cases h
  rfl

theorem created_nowhere : ∃ s, (service echoing).Reachable Transition.anything s ∧ 8 ∈ s.created ∧
    ¬∃ place, s.At 8 place := by
  have hrun : ((service echoing).run {} clashingRun).map (fun s => (s.created, (s.call 1).phase.refused?)) =
      some ([8, 7], some ⟨8, false⟩) := by decide +kernel
  obtain ⟨s, hs, hseen⟩ := Option.map_eq_some_iff.mp hrun
  obtain ⟨hcreated, hrefused⟩ := Prod.mk.inj hseen
  have hreach := Transition.System.run_reachable (S := service echoing) rfl hs
  have hcustody := custody_reachable (unrouted_reachable (fun agent => by simp [Config.routed, echoing]) hreach).2
  refine ⟨s, hreach, by rw [hcreated]; decide, fun hsome => ?_⟩
  obtain ⟨place, hplace⟩ := hsome
  exact hcustody.refused_nowhere (CallPhase.refused?_eq_some hrefused) rfl place hplace

end SynQc.Agents
