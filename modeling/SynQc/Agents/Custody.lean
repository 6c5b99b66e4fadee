import SynQc.Agents.Service

/-! Who has a job.

A job that was created is with the call that created it (for good, if its push was refused), in
a ready list, in a delayed set, in a worker's hands, or ended: the five counts of
`State.places` add up to one. They do as
long as sandbox runs are first runs, are waited for, and are recorded once they succeeded
(`oneExecutor`); otherwise the sandbox and a worker, or two calls, have the same job.
Without a sandbox route the rule asks for nothing. -/
namespace SynQc.Agents

/-- Sandbox runs are of new jobs, by callers that wait, and `record_event` does not raise once
they succeeded. -/
def oneExecutor : Event → State → Prop
  | .mark c, s => ∀ t, (s.call c).phase = .routed t → t.reused = false ∧ (s.call c).request.wait = true
  | .record c raised, s => ∀ t t0, (s.call c).phase = .recording t t0 true → raised = none
  | _, _ => True

/-! ### Counting -/

/-- The job a call still has to see to, or could not push. -/
def CallPhase.hand? : CallPhase → Option JobId
  | .routed t | .posting t _ | .writing t _ _ _ | .queueing t | .refused t => if t.reused then none else some t.id
  | _ => none

/-- The job a call has neither pushed nor sent to the sandbox. -/
def CallPhase.undispatched? : CallPhase → Option JobId
  | .routed t | .queueing t | .refused t => if t.reused then none else some t.id
  | _ => none

/-- The job in a worker's hands. -/
def Worker.hand? : Worker → Option JobId
  | .idle | .pumping .. | .waiting _ => none
  | .popped _ _ _ id _ | .holding _ id | .loaded _ id _ | .marked _ id _ | .counted _ id _ _ | .running _ id _ _
  | .writing _ id _ _ => some id

/-- One if it is that job. -/
def has (id : JobId) (hand : Option JobId) : Nat := if hand = some id then 1 else 0

theorem has_some (id id' : JobId) : has id' (some id) = if id = id' then 1 else 0 := by
  simp only [has, Option.some.injEq]

namespace Redis

def listed (r : Redis) (id : JobId) : Nat := r.queues.weigh fun k => k.ids.count id

def set (r : Redis) (id : JobId) : Nat := r.queues.weigh fun k => (k.scores.get? id).isSome.toNat

def ended (r : Redis) (id : JobId) : Nat :=
  match r.jobs.get? id with
  | some h => h.status.terminal.toNat
  | none => 0

/-- Ready or delayed. -/
def queued (r : Redis) (id : JobId) : Nat := r.listed id + r.set id

/-- Ready, delayed or ended. -/
def places (r : Redis) (id : JobId) : Nat := r.queued id + r.ended id

section Commands
variable {r r' : Redis} {queue : QueueName} {id : JobId}

theorem listed_set {key : String} {k : Kept} (hqueues : r'.queues = r.queues.set key k) (id' : JobId) :
    r'.listed id' + (r.kept key).ids.count id' = r.listed id' + k.ids.count id' := by
  rw [listed, hqueues]
  exact Roster.weigh_set r.queues key k rfl

theorem set_set {key : String} {k : Kept} (hqueues : r'.queues = r.queues.set key k) (id' : JobId) :
    r'.set id' + ((r.kept key).scores.get? id').isSome.toNat = r.set id' + (k.scores.get? id').isSome.toNat := by
  rw [set, hqueues]
  exact Roster.weigh_set r.queues key k rfl

theorem le_set (r : Redis) (key : String) (id : JobId) : ((r.kept key).scores.get? id).isSome.toNat ≤ r.set id :=
  Roster.le_weigh r.queues key (f := fun k => (k.scores.get? id).isSome.toNat) rfl

theorem listed_push (h : r.push queue id = some r') (id' : JobId) :
    r'.listed id' = r.listed id' + has id' (some id) := by
  obtain ⟨_, hr⟩ := push_some h
  have hset := listed_set (congrArg Redis.queues hr) id'
  simp only [Kept.ids_list, ready, List.count_append, List.count_singleton, beq_iff_eq] at hset ⊢
  rw [has_some]
  omega

/-- What a list command finds has no scores. -/
theorem set_push (h : r.push queue id = some r') (id' : JobId) : r'.set id' = r.set id' := by
  obtain ⟨hlist, hr⟩ := push_some h
  have hset := set_set (congrArg Redis.queues hr) id'
  rw [Kept.get?_of_not_zset hlist] at hset
  exact hset

theorem listed_pop (h : r.pop queue = some (id, r')) (id' : JobId) :
    r'.listed id' + has id' (some id) = r.listed id' := by
  obtain ⟨rest, hready, hr⟩ := pop_some h
  have hset := listed_set (congrArg Redis.queues hr) id'
  rw [show (r.kept (queueKey queue)).ids = id :: rest from hready, List.count_cons] at hset
  simp only [Kept.ids_list, beq_iff_eq] at hset
  rw [has_some]
  omega

theorem set_pop (h : r.pop queue = some (id, r')) (id' : JobId) : r'.set id' = r.set id' := by
  obtain ⟨rest, hready, hr⟩ := pop_some h
  have hset := set_set (congrArg Redis.queues hr) id'
  rw [Kept.scores_of_ids hready] at hset
  exact hset

theorem set_zadd {due : Time} (h : r.zadd queue id due = some r') (hnone : r.set id = 0) (id' : JobId) :
    r'.set id' = r.set id' + has id' (some id) := by
  obtain ⟨_, hr⟩ := zadd_some h
  have hset := set_set (congrArg Redis.queues hr) id'
  have hle := r.le_set (delayedKey queue) id
  simp only [Kept.scores_zset, delayed] at hset ⊢
  rw [has_some]
  by_cases hid : id = id'
  · subst hid
    simp only [Dict.get?_set_self, Option.isSome_some, Bool.toNat_true] at hset
    rw [if_pos rfl]
    omega
  · simp only [Dict.get?_set_ne _ _ hid] at hset
    rw [if_neg hid]
    omega

theorem listed_zadd {due : Time} (h : r.zadd queue id due = some r') (id' : JobId) : r'.listed id' = r.listed id' := by
  obtain ⟨hzset, hr⟩ := zadd_some h
  have hset := listed_set (congrArg Redis.queues hr) id'
  rw [Kept.ids_of_not_list hzset] at hset
  exact hset

theorem set_zpopmin {score : Time} (h : r.zpopmin queue id = some (score, r')) (id' : JobId) :
    r'.set id' + has id' (some id) = r.set id' := by
  obtain ⟨hfound, hr⟩ := zpopmin_some h
  have hset := set_set (congrArg Redis.queues hr) id'
  simp only [Kept.scores_zset, delayed, Dict.get?_erase] at hset hfound ⊢
  rw [has_some]
  by_cases hid : id = id'
  · subst hid
    simp only [if_true, Option.isSome_none, Bool.toNat_false, hfound, Option.isSome_some, Bool.toNat_true] at hset
    rw [if_pos rfl]
    omega
  · rw [if_neg hid] at hset
    rw [if_neg hid]
    omega

theorem listed_zpopmin {score : Time} (h : r.zpopmin queue id = some (score, r')) (id' : JobId) :
    r'.listed id' = r.listed id' := by
  obtain ⟨hfound, hr⟩ := zpopmin_some h
  have hset := listed_set (congrArg Redis.queues hr) id'
  rw [Kept.ids_of_get? hfound] at hset
  exact hset

theorem get?_hset (r : Redis) (id id' : JobId) (f : JobHash → JobHash) :
    (r.hset id f).jobs.get? id' = if id = id' then (r.jobs.get? id').map f else r.jobs.get? id' := by
  by_cases hid : id = id'
  · subst hid
    rw [if_pos rfl, hset]
    cases h : r.jobs.get? id with
    | none => exact h
    | some hash => exact Dict.get?_set_self _ _ _
  · rw [if_neg hid, hset]
    cases h : r.jobs.get? id with
    | none => rfl
    | some hash => exact Dict.get?_set_ne _ _ hid

theorem hset_frame (r : Redis) (id : JobId) (f : JobHash → JobHash) :
    (r.hset id f).keys = r.keys ∧ (r.hset id f).queues = r.queues := by
  simp only [hset]
  split <;> exact ⟨rfl, rfl⟩

/-- Which jobs there are does not change by writing their hashes. -/
theorem known_hset (r : Redis) (id id' : JobId) (f : JobHash → JobHash) :
    (∃ h, (r.hset id f).jobs.get? id' = some h) ↔ ∃ h, r.jobs.get? id' = some h := by
  rw [get?_hset]
  split
  · simp only [Option.map_eq_some_iff]
    constructor
    · intro hnew
      obtain ⟨_, h, hget, _⟩ := hnew
      exact ⟨h, hget⟩
    · intro hold
      obtain ⟨h, hget⟩ := hold
      exact ⟨f h, h, hget, rfl⟩
  · rfl

theorem known_of_jobs (hjobs : r'.jobs = r.jobs) (id : JobId) :
    (∃ h, r'.jobs.get? id = some h) ↔ ∃ h, r.jobs.get? id = some h := by rw [hjobs]

/-- A write moves the count of ended jobs by what it does to the status. -/
theorem places_hset {h : JobHash} (hget : r.jobs.get? id = some h) (f : JobHash → JobHash) (id' : JobId) :
    (r.hset id f).places id' + (if id = id' then h.status.terminal.toNat else 0) =
      r.places id' + if id = id' then (f h).status.terminal.toNat else 0 := by
  obtain ⟨_, hqueues⟩ := r.hset_frame id f
  simp only [places, queued, listed, set, ended, hqueues, get?_hset]
  by_cases hid : id = id'
  · subst hid
    simp only [if_true, hget, Option.map_some]
    omega
  · simp only [if_neg hid]

theorem queued_hset (r : Redis) (id id' : JobId) (f : JobHash → JobHash) : (r.hset id f).queued id' = r.queued id' := by
  simp only [queued, listed, set, (r.hset_frame id f).2]

theorem queued_push (h : r.push queue id = some r') (id' : JobId) :
    r'.queued id' = r.queued id' + has id' (some id) := by
  rw [queued, queued, listed_push h, set_push h]
  omega

theorem queued_pop (h : r.pop queue = some (id, r')) (id' : JobId) :
    r'.queued id' + has id' (some id) = r.queued id' := by
  have hlisted := listed_pop h id'
  rw [queued, queued, set_pop h]
  omega

theorem queued_zadd {due : Time} (h : r.zadd queue id due = some r') (hnone : r.set id = 0) (id' : JobId) :
    r'.queued id' = r.queued id' + has id' (some id) := by
  rw [queued, queued, listed_zadd h, set_zadd h hnone]
  omega

theorem queued_zpopmin {score : Time} (h : r.zpopmin queue id = some (score, r')) (id' : JobId) :
    r'.queued id' + has id' (some id) = r.queued id' := by
  have hset := set_zpopmin h id'
  rw [queued, queued, listed_zpopmin h]
  omega

/-- A command that writes no hash moves the places as it moves the queues. -/
theorem places_of_queued (hjobs : r'.jobs = r.jobs) (id : JobId) :
    r'.places id + r.queued id = r.places id + r'.queued id := by
  simp only [places, ended, hjobs]
  omega

theorem places_push (h : r.push queue id = some r') (id' : JobId) :
    r'.places id' = r.places id' + has id' (some id) := by
  have hqueued := queued_push h id'
  have hplaces := places_of_queued (push_frame h).1 id'
  omega

theorem places_pop (h : r.pop queue = some (id, r')) (id' : JobId) :
    r'.places id' + has id' (some id) = r.places id' := by
  have hqueued := queued_pop h id'
  have hplaces := places_of_queued (pop_frame h).1 id'
  omega

theorem places_zadd {due : Time} (h : r.zadd queue id due = some r') (hnone : r.set id = 0) (id' : JobId) :
    r'.places id' = r.places id' + has id' (some id) := by
  have hqueued := queued_zadd h hnone id'
  have hplaces := places_of_queued (zadd_frame h).1 id'
  omega

theorem places_zpopmin {score : Time} (h : r.zpopmin queue id = some (score, r')) (id' : JobId) :
    r'.places id' + has id' (some id) = r.places id' := by
  have hqueued := queued_zpopmin h id'
  have hplaces := places_of_queued (zpopmin_frame h).1 id'
  omega

end Commands

end Redis

namespace State

def handing (s : State) (id : JobId) : Nat := s.calls.weigh fun call => has id call.phase.hand?

def inHands (s : State) (id : JobId) : Nat := s.workers.weigh fun p => has id p.hand?

/-- How often a job is somewhere. -/
def places (s : State) (id : JobId) : Nat := s.handing id + s.inHands id + s.redis.places id

end State

/-! ### The invariant -/

/-- What is known of a call in the sandbox route. -/
def CallOk (call : Call) : Prop :=
  match call.phase with
  | .posting t _ | .recording t _ _ => t.reused = false ∧ call.request.wait = true
  | .writing t _ _ writes => t.reused = false ∧ call.request.wait = true ∧ Write.ends writes = true
  | _ => True

/-- What a worker still has to write: the end of the job, or nothing that ends it. -/
def WorkerOk : Worker → Prop
  | .writing _ _ writes none => Write.ends writes = true
  | .writing _ _ writes (some _) => ∀ write ∈ writes, write.closes = false
  | _ => True

structure Custody (s : State) : Prop where
  placed : ∀ id, s.places id = s.created.count id
  once : s.created.Nodup
  known : ∀ id, id ∈ s.created ↔ ∃ h, s.redis.jobs.get? id = some h
  call : ∀ c, CallOk (s.call c)
  worker : ∀ w, WorkerOk (s.worker w)

section Steps
variable {s u : State} {c w : Nat} {id : JobId}

/-- A step of one call, which may touch Redis. -/
theorem Custody.callStep (h : Custody s) {call : Call} (hcalls : u.calls = s.calls.set c call)
    (hworkers : u.workers = s.workers) (hcreated : u.created = s.created)
    (hknown : ∀ id, (∃ h, u.redis.jobs.get? id = some h) ↔ ∃ h, s.redis.jobs.get? id = some h)
    (hok : CallOk call)
    (hmoved : ∀ id, has id call.phase.hand? + u.redis.places id =
      has id (s.call c).phase.hand? + s.redis.places id) : Custody u := by
  refine ⟨fun id => ?_, hcreated ▸ h.once, fun id => ?_, fun c' => ?_, fun w => ?_⟩
  · have hset := Roster.weigh_set s.calls c call (f := fun call => has id call.phase.hand?) rfl
    have hbefore := h.placed id
    have hmove := hmoved id
    rw [hcreated]
    simp only [State.places, State.handing, State.inHands, State.call, hcalls, hworkers] at hbefore hmove hset ⊢
    omega
  · rw [hcreated, hknown]
    exact h.known id
  · rw [State.call, hcalls, Roster.phase_set]
    split
    · exact hok
    · exact h.call c'
  · rw [State.worker, hworkers]
    exact h.worker w

theorem Custody.workerStep (h : Custody s) {p : Worker} (hworkers : u.workers = s.workers.set w p)
    (hcalls : u.calls = s.calls) (hcreated : u.created = s.created)
    (hknown : ∀ id, (∃ h, u.redis.jobs.get? id = some h) ↔ ∃ h, s.redis.jobs.get? id = some h)
    (hok : WorkerOk p)
    (hmoved : ∀ id, has id p.hand? + u.redis.places id = has id (s.worker w).hand? + s.redis.places id) :
    Custody u := by
  refine ⟨fun id => ?_, hcreated ▸ h.once, fun id => ?_, fun c => ?_, fun w' => ?_⟩
  · have hset := Roster.weigh_set s.workers w p (f := fun p => has id p.hand?) rfl
    have hbefore := h.placed id
    have hmove := hmoved id
    rw [hcreated]
    simp only [State.places, State.handing, State.inHands, State.worker, hcalls, hworkers] at hbefore hmove hset ⊢
    omega
  · rw [hcreated, hknown]
    exact h.known id
  · rw [State.call, hcalls]
    exact h.call c
  · rw [State.worker, hworkers, Roster.phase_set]
    split
    · exact hok
    · exact h.worker w'

/-- What is in somebody's hands is nowhere else, and not ended. -/
theorem Custody.held (h : Custody s) (hhand : 0 < s.handing id + s.inHands id) :
    s.handing id + s.inHands id = 1 ∧ s.redis.places id = 0 ∧
      ∃ hash, s.redis.jobs.get? id = some hash ∧ hash.status.terminal = false := by
  have hplaced := h.placed id
  have hcount := List.nodup_iff_count_le_one.mp h.once id
  rw [State.places] at hplaced
  obtain ⟨hash, hhash⟩ := (h.known id).mp (List.count_pos_iff.mp (by omega))
  refine ⟨by omega, by omega, hash, hhash, ?_⟩
  have hended : s.redis.ended id = 0 := by
    have hzero : s.redis.places id = 0 := by omega
    rw [Redis.places] at hzero
    omega
  simp only [Redis.ended, hhash] at hended
  cases hterminal : hash.status.terminal with
  | false => rfl
  | true =>
    rw [hterminal] at hended
    cases hended

theorem Custody.callHeld (h : Custody s) (hhand : (s.call c).phase.hand? = some id) :
    s.handing id + s.inHands id = 1 ∧ s.redis.places id = 0 ∧
      ∃ hash, s.redis.jobs.get? id = some hash ∧ hash.status.terminal = false := by
  have hle := Roster.le_weigh s.calls c (f := fun call => has id call.phase.hand?) rfl
  have hone : has id (s.call c).phase.hand? = 1 := by rw [hhand, has_some, if_pos rfl]
  refine h.held ?_
  simp only [State.handing, State.call] at hle hone ⊢
  omega

theorem Custody.workerHeld (h : Custody s) (hhand : (s.worker w).hand? = some id) :
    s.handing id + s.inHands id = 1 ∧ s.redis.places id = 0 ∧
      ∃ hash, s.redis.jobs.get? id = some hash ∧ hash.status.terminal = false := by
  have hle := Roster.le_weigh s.workers w (f := fun p => has id p.hand?) rfl
  have hone : has id (s.worker w).hand? = 1 := by rw [hhand, has_some, if_pos rfl]
  refine h.held ?_
  simp only [State.inHands, State.worker] at hle hone ⊢
  omega

/-- Two workers with the same job are one. -/
theorem Custody.one_worker (h : Custody s) {w' : Nat} (hw : (s.worker w).hand? = some id)
    (hw' : (s.worker w').hand? = some id) : w = w' := by
  by_contra hne
  obtain ⟨hone, _, _⟩ := h.workerHeld hw
  have hle := Roster.add_le_weigh s.workers hne (f := fun p => has id p.hand?) rfl
  simp only [State.inHands, State.worker] at hw hw' hle hone
  simp only [hw, hw', has_some, if_true] at hle
  omega

theorem Custody.not_set (h : Custody s) (hhand : (s.worker w).hand? = some id) : s.redis.set id = 0 := by
  obtain ⟨_, hzero, _⟩ := h.workerHeld hhand
  rw [Redis.places, Redis.queued] at hzero
  omega

/-- A step that leaves calls and workers alone. -/
theorem Custody.still (h : Custody s) (hcalls : u.calls = s.calls) (hworkers : u.workers = s.workers)
    (hcreated : u.created = s.created)
    (hknown : ∀ id, (∃ h, u.redis.jobs.get? id = some h) ↔ ∃ h, s.redis.jobs.get? id = some h)
    (hplaces : ∀ id, u.redis.places id = s.redis.places id) : Custody u := by
  refine ⟨fun id => ?_, hcreated ▸ h.once, fun id => ?_, fun c => ?_, fun w => ?_⟩
  · rw [State.places, State.handing, State.inHands, hcalls, hworkers, hplaces, hcreated]
    exact h.placed id
  · rw [hcreated, hknown]
    exact h.known id
  · rw [State.call, hcalls]
    exact h.call c
  · rw [State.worker, hworkers]
    exact h.worker w

/-- A write that neither ends the job nor finds it ended. -/
theorem places_open {r : Redis} {hash : JobHash} (hget : r.jobs.get? id = some hash)
    (hopen : hash.status.terminal = false) {f : JobHash → JobHash} (hafter : (f hash).status.terminal = false)
    (id' : JobId) : (r.hset id f).places id' = r.places id' := by
  have hplaces := Redis.places_hset hget f id'
  simp only [hopen, hafter, Bool.toNat_false] at hplaces
  split at hplaces <;> omega

/-- A write that ends the job. -/
theorem places_close {r : Redis} {hash : JobHash} (hget : r.jobs.get? id = some hash)
    (hopen : hash.status.terminal = false) {f : JobHash → JobHash} (hafter : (f hash).status.terminal = true)
    (id' : JobId) : (r.hset id f).places id' = r.places id' + has id' (some id) := by
  have hplaces := Redis.places_hset hget f id'
  simp only [hopen, hafter, Bool.toNat_false, Bool.toNat_true] at hplaces
  rw [has_some]
  split at hplaces <;> rename_i hid
  · rw [if_pos hid]
    omega
  · rw [if_neg hid]
    omega

theorem Write.apply_closes {write : Write} {now : Time} (hash : JobHash) (h : write.closes = true) :
    (write.apply now hash).status.terminal = true := by
  cases write with
  | updateStatus status started finished => exact h
  | setResult result => cases h
  | setError info => cases h

theorem Write.apply_open {write : Write} {now : Time} {hash : JobHash} (h : write.closes = false)
    (hopen : hash.status.terminal = false) : (write.apply now hash).status.terminal = false := by
  cases write with
  | updateStatus status started finished => exact h
  | setResult result => exact hopen
  | setError info => exact hopen

theorem Write.ends_cons {write : Write} {rest : List Write} (h : Write.ends (write :: rest) = true) :
    (rest = [] ∧ write.closes = true) ∨ (rest ≠ [] ∧ write.closes = false ∧ Write.ends rest = true) := by
  cases rest with
  | nil => exact .inl ⟨rfl, h⟩
  | cons next rest =>
    simp only [Write.ends, Bool.and_eq_true] at h
    refine .inr ⟨List.cons_ne_nil next rest, ?_, h.2⟩
    cases write with
    | updateStatus status started finished => cases h.1
    | setResult result => rfl
    | setError info => rfl

theorem hand_afterCreate (cfg : Config) (request : Request) (t : Ticket) :
    (State.afterCreate cfg request t).hand? = if t.reused then none else some t.id := by
  simp only [State.afterCreate]
  split <;> rfl

theorem callOk_afterCreate (cfg : Config) (request : Request) (t : Ticket) :
    CallOk ⟨request, State.afterCreate cfg request t⟩ := by
  simp only [State.afterCreate]
  split <;> trivial

/-- A call's step that leaves Redis alone. -/
theorem Custody.callPhase (h : Custody s) {phase : CallPhase} (hok : CallOk ⟨(s.call c).request, phase⟩)
    (hhand : phase.hand? = (s.call c).phase.hand?) : Custody (s.setCall c phase) :=
  h.callStep rfl rfl rfl (fun _ => Iff.rfl) hok fun id => congrArg (has id · + s.redis.places id) hhand

theorem Custody.workerPhase (h : Custody s) {p : Worker} (hok : WorkerOk p)
    (hhand : p.hand? = (s.worker w).hand?) : Custody (s.setWorker w p) :=
  h.workerStep rfl rfl rfl (fun _ => Iff.rfl) hok fun id => congrArg (has id · + s.redis.places id) hhand

/-- A new job is in the hands of the call that creates it. -/
theorem Custody.create (h : Custody s) {call : Call} {hash : JobHash} (hphase : (s.call c).phase = .creating)
    (hnone : s.redis.jobs.get? id = none) (hcalls : u.calls = s.calls.set c call)
    (hworkers : u.workers = s.workers) (hcreated : u.created = id :: s.created)
    (hjobs : u.redis.jobs = s.redis.jobs.set id hash) (hopen : hash.status.terminal = false)
    (hqueues : u.redis.queues = s.redis.queues)
    (hok : CallOk call) (hhand : call.phase.hand? = some id) : Custody u := by
  have hnew : id ∉ s.created := by
    intro hmem
    obtain ⟨old, hold⟩ := (h.known id).mp hmem
    cases hnone.symm.trans hold
  have hplaces : ∀ id', u.redis.places id' = s.redis.places id' := by
    intro id'
    simp only [Redis.places, Redis.queued, Redis.listed, Redis.set, Redis.ended, hqueues, hjobs, Dict.get?_set]
    by_cases hid : id = id'
    · subst hid
      simp only [if_true, hnone, hopen, Bool.toNat_false]
    · simp only [if_neg hid]
  refine ⟨fun id' => ?_, hcreated ▸ h.once.cons hnew, fun id' => ?_, fun c' => ?_, fun w => ?_⟩
  · have hset := Roster.weigh_set s.calls c call (f := fun call => has id' call.phase.hand?) rfl
    have hbefore := h.placed id'
    have hcount : (id :: s.created).count id' = s.created.count id' + has id' (some id) := by
      rw [List.count_cons, has_some]
      simp only [beq_iff_eq]
    have hempty : has id' (s.call c).phase.hand? = 0 := by rw [hphase]; rfl
    rw [hcreated, hcount]
    simp only [State.places, State.handing, State.inHands, State.call, hcalls, hworkers, hplaces, hhand]
      at hbefore hempty hset ⊢
    omega
  · rw [hcreated, hjobs, Dict.get?_set, List.mem_cons, h.known]
    by_cases hid : id = id'
    · rw [if_pos hid]
      exact ⟨fun _ => ⟨hash, rfl⟩, fun _ => .inl hid.symm⟩
    · rw [if_neg hid]
      exact ⟨fun hor => hor.resolve_left fun heq => hid heq.symm, .inr⟩
  · rw [State.call, hcalls, Roster.phase_set]
    split
    · exact hok
    · exact h.call c'
  · rw [State.worker, hworkers]
    exact h.worker w

/-- A write by the one that has the job: what leaves its hand is what the write ends. -/
theorem hand_places_write {r : Redis} {hash : JobHash} (hget : r.jobs.get? id = some hash)
    (hopen : hash.status.terminal = false) (write : Write) (now : Time) (id' : JobId) :
    has id' (if write.closes then none else some id) + (r.hset id (write.apply now)).places id' =
      has id' (some id) + r.places id' := by
  cases hcloses : write.closes with
  | true =>
    rw [places_close hget hopen (Write.apply_closes hash hcloses), if_pos rfl]
    exact (Nat.zero_add _).trans (Nat.add_comm _ _)
  | false =>
    rw [places_open hget hopen (Write.apply_open hcloses hopen)]
    rfl

/-- A call writes its job's hash on the sandbox route. -/
theorem Custody.callWrite (h : Custody s) (hhand : (s.call c).phase.hand? = some id) {write : Write}
    {phase : CallPhase} (hok : CallOk ⟨(s.call c).request, phase⟩)
    (hafter : phase.hand? = if write.closes then none else some id) :
    Custody ((s.hset id write).setCall c phase) := by
  obtain ⟨_, _, hash, hget, hopen⟩ := h.callHeld hhand
  refine h.callStep rfl rfl rfl (fun id' => Redis.known_hset _ _ _ _) hok fun id' => ?_
  rw [hhand, hafter]
  exact hand_places_write hget hopen write s.now id'

theorem Custody.workerWrite (h : Custody s) (hhand : (s.worker w).hand? = some id) {write : Write} {p : Worker}
    (hok : WorkerOk p) (hafter : p.hand? = if write.closes then none else some id) :
    Custody ((s.hset id write).setWorker w p) := by
  obtain ⟨_, _, hash, hget, hopen⟩ := h.workerHeld hhand
  refine h.workerStep rfl rfl rfl (fun id' => Redis.known_hset _ _ _ _) hok fun id' => ?_
  rw [hhand, hafter]
  exact hand_places_write hget hopen write s.now id'

/-- What a worker concludes ends the job, unless it schedules a retry. -/
theorem workerOk_conclude {seat : Seat} {job : JobHash} {attempt : Nat} {outcome : Outcome} {writes : List Write}
    {delay : Option Nat} (hconclude : State.conclude seat job attempt outcome = some (writes, delay)) :
    WorkerOk (.writing seat id writes delay) := by
  cases outcome with
  | timedOut | silent | ok result =>
    cases hconclude
    rfl
  | error errType message traceback =>
    rcases State.conclude_error hconclude with ⟨_, rfl, rfl⟩ | ⟨rfl, rfl⟩
    · intro write hmem
      rcases List.mem_cons.mp hmem with rfl | hmem
      · rfl
      · rw [List.mem_singleton.mp hmem]
        rfl
    · rfl

theorem hand_afterPush (request : Request) (t : Ticket) : (s.afterPush request t).hand? = none := by
  simp only [State.afterPush]
  split <;> rfl

theorem callOk_afterPush (request : Request) (t : Ticket) : CallOk ⟨request, s.afterPush request t⟩ := by
  simp only [State.afterPush]
  split <;> trivial

theorem custody_step {cfg : Config} {e : Event} (h : Custody s) (hrule : oneExecutor e s)
    (hstep : (service cfg).step e s = some u) : Custody u := by
  cases step_some hstep with
  | tick hnow => exact h.still rfl rfl rfl (fun _ => Iff.rfl) fun _ => rfl
  | cancel hget =>
    refine h.still rfl rfl rfl (fun id' => Redis.known_hset _ _ _ _) fun id' => ?_
    have hplaces := Redis.places_hset hget (fun h => {h with cancelRequested := true}) id'
    exact Nat.add_right_cancel hplaces
  | submit hphase hnew =>
    rcases hnew with rfl | ⟨_, message, rfl⟩
    · exact h.callStep rfl rfl rfl (fun _ => Iff.rfl) trivial fun id => by rw [hphase]; rfl
    · exact h.callStep rfl rfl rfl (fun _ => Iff.rfl) trivial fun id => by rw [hphase]; rfl
  | hit hphase hkey hget =>
    refine h.callPhase (callOk_afterCreate cfg _ _) ?_
    rw [hand_afterCreate, hphase]
    rfl
  | miss hphase hmiss => exact h.callPhase trivial (by rw [hphase]; rfl)
  | create hphase hnone hencode =>
    exact h.create hphase hnone rfl rfl rfl rfl rfl rfl (callOk_afterCreate cfg _ _) (hand_afterCreate cfg _ _)
  | unencoded hphase hencode => exact h.callPhase trivial (by rw [hphase]; rfl)
  | @mark c t hphase =>
    obtain ⟨hnew, hwait⟩ := hrule t hphase
    have hhand : (s.call c).phase.hand? = some t.id := by simp only [hphase, CallPhase.hand?, hnew]; rfl
    have hwrite : Custody ((s.hset t.id (.updateStatus .running true false)).setCall c (.posting t s.now)) :=
      h.callWrite hhand ⟨hnew, hwait⟩ (by simp only [CallPhase.hand?, hnew]; rfl)
    exact ⟨hwrite.placed, hwrite.once, hwrite.known, hwrite.call, hwrite.worker⟩
  | @post c _ t t0 success writes hphase hends =>
    have hcall := h.call c
    simp only [CallOk, hphase] at hcall
    exact h.callPhase ⟨hcall.1, hcall.2, hends⟩ (by rw [hphase]; rfl)
  | @write c t t0 success write rest hphase =>
    have hcall := h.call c
    simp only [CallOk, hphase] at hcall
    obtain ⟨hnew, hwait, hends⟩ := hcall
    have hhand : (s.call c).phase.hand? = some t.id := by simp only [hphase, CallPhase.hand?, hnew]; rfl
    rcases Write.ends_cons hends with ⟨rfl, hcloses⟩ | ⟨hmore, hcloses, hrest⟩
    · rw [if_pos rfl]
      exact h.callWrite hhand ⟨hnew, hwait⟩ (by rw [hcloses]; rfl)
    · rw [if_neg hmore]
      exact h.callWrite hhand ⟨hnew, hwait, hrest⟩ (by simp [hcloses, CallPhase.hand?, hnew])
  | @caught c t t0 message hphase => cases hrule t t0 hphase
  | uncaught hphase => exact h.callPhase trivial (by rw [hphase]; rfl)
  | @recorded c t t0 success hphase =>
    have hcall := h.call c
    simp only [CallOk, hphase] at hcall
    rw [if_pos hcall.2]
    exact h.callPhase trivial (by rw [hphase]; rfl)
  | reread hphase => exact h.callPhase trivial (by rw [hphase]; rfl)
  | skip hphase hreused =>
    refine h.callPhase (callOk_afterPush _ _) ?_
    rw [hand_afterPush, hphase, CallPhase.hand?, if_pos hreused]
  | @push c t redis hphase hnew hpush =>
    refine h.callStep rfl rfl rfl (Redis.known_of_jobs (Redis.push_frame hpush).1) (callOk_afterPush _ _) fun id => ?_
    have hplaces := Redis.places_push hpush id
    rw [hand_afterPush, hphase, CallPhase.hand?, hnew]
    show 0 + redis.places id = has id (some t.id) + s.redis.places id
    omega
  | refused hphase hnew hpush => exact h.callPhase trivial (by rw [hphase]; rfl)
  | poll hphase => exact h.callPhase trivial (by rw [hphase]; rfl)
  | again hphase => exact h
  | pump hphase => exact h.workerPhase trivial (by rw [hphase]; rfl)
  | @zpopmin w id seat now left score redis hphase hpop =>
    refine h.workerStep rfl rfl rfl (Redis.known_of_jobs (Redis.zpopmin_frame hpop).1) trivial fun id' => ?_
    have hplaces := Redis.places_zpopmin hpop id'
    rw [hphase]
    show has id' (some id) + redis.places id' = 0 + s.redis.places id'
    omega
  | endPump hphase => exact h.workerPhase trivial (by rw [hphase]; rfl)
  | @putBack w seat now left id score redis hphase hadd =>
    refine h.workerStep rfl rfl rfl (Redis.known_of_jobs (Redis.zadd_frame hadd).1) trivial fun id' => ?_
    have hplaces := Redis.places_zadd hadd (h.not_set (w := w) (by rw [hphase]; rfl)) id'
    rw [hphase]
    show 0 + redis.places id' = has id' (some id) + s.redis.places id'
    omega
  | @putReady w seat now left id score redis hphase hdue hpush =>
    refine h.workerStep rfl rfl rfl (Redis.known_of_jobs (Redis.push_frame hpush).1) trivial fun id' => ?_
    have hplaces := Redis.places_push hpush id'
    rw [hphase]
    show 0 + redis.places id' = has id' (some id) + s.redis.places id'
    omega
  | @brpop w seat id redis hphase hpop =>
    refine h.workerStep rfl rfl rfl (Redis.known_of_jobs (Redis.pop_frame hpop).1) trivial fun id' => ?_
    have hplaces := Redis.places_pop hpop id'
    rw [hphase]
    show has id' (some id) + redis.places id' = 0 + s.redis.places id'
    omega
  | giveUp hphase => exact h.workerPhase trivial (by rw [hphase]; rfl)
  | load hphase hget => exact h.workerPhase trivial (by rw [hphase]; rfl)
  | @lose w seat id hphase hnone =>
    obtain ⟨_, _, hash, hget, _⟩ := h.workerHeld (show (s.worker w).hand? = some id by rw [hphase]; rfl)
    cases hnone.symm.trans hget
  | cancelled hphase hcancel => exact h.workerWrite (by rw [hphase]; rfl) trivial rfl
  | begin hphase hcancel => exact h.workerWrite (by rw [hphase]; rfl) trivial rfl
  | @count w seat id job hphase =>
    obtain ⟨_, _, hash, hget, hopen⟩ := h.workerHeld (show (s.worker w).hand? = some id by rw [hphase]; rfl)
    refine h.workerStep rfl rfl rfl (fun id' => Redis.known_hset _ _ _ _) trivial fun id' => ?_
    rw [hphase]
    exact congrArg (has id' (some id) + ·) (places_open hget hopen hopen id')
  | start hphase =>
    refine h.workerStep rfl rfl rfl (fun _ => Iff.rfl) trivial fun id' => ?_
    rw [hphase]
    rfl
  | finish hphase hconclude => exact h.workerPhase (workerOk_conclude hconclude) (by rw [hphase]; rfl)
  | @writeBack w seat id write rest delay hphase =>
    have hworker := h.worker w
    rw [hphase] at hworker
    cases delay with
    | none =>
      rcases Write.ends_cons hworker with ⟨rfl, hcloses⟩ | ⟨hmore, hcloses, hrest⟩
      · rw [if_pos ⟨rfl, rfl⟩]
        exact h.workerWrite (by rw [hphase]; rfl) trivial (by rw [hcloses]; rfl)
      · rw [if_neg fun hdone => hmore hdone.1]
        exact h.workerWrite (by rw [hphase]; rfl) hrest (by rw [hcloses]; rfl)
    | some delay =>
      rw [if_neg fun hdone => Option.some_ne_none delay hdone.2]
      have hcloses := hworker write List.mem_cons_self
      exact h.workerWrite (by rw [hphase]; rfl) (fun w hw => hworker w (List.mem_cons_of_mem _ hw))
        (by rw [hcloses]; rfl)
  | @schedule w seat id delay redis hphase hadd =>
    refine h.workerStep rfl rfl rfl (Redis.known_of_jobs (Redis.zadd_frame hadd).1) trivial fun id' => ?_
    have hplaces := Redis.places_zadd hadd (h.not_set (w := w) (by rw [hphase]; rfl)) id'
    rw [hphase]
    show 0 + redis.places id' = has id' (some id) + s.redis.places id'
    omega

theorem custody_init : Custody {} := by
  refine ⟨fun _ => rfl, List.nodup_nil, fun id => ?_, fun _ => trivial, fun _ => trivial⟩
  simp

theorem custody_reachable {cfg : Config} (h : (service cfg).Reachable oneExecutor s) : Custody s := by
  refine Transition.System.reachable_invariant (I := Custody) (fun s hs => ?_) (fun _ _ _ => custody_step) h
  rw [show s = {} from hs]
  exact custody_init

end Steps

end SynQc.Agents
