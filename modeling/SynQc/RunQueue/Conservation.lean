import SynQc.Library.Roster
import SynQc.Library.Transition
import SynQc.RunQueue.Redis

/-! Enqueuers and workers on one Redis.

API processes enqueue; workers loop through `claim_next`, `mark_running`, the run itself
and one of the completions. Each command is a step of its own, so between two commands of
one process anything can happen in the others. Nobody crashes, and the ids of new jobs are
fresh, as uuids are.

Where a job is, is a matter of counting (`Custody.placed`): it is in the list, with a
worker or done, and the three add up to the number of times it was enqueued. What was
started is counted the same way. The counters in Redis are then sums over these places. -/
namespace SynQc.RunQueue

open Jobs (JobStatus Report)

/-- Where a worker's loop stands. -/
inductive Phase where
  | idle
  | popped (id : RunId)
  | claimed (job : QueuedRun)
  | marked (job : QueuedRun)
  | running (job : QueuedRun)
  | executing (job : QueuedRun)
  | reported (job : QueuedRun) (outcome : Except Report RunExperimentResponse)

instance : Inhabited Phase := ⟨.idle⟩

namespace Phase

/-- The job in the worker's hands. -/
def job? : Phase → Option RunId
  | .idle => none
  | .popped id => some id
  | .claimed job | .marked job | .running job | .executing job | .reported job _ => some job.id

/-- Whether the job still counts as queued, `mark_running` not being through. -/
def queued : Phase → Bool
  | .popped _ | .claimed _ | .marked _ => true
  | _ => false

/-- Whether the job counts as running. -/
def active : Phase → Bool
  | .running _ | .executing _ | .reported _ _ => true
  | _ => false

/-- Whether the job in hand is yet to be executed. -/
def unstarted : Phase → Bool
  | .popped _ | .claimed _ | .marked _ | .running _ => true
  | _ => false

def holds (id : RunId) (p : Phase) : Nat := if p.job? = some id then 1 else 0

def waits (id : RunId) (p : Phase) : Nat := if p.unstarted then p.holds id else 0

end Phase

structure Cluster where
  redis : Redis := {}
  workers : Roster Nat Phase := Dict.empty
  /-- Every job enqueued, and every execution started, latest first. -/
  enqueued : List RunId := []
  started : List RunId := []

inductive Event where
  | enqueue (id : RunId) (req : RunExperimentRequest) (sessionId : SessionId) (now : Time)
  | pop (w : Nat)
  | load (w : Nat) (now : Time)
  | markHash (w : Nat) (now : Time)
  | markCounts (w : Nat)
  | execute (w : Nat)
  | finish (w : Nat) (outcome : Except Report RunExperimentResponse)
  | complete (w : Nat) (now : Time)

namespace Cluster

def advance (c : Cluster) (w : Nat) (p : Phase) : Cluster := {c with workers := c.workers.set w p}

def enqueue (id : RunId) (req : RunExperimentRequest) (sessionId : SessionId) (now : Time) (c : Cluster) :
    Option Cluster :=
  match c.redis.jobs.get? id with
  | some _ => none
  | none => some {c with redis := c.redis.enqueue id req sessionId now, enqueued := id :: c.enqueued}

/-- `BLPOP`, once there is something to pop. -/
def pop (w : Nat) (c : Cluster) : Option Cluster :=
  match c.workers.phase w, c.redis.pending with
  | .idle, id :: rest => some ({c with redis := {c.redis with pending := rest}}.advance w (.popped id))
  | _, _ => none

def load (w : Nat) (now : Time) (c : Cluster) : Option Cluster :=
  match c.workers.phase w with
  | .popped id =>
    match c.redis.claim id now with
    | some job => some (c.advance w (.claimed job))
    | none => some (c.advance w .idle)
  | _ => none

def markHash (w : Nat) (now : Time) (c : Cluster) : Option Cluster :=
  match c.workers.phase w with
  | .claimed job =>
    let job := {job with startedAt := some now}
    some ({c with redis := c.redis.markHash job now}.advance w (.marked job))
  | _ => none

def markCounts (w : Nat) (c : Cluster) : Option Cluster :=
  match c.workers.phase w with
  | .marked job => some ({c with redis := c.redis.markCounts}.advance w (.running job))
  | _ => none

def execute (w : Nat) (c : Cluster) : Option Cluster :=
  match c.workers.phase w with
  | .running job => some ({c with started := job.id :: c.started}.advance w (.executing job))
  | _ => none

def finish (w : Nat) (outcome : Except Report RunExperimentResponse) (c : Cluster) : Option Cluster :=
  match c.workers.phase w with
  | .executing job => some (c.advance w (.reported job outcome))
  | _ => none

def complete (w : Nat) (now : Time) (c : Cluster) : Option Cluster :=
  match c.workers.phase w with
  | .reported job outcome => some ({c with redis := c.redis.complete job outcome now}.advance w .idle)
  | _ => none

end Cluster

def cluster : Transition.System Cluster Event where
  init c := c = {}
  step
    | .enqueue id req sessionId now => Cluster.enqueue id req sessionId now
    | .pop w => Cluster.pop w
    | .load w now => Cluster.load w now
    | .markHash w now => Cluster.markHash w now
    | .markCounts w => Cluster.markCounts w
    | .execute w => Cluster.execute w
    | .finish w outcome => Cluster.finish w outcome
    | .complete w now => Cluster.complete w now

/-! ### What a step can do -/

/-- The steps; a claim has two ways to go. -/
inductive Step (c : Cluster) : Event → Cluster → Prop where
  | enqueue {id : RunId} {req : RunExperimentRequest} {sessionId : SessionId} {now : Time}
      (hnone : c.redis.jobs.get? id = none) :
      Step c (.enqueue id req sessionId now)
        {c with redis := c.redis.enqueue id req sessionId now, enqueued := id :: c.enqueued}
  | pop {w : Nat} {id : RunId} {rest : List RunId} (hphase : c.workers.phase w = .idle)
      (hpending : c.redis.pending = id :: rest) :
      Step c (.pop w) ({c with redis := {c.redis with pending := rest}}.advance w (.popped id))
  | load {w : Nat} {id : RunId} {now : Time} {job : QueuedRun} (hphase : c.workers.phase w = .popped id)
      (hclaim : c.redis.claim id now = some job) : Step c (.load w now) (c.advance w (.claimed job))
  | drop {w : Nat} {id : RunId} {now : Time} (hphase : c.workers.phase w = .popped id)
      (hclaim : c.redis.claim id now = none) : Step c (.load w now) (c.advance w .idle)
  | markHash {w : Nat} {now : Time} {job : QueuedRun} (hphase : c.workers.phase w = .claimed job) :
      Step c (.markHash w now) ({c with redis := c.redis.markHash {job with startedAt := some now} now}.advance w
        (.marked {job with startedAt := some now}))
  | markCounts {w : Nat} {job : QueuedRun} (hphase : c.workers.phase w = .marked job) :
      Step c (.markCounts w) ({c with redis := c.redis.markCounts}.advance w (.running job))
  | execute {w : Nat} {job : QueuedRun} (hphase : c.workers.phase w = .running job) :
      Step c (.execute w) ({c with started := job.id :: c.started}.advance w (.executing job))
  | finish {w : Nat} {job : QueuedRun} {outcome : Except Report RunExperimentResponse}
      (hphase : c.workers.phase w = .executing job) :
      Step c (.finish w outcome) (c.advance w (.reported job outcome))
  | complete {w : Nat} {now : Time} {job : QueuedRun} {outcome : Except Report RunExperimentResponse}
      (hphase : c.workers.phase w = .reported job outcome) :
      Step c (.complete w now) ({c with redis := c.redis.complete job outcome now}.advance w .idle)

theorem step_some {c u : Cluster} {e : Event} (h : cluster.step e c = some u) : Step c e u := by
  cases e with
  | enqueue id req sessionId now =>
    change c.enqueue id req sessionId now = some u at h
    simp only [Cluster.enqueue] at h
    split at h <;> cases h
    rename_i hnone
    exact .enqueue hnone
  | pop w =>
    change c.pop w = some u at h
    simp only [Cluster.pop] at h
    split at h <;> cases h
    rename_i hphase hpending
    exact .pop hphase hpending
  | load w now =>
    change c.load w now = some u at h
    simp only [Cluster.load] at h
    split at h
    · rename_i hphase
      split at h <;> cases h
      · rename_i hclaim
        exact .load hphase hclaim
      · rename_i hclaim
        exact .drop hphase hclaim
    · cases h
  | markHash w now =>
    change c.markHash w now = some u at h
    simp only [Cluster.markHash] at h
    split at h <;> cases h
    rename_i hphase
    exact .markHash hphase
  | markCounts w =>
    change c.markCounts w = some u at h
    simp only [Cluster.markCounts] at h
    split at h <;> cases h
    rename_i hphase
    exact .markCounts hphase
  | execute w =>
    change c.execute w = some u at h
    simp only [Cluster.execute] at h
    split at h <;> cases h
    rename_i hphase
    exact .execute hphase
  | finish w outcome =>
    change c.finish w outcome = some u at h
    simp only [Cluster.finish] at h
    split at h <;> cases h
    rename_i hphase
    exact .finish hphase
  | complete w now =>
    change c.complete w now = some u at h
    simp only [Cluster.complete] at h
    split at h <;> cases h
    rename_i hphase
    exact .complete hphase

/-! ### Counting -/

namespace Redis

/-- Whether the job's hash is terminal, as a number. -/
def ended (r : Redis) (id : RunId) : Nat :=
  match r.jobs.get? id with
  | some h => h.terminal.toNat
  | none => 0

def withStatus (r : Redis) (status : JobStatus) : Nat :=
  r.jobs.total fun _ h => if h.status = some status then 1 else 0

section Hashes
variable {r r' : Redis} {id : RunId} {h : JobHash}

theorem ended_set (hjobs : r'.jobs = r.jobs.set id h) (id' : RunId) :
    r'.ended id' = if id = id' then h.terminal.toNat else r.ended id' := by
  simp only [ended, hjobs, Dict.get?_set]
  by_cases hid : id = id'
  · rw [if_pos hid, if_pos hid]
  · rw [if_neg hid, if_neg hid]

theorem withStatus_new (hjobs : r'.jobs = r.jobs.set id h) (hnone : r.jobs.get? id = none) (status : JobStatus) :
    r'.withStatus status = r.withStatus status + if h.status = some status then 1 else 0 := by
  rw [withStatus, hjobs, Dict.total_set_none hnone]
  rfl

theorem withStatus_set {old : JobHash} (hjobs : r'.jobs = r.jobs.set id h) (hold : r.jobs.get? id = some old)
    (status : JobStatus) : r'.withStatus status + (if old.status = some status then 1 else 0) =
      r.withStatus status + if h.status = some status then 1 else 0 := by
  rw [withStatus, hjobs]
  exact Dict.total_set_some hold _ h

/-- A hash that is not terminal does not count as succeeded or failed. -/
theorem not_terminal_status (hopen : h.terminal = false) : h.status ≠ some .succeeded ∧ h.status ≠ some .failed := by
  refine ⟨fun hs => ?_, fun hs => ?_⟩ <;> simp [JobHash.terminal, hs, JobStatus.terminal] at hopen

end Hashes

end Redis

namespace Cluster

/-- How many workers have the job. -/
def held (c : Cluster) (id : RunId) : Nat := c.workers.weigh (Phase.holds id)

/-- How many have it and did not start it. -/
def waiting (c : Cluster) (id : RunId) : Nat := c.workers.weigh (Phase.waits id)

/-- Jobs claimed whose `mark_running` counters are not applied. -/
def claimed (c : Cluster) : Nat := c.workers.weigh fun p => p.queued.toNat

/-- Jobs past `mark_running` and not completed. -/
def running (c : Cluster) : Nat := c.workers.weigh fun p => p.active.toNat

/-- How many jobs have each status, by where they are. -/
def census (c : Cluster) : JobStatus → Nat
  | .queued => c.redis.pending.length + c.claimed
  | .running => c.running
  | .succeeded => c.redis.withStatus .succeeded
  | .failed => c.redis.withStatus .failed

end Cluster

/-- Every enqueued job is in one place, and is started at most once. -/
structure Custody (c : Cluster) : Prop where
  placed : ∀ id, c.redis.pending.count id + c.held id + c.redis.ended id = c.enqueued.count id
  unstarted : ∀ id, c.redis.pending.count id + c.waiting id + c.started.count id = c.enqueued.count id
  once : c.enqueued.Nodup
  known : ∀ id, id ∈ c.enqueued ↔ ∃ h, c.redis.jobs.get? id = some h
  whole : ∀ id h, c.redis.jobs.get? id = some h → h.request.isSome = true

/-- The counters in Redis are the census, and the census is complete. -/
structure Balanced (c : Cluster) : Prop where
  counted : ∀ status, c.redis.counted status = c.census status
  complete : c.census .queued + c.census .running + c.census .succeeded + c.census .failed = c.enqueued.length

/-- A step that moves counters and census alike. -/
theorem Balanced.move {c u : Cluster} (h : Balanced c) (d : JobStatus → Int)
    (hcounted : ∀ status, u.redis.counted status = c.redis.counted status + d status)
    (hcensus : ∀ status, (u.census status : Int) = c.census status + d status)
    (hnew : (u.enqueued.length : Int) =
      c.enqueued.length + (d .queued + d .running + d .succeeded + d .failed)) : Balanced u := by
  refine ⟨fun status => ?_, ?_⟩
  · rw [hcounted, hcensus, h.counted]
  · have hqueued := hcensus .queued
    have hrunning := hcensus .running
    have hsucceeded := hcensus .succeeded
    have hfailed := hcensus .failed
    have hcomplete := h.complete
    omega

section Steps
variable {c u : Cluster} {w : Nat} {id : RunId} {p : Phase}

/-! A worker's step moves every count as its phase does. -/

theorem weigh_workers (hworkers : u.workers = c.workers.set w p) {f : Phase → Nat} (hf : f .idle = 0) :
    u.workers.weigh f + f (c.workers.phase w) = c.workers.weigh f + f p := by
  rw [hworkers]
  exact Roster.weigh_set c.workers w p hf

theorem held_set (hworkers : u.workers = c.workers.set w p) (id : RunId) :
    u.held id + (c.workers.phase w).holds id = c.held id + p.holds id := weigh_workers hworkers rfl

theorem waiting_set (hworkers : u.workers = c.workers.set w p) (id : RunId) :
    u.waiting id + (c.workers.phase w).waits id = c.waiting id + p.waits id := weigh_workers hworkers rfl

theorem claimed_set (hworkers : u.workers = c.workers.set w p) :
    u.claimed + (c.workers.phase w).queued.toNat = c.claimed + p.queued.toNat :=
  weigh_workers hworkers (f := fun p => p.queued.toNat) rfl

theorem running_set (hworkers : u.workers = c.workers.set w p) :
    u.running + (c.workers.phase w).active.toNat = c.running + p.active.toNat :=
  weigh_workers hworkers (f := fun p => p.active.toNat) rfl

/-! ### Custody -/

/-- A job in a worker's hands is nowhere else, and its hash is there and not terminal. -/
theorem Custody.in_hand (h : Custody c) (hjob : (c.workers.phase w).job? = some id) :
    c.enqueued.count id = 1 ∧ c.redis.pending.count id = 0 ∧ c.held id = 1 ∧
      ∃ hash, c.redis.jobs.get? id = some hash ∧ hash.terminal = false ∧ hash.request.isSome = true := by
  have hone : 1 ≤ c.held id := by
    have hle := Roster.le_weigh c.workers w (f := Phase.holds id) rfl
    simp only [Phase.holds, hjob, if_true] at hle
    exact hle
  have hcount : c.enqueued.count id ≤ 1 := List.nodup_iff_count_le_one.mp h.once id
  have hplaced := h.placed id
  obtain ⟨hash, hhash⟩ := (h.known id).mp (List.count_pos_iff.mp (by omega))
  have hended : c.redis.ended id = hash.terminal.toNat := by simp only [Redis.ended, hhash]
  refine ⟨by omega, by omega, by omega, hash, hhash, ?_, h.whole id hash hhash⟩
  cases hterminal : hash.terminal with
  | false => rfl
  | true =>
    rw [hterminal] at hended
    simp only [Bool.toNat_true] at hended
    omega

/-- What a worker pops, it can claim. -/
theorem Custody.claims (h : Custody c) (hphase : c.workers.phase w = .popped id) (now : Time) :
    ∃ job, c.redis.claim id now = some job ∧ job.id = id := by
  obtain ⟨_, _, _, hash, hhash, _, hrequest⟩ := h.in_hand (show (c.workers.phase w).job? = some id by rw [hphase]; rfl)
  exact Redis.claim_some hhash hrequest now

/-- A worker's step that leaves list, hashes, logs and the job in hand alone. -/
theorem Custody.phase (h : Custody c) (hworkers : u.workers = c.workers.set w p)
    (hpending : u.redis.pending = c.redis.pending) (hjobs : u.redis.jobs = c.redis.jobs)
    (henqueued : u.enqueued = c.enqueued) (hstarted : u.started = c.started)
    (hjob : p.job? = (c.workers.phase w).job?) (hunstarted : p.unstarted = (c.workers.phase w).unstarted) :
    Custody u := by
  have hheld := held_set hworkers
  have hwaiting := waiting_set hworkers
  simp only [Phase.waits, Phase.holds, hjob, hunstarted] at hheld hwaiting
  refine ⟨fun id => ?_, fun id => ?_, henqueued ▸ h.once, ?_, ?_⟩
  · rw [hpending, Redis.ended, hjobs, henqueued, Nat.add_right_cancel (hheld id)]
    exact h.placed id
  · rw [hpending, henqueued, hstarted, Nat.add_right_cancel (hwaiting id)]
    exact h.unstarted id
  · rw [hjobs, henqueued]
    exact h.known
  · rw [hjobs]
    exact h.whole

/-- The head of the list goes to a worker. -/
theorem Custody.pop (h : Custody c) (hphase : c.workers.phase w = .idle)
    (hpending : c.redis.pending = id :: u.redis.pending) (hworkers : u.workers = c.workers.set w (.popped id))
    (hjobs : u.redis.jobs = c.redis.jobs) (henqueued : u.enqueued = c.enqueued) (hstarted : u.started = c.started) :
    Custody u := by
  have hcons : ∀ id', c.redis.pending.count id' = u.redis.pending.count id' + (Phase.popped id).holds id' :=
    fun id' => by simp only [hpending, List.count_cons, Phase.holds, Phase.job?, Option.some.injEq, beq_iff_eq]
  have hheld := held_set hworkers
  have hwaiting := waiting_set hworkers
  have hidle : ∀ id', Phase.idle.holds id' = 0 ∧ Phase.idle.waits id' = 0 := fun _ => ⟨rfl, rfl⟩
  have hpopped : ∀ id', (Phase.popped id).waits id' = (Phase.popped id).holds id' := fun _ => rfl
  rw [hphase] at hheld hwaiting
  refine ⟨fun id' => ?_, fun id' => ?_, henqueued ▸ h.once, ?_, ?_⟩
  · have hbefore := h.placed id'
    rw [Redis.ended, hjobs, henqueued]
    rw [hcons, Redis.ended] at hbefore
    have hmove := hheld id'
    have hzero := (hidle id').1
    omega
  · have hbefore := h.unstarted id'
    rw [henqueued, hstarted]
    rw [hcons] at hbefore
    have hmove := hwaiting id'
    have hzero := (hidle id').2
    have hsame := hpopped id'
    omega
  · rw [hjobs, henqueued]
    exact h.known
  · rw [hjobs]
    exact h.whole

/-- The job in a worker's hands is started. -/
theorem Custody.execute (h : Custody c) {job : QueuedRun} (hphase : c.workers.phase w = .running job)
    (hworkers : u.workers = c.workers.set w (.executing job)) (hredis : u.redis = c.redis)
    (henqueued : u.enqueued = c.enqueued) (hstarted : u.started = job.id :: c.started) : Custody u := by
  have hheld := held_set hworkers
  have hwaiting := waiting_set hworkers
  rw [hphase] at hheld hwaiting
  have hcons : ∀ id, u.started.count id = c.started.count id + (Phase.running job).waits id := fun id => by
    simp only [hstarted, List.count_cons, Phase.waits, Phase.unstarted, Phase.holds, Phase.job?,
      Option.some.injEq, beq_iff_eq, if_true]
  refine ⟨fun id => ?_, fun id => ?_, henqueued ▸ h.once, ?_, ?_⟩
  · rw [hredis, henqueued, Nat.add_right_cancel (hheld id)]
    exact h.placed id
  · have hbefore := h.unstarted id
    have hmove := hwaiting id
    have hzero : (Phase.executing job).waits id = 0 := rfl
    rw [hredis, henqueued, hcons]
    omega
  · rw [hredis, henqueued]
    exact h.known
  · rw [hredis]
    exact h.whole

/-- A worker's step that also writes the hash of the job in hand, and lets go of the job if the
hash is terminal now. -/
theorem Custody.rewrite (h : Custody c) (hjob : (c.workers.phase w).job? = some id) {hash : JobHash}
    (hworkers : u.workers = c.workers.set w p) (hpending : u.redis.pending = c.redis.pending)
    (hjobs : u.redis.jobs = c.redis.jobs.set id hash) (henqueued : u.enqueued = c.enqueued)
    (hstarted : u.started = c.started)
    (hrequest : hash.request = ((c.redis.jobs.get? id).getD {}).request)
    (hplaced : ∀ id', p.holds id' + (if id = id' then hash.terminal.toNat else 0) = if id = id' then 1 else 0)
    (hwaits : ∀ id', p.waits id' = (c.workers.phase w).waits id') : Custody u := by
  obtain ⟨hcount, hlist, hheld, old, hold, hopen, hold_request⟩ := h.in_hand hjob
  have hget : ∀ id', u.redis.jobs.get? id' = if id = id' then some hash else c.redis.jobs.get? id' := by
    intro id'
    rw [hjobs, Dict.get?_set]
  refine ⟨fun id' => ?_, fun id' => ?_, henqueued ▸ h.once, fun id' => ?_, fun id' hash' hhash' => ?_⟩
  · have hmove := held_set hworkers id'
    have hbefore := h.placed id'
    have hnow := hplaced id'
    rw [hpending, henqueued, Redis.ended_set hjobs]
    have hhold : (c.workers.phase w).holds id' = if id = id' then 1 else 0 := by
      simp only [Phase.holds, hjob, Option.some.injEq]
    by_cases hid : id = id'
    · subst hid
      have hended : c.redis.ended id = 0 := by simp only [Redis.ended, hold, hopen, Bool.toNat_false]
      simp only [if_true] at hnow hhold ⊢
      omega
    · simp only [hid, if_false] at hnow hhold ⊢
      omega
  · have hmove := waiting_set hworkers id'
    have hbefore := h.unstarted id'
    rw [hwaits] at hmove
    rw [hpending, henqueued, hstarted, Nat.add_right_cancel hmove]
    exact hbefore
  · rw [henqueued, h.known, hget]
    split
    · rename_i hid
      exact ⟨fun _ => ⟨hash, rfl⟩, fun _ => ⟨old, hid ▸ hold⟩⟩
    · rfl
  · rw [hget] at hhash'
    split at hhash'
    · cases hhash'
      rw [hrequest, hold]
      exact hold_request
    · exact h.whole id' hash' hhash'

theorem Custody.enqueue (h : Custody c) {req : RunExperimentRequest} {sessionId : SessionId} {now : Time}
    (hnone : c.redis.jobs.get? id = none) :
    Custody {c with redis := c.redis.enqueue id req sessionId now, enqueued := id :: c.enqueued} := by
  have hnew : id ∉ c.enqueued := by
    intro hmem
    obtain ⟨hash, hhash⟩ := (h.known id).mp hmem
    cases hnone.symm.trans hhash
  obtain ⟨hash, hopen, hrequest, hjobs⟩ : ∃ hash : JobHash, hash.terminal = false ∧
      hash.request.isSome = true ∧ (c.redis.enqueue id req sessionId now).jobs = c.redis.jobs.set id hash := by
    refine ⟨_, ?_, ?_, rfl⟩ <;> rfl
  have hpending : (c.redis.enqueue id req sessionId now).pending = c.redis.pending ++ [id] := rfl
  have hcount : ∀ id', (c.redis.pending ++ [id]).count id' = c.redis.pending.count id' + [id].count id' :=
    fun id' => List.count_append
  have hcons : ∀ id', (id :: c.enqueued).count id' = c.enqueued.count id' + [id].count id' := fun id' => by
    rw [List.count_cons, List.count_singleton]
  have hget : ∀ id', (c.redis.enqueue id req sessionId now).jobs.get? id' =
      if id = id' then some hash else c.redis.jobs.get? id' := by
    intro id'
    rw [hjobs, Dict.get?_set]
  refine ⟨fun id' => ?_, fun id' => ?_, h.once.cons hnew, fun id' => ?_, fun id' hash' hhash' => ?_⟩
  · have hbefore := h.placed id'
    show (c.redis.enqueue id req sessionId now).pending.count id' + c.held id' + _ = (id :: c.enqueued).count id'
    rw [hpending, hcount, hcons, Redis.ended_set hjobs, hopen]
    have hended : id = id' → c.redis.ended id' = 0 := by
      intro hid
      subst hid
      simp only [Redis.ended, hnone]
    split
    · rename_i hid
      have hzero := hended hid
      simp only [Bool.toNat_false]
      omega
    · omega
  · have hbefore := h.unstarted id'
    show (c.redis.enqueue id req sessionId now).pending.count id' + c.waiting id' + c.started.count id' =
      (id :: c.enqueued).count id'
    rw [hpending, hcount, hcons]
    omega
  · show id' ∈ id :: c.enqueued ↔ ∃ hash, (c.redis.enqueue id req sessionId now).jobs.get? id' = some hash
    rw [hget, List.mem_cons, h.known]
    split
    · rename_i hid
      exact ⟨fun _ => ⟨hash, rfl⟩, fun _ => .inl hid.symm⟩
    · rename_i hid
      exact ⟨fun hor => hor.resolve_left fun heq => hid heq.symm, .inr⟩
  · change (c.redis.enqueue id req sessionId now).jobs.get? id' = some hash' at hhash'
    rw [hget] at hhash'
    split at hhash'
    · cases hhash'
      exact hrequest
    · exact h.whole id' hash' hhash'

theorem custody_step {e : Event} (h : Custody c) (hstep : cluster.step e c = some u) : Custody u := by
  cases step_some hstep with
  | enqueue hnone => exact h.enqueue hnone
  | pop hphase hpending => exact h.pop hphase hpending rfl rfl rfl rfl
  | @load w id now job hphase hclaim =>
    obtain ⟨job', hclaim', hid⟩ := h.claims hphase now
    cases hclaim.symm.trans hclaim'
    exact h.phase rfl rfl rfl rfl rfl (by rw [hphase, ← hid]; rfl) (by rw [hphase]; rfl)
  | @drop w id now hphase hclaim =>
    obtain ⟨job, hclaim', _⟩ := h.claims hphase now
    cases hclaim.symm.trans hclaim'
  | markHash hphase =>
    refine h.rewrite (by rw [hphase]; rfl) rfl rfl rfl rfl rfl rfl (fun id' => ?_) fun id' => by rw [hphase]; rfl
    simp [Phase.holds, Phase.job?, JobHash.terminal, JobStatus.terminal]
  | markCounts hphase => exact h.phase rfl rfl rfl rfl rfl (by rw [hphase]; rfl) (by rw [hphase]; rfl)
  | execute hphase => exact h.execute hphase rfl rfl rfl rfl
  | finish hphase => exact h.phase rfl rfl rfl rfl rfl (by rw [hphase]; rfl) (by rw [hphase]; rfl)
  | @complete w now job outcome hphase =>
    obtain ⟨hash, hstatus, hrequest, _, _, hjobs⟩ := Redis.complete_jobs job outcome now c.redis
    refine h.rewrite (show (c.workers.phase w).job? = some job.id by rw [hphase]; rfl) rfl
      (Redis.complete_pending job outcome now c.redis) hjobs
      rfl rfl hrequest (fun id' => ?_) fun id' => by rw [hphase]; rfl
    have hterminal : hash.terminal = true := by
      simp only [JobHash.terminal, hstatus]
      cases outcome <;> rfl
    rw [hterminal]
    simp [Phase.holds, Phase.job?]

/-! ### The counters -/

/-- A worker's step moves the census by what it does to list, phase and hashes. -/
theorem census_set (hworkers : u.workers = c.workers.set w p) (d : JobStatus → Int)
    (hqueued : (u.redis.pending.length : Int) + p.queued.toNat =
      c.redis.pending.length + (c.workers.phase w).queued.toNat + d .queued)
    (hrunning : (p.active.toNat : Int) = (c.workers.phase w).active.toNat + d .running)
    (hsucceeded : (u.redis.withStatus .succeeded : Int) = c.redis.withStatus .succeeded + d .succeeded)
    (hfailed : (u.redis.withStatus .failed : Int) = c.redis.withStatus .failed + d .failed)
    (status : JobStatus) : (u.census status : Int) = c.census status + d status := by
  have hclaimed := claimed_set hworkers
  have hactive := running_set hworkers
  cases status with
  | queued =>
    simp only [Cluster.census, Nat.cast_add]
    omega
  | running =>
    simp only [Cluster.census]
    omega
  | succeeded => exact hsucceeded
  | failed => exact hfailed

theorem Balanced.phase (h : Balanced c) (hworkers : u.workers = c.workers.set w p) (hredis : u.redis = c.redis)
    (henqueued : u.enqueued = c.enqueued) (hqueued : p.queued = (c.workers.phase w).queued)
    (hactive : p.active = (c.workers.phase w).active) : Balanced u := by
  refine h.move (fun _ => 0) (fun _ => ?_) (census_set hworkers _ ?_ ?_ ?_ ?_) ?_
  · rw [hredis, add_zero]
  · rw [hredis, hqueued, add_zero]
  · rw [hactive, add_zero]
  · rw [hredis, add_zero]
  · rw [hredis, add_zero]
  · simp [henqueued]

/-- The change of a completion or a `mark_running`: one status down, another up. -/
def shift (source target : JobStatus) (status : JobStatus) : Int :=
  (if source = status then -1 else 0) + if target = status then 1 else 0

theorem shift_sum {source target : JobStatus} :
    shift source target .queued + shift source target .running + shift source target .succeeded +
      shift source target .failed = 0 := by
  cases source <;> cases target <;> decide

theorem Balanced.enqueue (h : Balanced c) {req : RunExperimentRequest} {sessionId : SessionId} {now : Time}
    (hnone : c.redis.jobs.get? id = none) :
    Balanced {c with redis := c.redis.enqueue id req sessionId now, enqueued := id :: c.enqueued} := by
  obtain ⟨hash, hstatus, hjobs⟩ : ∃ hash : JobHash, hash.status = some .queued ∧
      (c.redis.enqueue id req sessionId now).jobs = c.redis.jobs.set id hash := by
    refine ⟨_, ?_, rfl⟩
    rfl
  have hwith := Redis.withStatus_new hjobs hnone
  simp only [hstatus, Option.some.injEq] at hwith
  refine h.move (fun status => if .queued = status then 1 else 0) (fun status => ?_) (fun status => ?_) ?_
  · exact Redis.hincrby_counted _ .queued status 1
  · cases status with
    | queued =>
      show (((c.redis.pending ++ [id]).length + c.claimed : Nat) : Int) = (c.redis.pending.length + c.claimed : Nat) + 1
      rw [List.length_append, List.length_singleton]
      omega
    | running => exact (add_zero _).symm
    | succeeded | failed => exact congrArg Nat.cast (hwith _)
  · simp

theorem balanced_step {e : Event} (hc : Custody c) (h : Balanced c) (hstep : cluster.step e c = some u) :
    Balanced u := by
  cases step_some hstep with
  | enqueue hnone => exact h.enqueue hnone
  | @pop w id rest hphase hpending =>
    refine h.move (fun _ => 0) (fun _ => (add_zero _).symm) (census_set rfl _ ?_ ?_ (add_zero _).symm
      (add_zero _).symm) (by simp [Cluster.advance])
    · rw [hphase, hpending]
      show (rest.length : Int) + 1 = ((rest.length + 1 : Nat) : Int) + 0 + 0
      omega
    · rw [hphase]
      rfl
  | load hphase hclaim => exact h.phase rfl rfl rfl (by rw [hphase]; rfl) (by rw [hphase]; rfl)
  | @drop w id now hphase hclaim =>
    obtain ⟨job, hclaim', _⟩ := hc.claims hphase now
    cases hclaim.symm.trans hclaim'
  | @markHash w now job hphase =>
    obtain ⟨_, _, _, old, hold, hopen, _⟩ := hc.in_hand
      (show (c.workers.phase w).job? = some job.id by rw [hphase]; rfl)
    obtain ⟨hnot, hnot'⟩ := Redis.not_terminal_status hopen
    have hwith := Redis.withStatus_set
      (show (c.redis.markHash {job with startedAt := some now} now).jobs = c.redis.jobs.set job.id _ from rfl) hold
    refine h.move (fun _ => 0) (fun _ => (add_zero _).symm) (census_set rfl _ ?_ ?_ ?_ ?_) (by simp [Cluster.advance])
    · rw [hphase]
      rfl
    · rw [hphase]
      rfl
    · have hsame := hwith .succeeded
      simp only [hnot, if_false, add_zero] at hsame
      exact congrArg Nat.cast hsame
    · have hsame := hwith .failed
      simp only [hnot', if_false, add_zero] at hsame
      exact congrArg Nat.cast hsame
  | markCounts hphase =>
    refine h.move (shift .queued .running) (fun status => ?_) (census_set rfl _ ?_ ?_ ?_ ?_) ?_
    · show (c.redis.markCounts).counted status = _
      rw [Redis.markCounts, Redis.hincrby_counted, Redis.hincrby_counted, shift, add_assoc]
    · rw [hphase]
      show (c.redis.pending.length : Int) + 0 = c.redis.pending.length + 1 + -1
      omega
    · rw [hphase]
      rfl
    · exact (add_zero _).symm
    · exact (add_zero _).symm
    · rw [shift_sum, add_zero]
      rfl
  | execute hphase => exact h.phase rfl rfl rfl (by rw [hphase]; rfl) (by rw [hphase]; rfl)
  | finish hphase => exact h.phase rfl rfl rfl (by rw [hphase]; rfl) (by rw [hphase]; rfl)
  | @complete w now job outcome hphase =>
    obtain ⟨_, _, _, old, hold, hopen, _⟩ := hc.in_hand
      (show (c.workers.phase w).job? = some job.id by rw [hphase]; rfl)
    obtain ⟨hash, hstatus, _, _, _, hjobs⟩ := Redis.complete_jobs job outcome now c.redis
    have hwith := Redis.withStatus_set hjobs hold
    have hpending := Redis.complete_pending job outcome now c.redis
    obtain ⟨hnot, hnot'⟩ := Redis.not_terminal_status hopen
    have hsucceeded := hwith .succeeded
    have hfailed := hwith .failed
    simp only [hnot, if_false, add_zero, hstatus, Option.some.injEq] at hsucceeded
    simp only [hnot', if_false, add_zero, hstatus, Option.some.injEq] at hfailed
    refine h.move (shift .running (Redis.endStatus outcome)) (fun status => ?_) (census_set rfl _ ?_ ?_ ?_ ?_) ?_
    · rw [shift, ← add_assoc]
      exact Redis.complete_counted job outcome now c.redis status
    · rw [hphase]
      show ((c.redis.complete job outcome now).pending.length : Int) + 0 = c.redis.pending.length + 0 + _
      rw [hpending]
      cases outcome <;> rfl
    · rw [hphase]
      cases outcome <;> rfl
    · refine (congrArg Nat.cast hsucceeded).trans ?_
      cases outcome <;> rfl
    · refine (congrArg Nat.cast hfailed).trans ?_
      cases outcome <;> rfl
    · rw [shift_sum, add_zero]
      rfl

end Steps

/-! ### Conservation -/

theorem conserved_reachable {c : Cluster} (h : cluster.Reachable Transition.anything c) :
    Custody c ∧ Balanced c := by
  refine Transition.System.reachable_invariant (I := fun c => Custody c ∧ Balanced c) ?_ ?_ h
  · intro c hc
    subst hc
    refine ⟨⟨fun _ => rfl, fun _ => rfl, List.nodup_nil, fun id => ?_, fun id hash hhash => ?_⟩, fun status => ?_, rfl⟩
    · simp
    · cases hhash
    · cases status <;> rfl
  · intro e c u hkept _ hstep
    obtain ⟨hcustody, hbalanced⟩ := hkept
    exact ⟨custody_step hcustody hstep, balanced_step hcustody hbalanced hstep⟩

/-- Where a job can be. -/
inductive Place where
  | pending
  | hand (w : Nat)
  | terminal
  deriving DecidableEq

def Cluster.At (c : Cluster) (id : RunId) : Place → Prop
  | .pending => id ∈ c.redis.pending
  | .hand w => (c.workers.phase w).job? = some id
  | .terminal => ∃ hash, c.redis.jobs.get? id = some hash ∧ hash.terminal = true

section Places
variable {c : Cluster} {id : RunId}

theorem ended_pos : 0 < c.redis.ended id ↔ c.At id .terminal := by
  simp only [Redis.ended, Cluster.At]
  cases c.redis.jobs.get? id with
  | none => simp
  | some hash => cases h : hash.terminal <;> simp [h]

theorem held_pos : 0 < c.held id ↔ ∃ w, c.At id (.hand w) := by
  constructor
  · intro hpos
    obtain ⟨w, hw⟩ := Roster.exists_of_weigh_pos hpos
    refine ⟨w, ?_⟩
    by_contra hne
    simp only [Phase.holds, if_neg (show ¬(c.workers.phase w).job? = some id from hne)] at hw
    omega
  · rintro ⟨w, hw⟩
    have hle := Roster.le_weigh c.workers w (f := Phase.holds id) rfl
    simp only [Phase.holds, show (c.workers.phase w).job? = some id from hw, if_true] at hle
    exact hle

/-- Two workers with one job would count it twice. -/
theorem Custody.one_hand (h : Custody c) {w w' : Nat} (hw : c.At id (.hand w)) (hw' : c.At id (.hand w')) :
    w = w' := by
  by_contra hne
  have hle := Roster.add_le_weigh c.workers hne (f := Phase.holds id) rfl
  simp only [Phase.holds, show (c.workers.phase w).job? = some id from hw,
    show (c.workers.phase w').job? = some id from hw', if_true] at hle
  have htwo : 2 ≤ c.held id := hle
  have hplaced := h.placed id
  have hcount := List.nodup_iff_count_le_one.mp h.once id
  omega

theorem Custody.one_place (h : Custody c) (hmem : id ∈ c.enqueued) : ∃! place, c.At id place := by
  have hplaced := h.placed id
  have hone : c.enqueued.count id = 1 := List.count_eq_one_of_mem h.once hmem
  have hpending : 0 < c.redis.pending.count id ↔ c.At id .pending := List.count_pos_iff
  have hended : 0 < c.redis.ended id ↔ c.At id .terminal := ended_pos
  have hheld : 0 < c.held id ↔ ∃ w, c.At id (.hand w) := held_pos
  rcases (by omega : 0 < c.redis.pending.count id ∨ 0 < c.held id ∨ 0 < c.redis.ended id) with hlist | hhand | hover
  · refine ⟨.pending, hpending.mp hlist, fun place hplace => ?_⟩
    cases place with
    | pending => rfl
    | hand w =>
      have hpos := hheld.mpr ⟨w, hplace⟩
      omega
    | terminal =>
      have hpos := hended.mpr hplace
      omega
  · obtain ⟨w, hw⟩ := hheld.mp hhand
    refine ⟨.hand w, hw, fun place hplace => ?_⟩
    cases place with
    | pending =>
      have hpos := hpending.mpr hplace
      omega
    | hand w' => rw [h.one_hand hplace hw]
    | terminal =>
      have hpos := hended.mpr hplace
      omega
  · refine ⟨.terminal, hended.mp hover, fun place hplace => ?_⟩
    cases place with
    | pending =>
      have hpos := hpending.mpr hplace
      omega
    | hand w =>
      have hpos := hheld.mpr ⟨w, hplace⟩
      omega
    | terminal => rfl

theorem Custody.enqueued_of_at (h : Custody c) {place : Place} (hplace : c.At id place) : id ∈ c.enqueued := by
  have hplaced := h.placed id
  apply List.count_pos_iff.mp
  cases place with
  | pending =>
    have hpos : 0 < c.redis.pending.count id := List.count_pos_iff.mpr hplace
    omega
  | hand w =>
    have hpos := held_pos.mpr ⟨w, hplace⟩
    omega
  | terminal =>
    have hpos := ended_pos.mpr hplace
    omega

end Places

/-- **Every enqueued job is in exactly one place, the list, one worker's hands or a terminal
hash, and is started at most once; and each counter is the number of jobs it stands for, so
that they add up to the number of jobs enqueued.** -/
theorem conservation {c : Cluster} (h : cluster.Reachable Transition.anything c) :
    (∀ id ∈ c.enqueued, ∃! place, c.At id place) ∧
    (∀ id place, c.At id place → id ∈ c.enqueued) ∧
    c.enqueued.Nodup ∧ c.redis.pending.Nodup ∧ c.started.Nodup ∧ c.started ⊆ c.enqueued ∧
    c.redis.counted .queued = c.redis.pending.length + c.claimed ∧
    c.redis.counted .running = c.running ∧
    c.redis.counted .succeeded = c.redis.withStatus .succeeded ∧
    c.redis.counted .failed = c.redis.withStatus .failed ∧
    (∀ status, 0 ≤ c.redis.counted status) ∧
    ∀ maxWorkers oldest now, (c.redis.stats maxWorkers oldest now).total = c.enqueued.length := by
  obtain ⟨hcustody, hbalanced⟩ := conserved_reachable h
  have honce : ∀ id, c.enqueued.count id ≤ 1 := List.nodup_iff_count_le_one.mp hcustody.once
  have hcounted := hbalanced.counted
  refine ⟨fun id => hcustody.one_place, fun id place => hcustody.enqueued_of_at, hcustody.once, ?_, ?_, ?_,
    hcounted .queued, hcounted .running, hcounted .succeeded, hcounted .failed, fun status => ?_,
    fun maxWorkers oldest now => ?_⟩
  · apply List.nodup_iff_count_le_one.mpr
    intro id
    have hplaced := hcustody.placed id
    have hone := honce id
    omega
  · apply List.nodup_iff_count_le_one.mpr
    intro id
    have hunstarted := hcustody.unstarted id
    have hone := honce id
    omega
  · intro id hmem
    have hunstarted := hcustody.unstarted id
    have hpos := List.count_pos_iff.mpr hmem
    apply List.count_pos_iff.mp
    omega
  · rw [hcounted]
    exact Int.natCast_nonneg _
  · simp only [Redis.stats, hcounted]
    exact_mod_cast hbalanced.complete

/-- Two jobs with two workers: one failed and done, the other between the two parts of
`mark_running`. -/
def twoWorkers : List Event :=
  [.enqueue 1 ⟨.health, .simLocal, none, none, none⟩ 7 0, .enqueue 2 ⟨.latency, .simLocal, none, none, none⟩ 7 0,
    .pop 0, .pop 1, .load 0 1, .markHash 0 1, .load 1 1, .markHash 1 1, .markCounts 1, .execute 1,
    .finish 1 (.error { code := .internalError, message := "boom" }), .complete 1 2]

theorem conservation_twoWorkers : ∃ c, cluster.run {} twoWorkers = some c ∧ c.enqueued = [2, 1] ∧
    (∃! place, c.At 1 place) ∧ ∀ maxWorkers oldest now, (c.redis.stats maxWorkers oldest now).total = 2 := by
  have hrun : (cluster.run {} twoWorkers).map (fun c => c.enqueued) = some [2, 1] := by decide +kernel
  obtain ⟨c, hc, henqueued⟩ := Option.map_eq_some_iff.mp hrun
  obtain ⟨hplaces, _, _, _, _, _, _, _, _, _, _, htotal⟩ :=
    conservation (Transition.System.run_reachable (S := cluster) rfl hc)
  refine ⟨c, hc, henqueued, hplaces 1 (by rw [henqueued]; decide), fun maxWorkers oldest now => ?_⟩
  rw [htotal, henqueued]
  rfl

end SynQc.RunQueue
