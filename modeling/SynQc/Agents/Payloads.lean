import SynQc.Agents.Protocol

/-! What ended jobs hold.

Status, result, error and finish time are written one after another. What a worker still has
to write, done to what the hash holds, is what the job ends with (`Paid.writing`); nothing is
looked at in between. A retry leaves its error in the hash, so the invariant needs that an
agent that returns a result has no retry behind it (`firstTry`). -/
namespace SynQc.Agents

/-- What a hash holds of how its job ended. -/
structure Payload where
  status : JobStatus
  result : Option String
  error : Option JobErrorInfo
  finished : Bool

def JobHash.payload (h : JobHash) : Payload := ⟨h.status, h.result, h.error, h.finishedAt.isSome⟩

def Write.stamp : Write → Payload → Payload
  | .updateStatus status _ finished, p => {p with status := status, finished := finished || p.finished}
  | .setResult resultJson, p => {p with result := some resultJson}
  | .setError info, p => {p with error := some info}

def stamps (writes : List Write) (p : Payload) : Payload := writes.foldl (fun p write => write.stamp p) p

/-- Succeeded jobs have a result and no error, failed ones an error that is no retry's and no result, and ended
ones are those with a finish time. -/
structure Payload.Right (p : Payload) : Prop where
  succeeded : p.status = .succeeded → p.result.isSome = true ∧ p.error = none
  failed : p.status = .failed → p.result = none ∧ ∃ info, p.error = some info ∧ info.code ≠ "retry_scheduled"
  finished : p.finished = p.status.terminal

/-- An agent returns a result for a job without an error so far. -/
def firstTry : Event → State → Prop
  | .finish w (.ok _), s => ∀ seat id job attempt hash, s.worker w = .running seat id job attempt →
    s.redis.jobs.get? id = some hash → hash.error = none
  | _, _ => True

theorem payload_apply (write : Write) (now : Time) (hash : JobHash) :
    (write.apply now hash).payload = write.stamp hash.payload := by
  cases write with
  | updateStatus status started finished => cases finished <;> rfl
  | setResult resultJson => rfl
  | setError info => rfl

/-- The job a worker is ending. -/
def Worker.ending? : Worker → Option JobId
  | .writing _ id _ none => some id
  | _ => none

theorem Worker.hand_of_ending {p : Worker} {id : JobId} (h : p.ending? = some id) : p.hand? = some id := by
  cases p with
  | writing seat id' writes delay =>
    cases delay with
    | none => exact h
    | some delay => cases h
  | _ => cases h

/-- A write of a retry. -/
def Write.reopens : Write → Bool
  | .setError _ | .updateStatus .queued _ false => true
  | _ => false

/-- A worker that ends a job writes what is right, one that retries it opens it again. -/
def WritingOk (r : Redis) : Worker → Prop
  | .writing _ id writes none => ∃ hash, r.jobs.get? id = some hash ∧ (stamps writes hash.payload).Right
  | .writing _ _ writes (some _) => ∀ write ∈ writes, write.reopens = true
  | _ => True

/-- The invariant. A job that is open and that no worker is ending has no result. -/
structure Paid (s : State) : Prop where
  right : ∀ id hash, s.redis.jobs.get? id = some hash → hash.payload.Right
  writing : ∀ w, WritingOk s.redis (s.worker w)
  blank : ∀ id hash, s.redis.jobs.get? id = some hash → hash.status.terminal = false →
    (∀ w, (s.worker w).ending? ≠ some id) → hash.result = none

section Steps
variable {cfg : Config} {s u : State} {e : Event} {w : Nat} {id : JobId}

/-- What a step leaves of the hashes: new ones are blank, others hold the same. -/
structure Untouched (s u : State) : Prop where
  same : ∀ id hash', u.redis.jobs.get? id = some hash' →
    (s.redis.jobs.get? id = none ∧ hash'.payload = ⟨.queued, none, none, false⟩) ∨
      ∃ hash, s.redis.jobs.get? id = some hash ∧ hash'.payload = hash.payload
  kept : ∀ id hash, s.redis.jobs.get? id = some hash → ∃ hash', u.redis.jobs.get? id = some hash'

theorem untouched_rfl (h : u.redis.jobs = s.redis.jobs) : Untouched s u := by
  refine ⟨fun id hash' hget => ?_, fun id hash hget => ⟨hash, h ▸ hget⟩⟩
  exact .inr ⟨hash', h ▸ hget, rfl⟩

theorem untouched_hset {f : JobHash → JobHash} (hjobs : u.redis.jobs = (s.redis.hset id f).jobs)
    (hf : ∀ hash, (f hash).payload = hash.payload) : Untouched s u := by
  refine ⟨fun id' hash' hget => ?_, fun id' hash hget => ?_⟩
  · rw [hjobs, Redis.get?_hset] at hget
    split at hget
    · obtain ⟨hash, hhash, rfl⟩ := Option.map_eq_some_iff.mp hget
      exact .inr ⟨hash, hhash, hf hash⟩
    · exact .inr ⟨hash', hget, rfl⟩
  · rw [hjobs]
    exact (Redis.known_hset _ _ _ _).mpr ⟨hash, hget⟩

theorem untouched_create {hash : JobHash} (hnone : s.redis.jobs.get? id = none)
    (hjobs : u.redis.jobs = s.redis.jobs.set id hash) (hblank : hash.payload = ⟨.queued, none, none, false⟩) :
    Untouched s u := by
  refine ⟨fun id' hash' hget => ?_, fun id' old hget => ?_⟩
  · rw [hjobs, Dict.get?_set] at hget
    split at hget
    · rename_i hid
      cases hget
      exact .inl ⟨hid ▸ hnone, hblank⟩
    · exact .inr ⟨hash', hget, rfl⟩
  · rw [hjobs, Dict.get?_set]
    split
    · exact ⟨hash, rfl⟩
    · exact ⟨old, hget⟩

/-- The payload of a job that is there before and after. -/
theorem Untouched.payload (h : Untouched s u) {hash : JobHash} (hget : s.redis.jobs.get? id = some hash) :
    ∃ hash', u.redis.jobs.get? id = some hash' ∧ hash'.payload = hash.payload := by
  obtain ⟨hash', hget'⟩ := h.kept id hash hget
  rcases h.same id hash' hget' with ⟨hnone, _⟩ | ⟨old, hold, hsame⟩
  · cases hnone.symm.trans hget
  · cases hget.symm.trans hold
    exact ⟨hash', hget', hsame⟩

theorem WritingOk.untouched {p : Worker} (h : WritingOk s.redis p) (hjobs : Untouched s u) :
    WritingOk u.redis p := by
  cases p with
  | writing seat id writes delay =>
    cases delay with
    | none =>
      obtain ⟨hash, hget, hright⟩ := h
      obtain ⟨hash', hget', hsame⟩ := hjobs.payload hget
      exact ⟨hash', hget', hsame ▸ hright⟩
    | some delay => exact h
  | _ => trivial

/-- A step that writes no payload, at most of a worker that is not ending a job. -/
theorem Paid.quiet (h : Paid s) (hjobs : Untouched s u)
    (hworkers : ∀ w, u.worker w = s.worker w ∨ (WritingOk u.redis (u.worker w) ∧ (s.worker w).ending? = none)) :
    Paid u := by
  refine ⟨fun id hash' hget => ?_, fun w => ?_, fun id hash' hget hopen hnone => ?_⟩
  · rcases hjobs.same id hash' hget with ⟨_, hblank⟩ | ⟨hash, hhash, hsame⟩
    · rw [hblank]
      exact ⟨nofun, nofun, rfl⟩
    · rw [hsame]
      exact h.right id hash hhash
  · rcases hworkers w with hsame | ⟨hok, _⟩
    · rw [hsame]
      exact (h.writing w).untouched hjobs
    · exact hok
  · rcases hjobs.same id hash' hget with ⟨_, hblank⟩ | ⟨hash, hhash, hsame⟩
    · exact congrArg Payload.result hblank
    · have hresult : hash'.result = hash.result := congrArg Payload.result hsame
      have hstatus : hash'.status = hash.status := congrArg Payload.status hsame
      rw [hresult]
      refine h.blank id hash hhash (hstatus ▸ hopen) fun w hw => ?_
      rcases hworkers w with hworker | ⟨_, hno⟩
      · exact hnone w (hworker ▸ hw)
      · cases hno.symm.trans hw

/-- A step of calls, or of nobody. -/
theorem Paid.still (h : Paid s) (hjobs : Untouched s u) (hworkers : u.workers = s.workers) : Paid u :=
  h.quiet hjobs fun w => .inl (congrArg (Roster.phase · w) hworkers)

/-- A step of one worker that writes no payload. -/
theorem Paid.workerStep (h : Paid s) (hjobs : Untouched s u) {p : Worker} (hworkers : u.workers = s.workers.set w p)
    (hok : WritingOk u.redis p) (hfree : (s.worker w).ending? = none) : Paid u := by
  refine h.quiet hjobs fun w' => ?_
  simp only [State.worker, hworkers, Roster.phase_set]
  split
  · rename_i hw
    exact .inr ⟨hok, hw ▸ hfree⟩
  · exact .inl rfl

/-- Nobody else is ending the job a worker has in hand. -/
theorem Custody.none_ending (hc : Custody s) (hhand : (s.worker w).hand? = some id)
    (hfree : (s.worker w).ending? = none) (w' : Nat) : (s.worker w').ending? ≠ some id := by
  intro hending
  have hsame : w = w' := hc.one_worker hhand (Worker.hand_of_ending hending)
  subst hsame
  cases hfree.symm.trans hending

/-- A worker writes to the job it has in hand. -/
theorem Paid.write (hc : Custody s) (h : Paid s) {write : Write} {hash : JobHash} {p : Worker}
    (hhand : (s.worker w).hand? = some id) (hget : s.redis.jobs.get? id = some hash)
    (hright : (write.stamp hash.payload).Right)
    (hblank : (write.stamp hash.payload).status.terminal = false → p.ending? ≠ some id →
      (write.stamp hash.payload).result = none)
    (hok : WritingOk (s.redis.hset id (write.apply s.now)) p) : Paid ((s.hset id write).setWorker w p) := by
  have hself : ∀ id' hash', (s.redis.hset id (write.apply s.now)).jobs.get? id' = some hash' →
      (id = id' ∧ hash'.payload = write.stamp hash.payload) ∨ (id ≠ id' ∧ s.redis.jobs.get? id' = some hash') := by
    intro id' hash' hget'
    rw [Redis.get?_hset] at hget'
    split at hget'
    · rename_i hid
      subst hid
      rw [hget] at hget'
      cases hget'
      exact .inl ⟨rfl, payload_apply write s.now hash⟩
    · rename_i hid
      exact .inr ⟨hid, hget'⟩
  refine ⟨fun id' hash' hget' => ?_, fun w' => ?_, fun id' hash' hget' hopen hnone => ?_⟩
  · rcases hself id' hash' hget' with ⟨_, hstamped⟩ | ⟨_, hold⟩
    · rw [hstamped]
      exact hright
    · exact h.right id' hash' hold
  · show WritingOk (s.redis.hset id (write.apply s.now)) (Roster.phase (s.workers.set w p) w')
    rw [Roster.phase_set]
    split
    · exact hok
    · -- Another worker ends another job.
      rename_i hw
      have hother := h.writing w'
      cases hphase : s.worker w' with
      | writing seat id' writes delay =>
        rw [hphase] at hother
        show WritingOk _ (s.worker w')
        rw [hphase]
        cases delay with
        | none =>
          obtain ⟨old, hold, hold_right⟩ := hother
          have hid : id ≠ id' := by
            intro hid
            subst hid
            exact hw (hc.one_worker hhand (by rw [hphase]; rfl))
          refine ⟨old, ?_, hold_right⟩
          rw [Redis.get?_hset, if_neg hid]
          exact hold
        | some delay => exact hother
      | _ =>
        show WritingOk _ (s.worker w')
        rw [hphase]
        trivial
  · have hothers : ∀ w', w ≠ w' → (s.worker w').ending? ≠ some id' := by
      intro w' hw
      have hending := hnone w'
      rw [State.worker, State.setWorker, Roster.phase_set_ne _ hw] at hending
      exact hending
    have hown := hnone w
    rw [State.worker, State.setWorker, Roster.phase_set, if_pos rfl] at hown
    rcases hself id' hash' hget' with ⟨hid, hstamped⟩ | ⟨hid, hold⟩
    · subst hid
      have hstatus : hash'.status = _ := congrArg Payload.status hstamped
      exact (congrArg Payload.result hstamped).trans (hblank (hstatus ▸ hopen) hown)
    · refine h.blank id' hash' hold hopen fun w' hending => ?_
      by_cases hw : w = w'
      · subst hw
        exact hid (Option.some.inj (hhand.symm.trans (Worker.hand_of_ending hending)))
      · exact hothers w' hw hending

/-- What ends a job a worker runs is right, where the rule is kept. -/
theorem writingOk_conclude (hc : Custody s) (h : Paid s) {outcome : Outcome} {seat : Seat} {job : JobHash}
    {attempt : Nat} {writes : List Write} {delay : Option Nat} (hphase : s.worker w = .running seat id job attempt)
    (hconclude : State.conclude seat job attempt outcome = some (writes, delay))
    (hrule : firstTry (.finish w outcome) s) : WritingOk s.redis (.writing seat id writes delay) := by
  have hhand : (s.worker w).hand? = some id := by rw [hphase]; rfl
  have hfree : (s.worker w).ending? = none := by rw [hphase]; rfl
  obtain ⟨_, _, hash, hget, hopen⟩ := hc.workerHeld hhand
  have hresult : hash.result = none := h.blank id hash hget hopen (hc.none_ending hhand hfree)
  cases outcome with
  | timedOut | silent =>
    cases hconclude
    exact ⟨hash, hget, nofun, fun _ => ⟨hresult, _, rfl, by simp [timeoutError, workerError]⟩, rfl⟩
  | ok result =>
    cases hconclude
    exact ⟨hash, hget, fun _ => ⟨rfl, hrule seat id job attempt hash hphase hget⟩, nofun, rfl⟩
  | error errType message traceback =>
    rcases State.conclude_error hconclude with ⟨_, rfl, rfl⟩ | ⟨rfl, rfl⟩
    · intro write hmem
      rcases List.mem_cons.mp hmem with rfl | hmem
      · rfl
      · rw [List.mem_singleton.mp hmem]
        rfl
    · exact ⟨hash, hget, nofun, fun _ => ⟨hresult, _, rfl, by simp [agentFailed]⟩, rfl⟩

theorem stamp_open {write : Write} {p : Payload} (hopen : p.status.terminal = false) (hright : p.Right)
    (hwrite : write.quiet = true ∨ write.reopens = true) :
    (write.stamp p).Right ∧ (write.stamp p).status.terminal = false := by
  have hunfinished : p.finished = false := hright.finished.trans hopen
  have hno : ∀ status : JobStatus, status.terminal = true → p.status ≠ status := by
    intro status hterminal hstatus
    rw [hstatus, hterminal] at hopen
    cases hopen
  cases write with
  | setResult result =>
    exact ⟨⟨fun h => absurd h (hno _ rfl), fun h => absurd h (hno _ rfl), hright.finished⟩, hopen⟩
  | setError info =>
    exact ⟨⟨fun h => absurd h (hno _ rfl), fun h => absurd h (hno _ rfl), hright.finished⟩, hopen⟩
  | updateStatus status started finished =>
    rcases hwrite with hquiet | hreopens
    · cases hquiet
    · cases status <;> cases finished <;> cases hreopens
      exact ⟨⟨nofun, nofun, hunfinished⟩, rfl⟩

theorem Write.result_of_reopens {write : Write} (h : write.reopens = true) (p : Payload) :
    (write.stamp p).result = p.result := by
  cases write with
  | setResult result => cases h
  | setError info => rfl
  | updateStatus status started finished => rfl

theorem Write.quiet_of_ends {write : Write} {rest : List Write} (h : Write.ends (write :: rest) = true)
    (hmore : rest ≠ []) : write.quiet = true := by
  cases rest with
  | nil => exact absurd rfl hmore
  | cons next rest =>
    simp only [Write.ends, Bool.and_eq_true] at h
    exact h.1

/-- A worker writes on, to the end of the job or to its retry. -/
theorem paid_writeBack (hc : Custody s) (h : Paid s) {seat : Seat} {write : Write} {rest : List Write}
    {delay : Option Nat} (hphase : s.worker w = .writing seat id (write :: rest) delay) :
    Paid ((s.hset id write).setWorker w
      (if rest = [] ∧ delay = none then .idle else .writing seat id rest delay)) := by
  have hhand : (s.worker w).hand? = some id := by rw [hphase]; rfl
  have hwriting := h.writing w
  have hworker := hc.worker w
  rw [hphase] at hwriting hworker
  obtain ⟨_, _, hash, hget, hopen⟩ := hc.workerHeld hhand
  have hright : hash.payload.Right := h.right id hash hget
  have hwritten : (s.redis.hset id (write.apply s.now)).jobs.get? id = some (write.apply s.now hash) := by
    rw [Redis.get?_hset, if_pos rfl, hget]
    rfl
  cases delay with
  | none =>
    obtain ⟨hash', hget', hend⟩ := hwriting
    cases hget.symm.trans hget'
    by_cases hmore : rest = []
    · -- The last write is the one that ends the job.
      subst hmore
      have hcloses : write.closes = true := hworker
      rw [if_pos ⟨rfl, rfl⟩]
      refine h.write hc hhand hget hend (fun hstill => ?_) trivial
      have hterminal : (write.apply s.now hash).status.terminal = true := Write.apply_closes hash hcloses
      have hstatus : (write.apply s.now hash).status = (write.stamp hash.payload).status :=
        congrArg Payload.status (payload_apply write s.now hash)
      rw [hstatus, hstill] at hterminal
      cases hterminal
    · rw [if_neg fun hdone => hmore hdone.1]
      obtain ⟨hstamped, _⟩ := stamp_open hopen hright (.inl (Write.quiet_of_ends hworker hmore))
      refine h.write hc hhand hget hstamped (fun _ hnone => absurd rfl hnone) ⟨_, hwritten, ?_⟩
      rw [payload_apply]
      exact hend
  | some delay =>
    have hreopens := hwriting write List.mem_cons_self
    obtain ⟨hstamped, _⟩ := stamp_open hopen hright (.inr hreopens)
    have hfree : (s.worker w).ending? = none := by rw [hphase]; rfl
    rw [if_neg fun hdone => Option.some_ne_none delay hdone.2]
    refine h.write hc hhand hget hstamped (fun _ _ => ?_) ?_
    · rw [Write.result_of_reopens hreopens]
      exact h.blank id hash hget hopen (hc.none_ending hhand hfree)
    · exact fun next hnext => hwriting next (List.mem_cons_of_mem _ hnext)

theorem paid_step (hc : Custody s) (hun : Unrouted s) (h : Paid s) (hrule : firstTry e s) (hstep : Step cfg s e u) :
    Paid u := by
  cases hstep with
  | mark hphase | write hphase | uncaught hphase | caught hphase | recorded hphase | reread hphase =>
    cases hun.absurd hphase
  | post hphase hends => cases hun.absurd hphase
  | cancel hget => exact h.still (untouched_hset rfl fun _ => rfl) rfl
  | create hphase hnone hencode => exact h.still (untouched_create hnone rfl rfl) rfl
  | push hphase hnew hpush => exact h.still (untouched_rfl (Redis.push_frame hpush).1) rfl
  | zpopmin hphase hpop =>
    refine h.workerStep (untouched_rfl (Redis.zpopmin_frame hpop).1) rfl trivial ?_
    rw [hphase]
    rfl
  | brpop hphase hpop =>
    refine h.workerStep (untouched_rfl (Redis.pop_frame hpop).1) rfl trivial ?_
    rw [hphase]
    rfl
  | putBack hphase hadd | schedule hphase hadd =>
    exact h.workerStep (untouched_rfl (Redis.zadd_frame hadd).1) rfl trivial (by rw [hphase]; rfl)
  | putReady hphase hdue hpush =>
    exact h.workerStep (untouched_rfl (Redis.push_frame hpush).1) rfl trivial (by rw [hphase]; rfl)
  | pump hphase | endPump hphase | giveUp hphase | start hphase =>
    exact h.workerStep (untouched_rfl rfl) rfl trivial (by rw [hphase]; rfl)
  | load hphase hget => exact h.workerStep (untouched_rfl rfl) rfl trivial (by rw [hphase]; rfl)
  | lose hphase hnone => exact h.workerStep (untouched_rfl rfl) rfl trivial (by rw [hphase]; rfl)
  | count hphase => exact h.workerStep (untouched_hset rfl fun _ => rfl) rfl trivial (by rw [hphase]; rfl)
  | finish hphase hconclude =>
    exact h.workerStep (untouched_rfl rfl) rfl (writingOk_conclude hc h hphase hconclude hrule) (by rw [hphase]; rfl)
  | @cancelled w seat id job hphase hcancel =>
    have hhand : (s.worker w).hand? = some id := by rw [hphase]; rfl
    obtain ⟨_, _, hash, hget, hopen⟩ := hc.workerHeld hhand
    exact h.write hc hhand hget ⟨nofun, nofun, rfl⟩ nofun trivial
  | @begin w seat id job hphase hcancel =>
    have hhand : (s.worker w).hand? = some id := by rw [hphase]; rfl
    have hfree : (s.worker w).ending? = none := by rw [hphase]; rfl
    obtain ⟨_, _, hash, hget, hopen⟩ := hc.workerHeld hhand
    have hunfinished : hash.payload.finished = false := (h.right id hash hget).finished.trans hopen
    refine h.write hc hhand hget ⟨nofun, nofun, hunfinished⟩ (fun _ _ => ?_) trivial
    exact h.blank id hash hget hopen (hc.none_ending hhand hfree)
  | writeBack hphase => exact paid_writeBack hc h hphase
  | _ => exact h.still (untouched_rfl rfl) rfl

theorem paid_init : Paid {} := by
  refine ⟨fun id hash hget => ?_, fun _ => trivial, fun id hash hget => ?_⟩
  · simp at hget
  · simp at hget

theorem paid_reachable (hoff : ∀ agent, cfg.routed agent = false) (h : (service cfg).Reachable firstTry s) :
    Paid s := by
  have hall : Custody s ∧ Unrouted s ∧ Paid s := by
    refine Transition.System.reachable_invariant (I := fun s => Custody s ∧ Unrouted s ∧ Paid s)
      (fun s hs => ?_) ?_ h
    · rw [show s = {} from hs]
      exact ⟨custody_init, fun _ => rfl, paid_init⟩
    · intro e s u ⟨hc, hun, hp⟩ hrule hstep
      exact ⟨custody_step hc (hun.oneExecutor e) hstep, unrouted_step hoff hun (step_some hstep),
        paid_step hc hun hp hrule (step_some hstep)⟩
  exact hall.2.2

end Steps

/-- **Without a sandbox route, and as long as no agent returns a result for a job that holds an error of an earlier
attempt, succeeded jobs have a result and no error, failed jobs an error other than a retry's and no
result, and the jobs with a finish time are those that ended.** -/
theorem payloads_right (cfg : Config) (hoff : ∀ agent, cfg.routed agent = false) {s : State}
    (h : (service cfg).Reachable firstTry s) (id : JobId) (hash : JobHash)
    (hget : s.redis.jobs.get? id = some hash) :
    (hash.status = .succeeded → hash.result.isSome = true ∧ hash.error = none) ∧
    (hash.status = .failed → (∃ info, hash.error = some info ∧ info.code ≠ "retry_scheduled") ∧ hash.result = none) ∧
    (hash.finishedAt.isSome = true ↔ hash.status = .succeeded ∨ hash.status = .failed ∨ hash.status = .cancelled) := by
  have hright : hash.payload.Right := (paid_reachable hoff h).right id hash hget
  refine ⟨hright.succeeded, fun hfailed => ?_, ?_⟩
  · obtain ⟨hresult, herror⟩ := hright.failed hfailed
    exact ⟨herror, hresult⟩
  · rw [show hash.finishedAt.isSome = hash.status.terminal from hright.finished]
    cases hash.status <;> simp [JobStatus.terminal]

/-- The rule on the runs below, as a test: no result for a job with an error. -/
def firstTryTest : Event → State → Bool
  | .finish w (.ok _), s =>
    match s.worker w with
    | .running _ id _ _ =>
      match s.redis.jobs.get? id with
      | some hash => hash.error.isNone
      | none => true
    | _ => true
  | _, _ => true

theorem firstTry_of_test (e : Event) (s : State) (h : firstTryTest e s = true) : firstTry e s := by
  cases e with
  | finish w outcome =>
    cases outcome with
    | ok result =>
      intro seat id job attempt hash hphase hget
      simp only [firstTryTest, hphase, hget, Option.isNone_iff_eq_none] at h
      exact h
    | _ => trivial
  | _ => trivial

/-- One job fails after a retry, another succeeds at once. -/
def endedRun : List Event :=
  [.submit 0 { agent := "echo" }, .lookup 0, .create 0 7, .push 0, .pump 0 ⟨"default", 60⟩, .endPump 0, .brpop 0,
    .load 0, .begin 0, .count 0, .start 0, .finish 0 (.error "HTTPError" "503" ""), .writeBack 0, .writeBack 0,
    .schedule 0, .tick 1, .pump 0 ⟨"default", 60⟩, .zpopmin 0 7, .put 0, .endPump 0, .brpop 0, .load 0, .begin 0,
    .count 0, .start 0, .finish 0 .timedOut, .writeBack 0, .writeBack 0, .submit 1 { agent := "echo" }, .lookup 1,
    .create 1 8, .push 1, .pump 0 ⟨"default", 60⟩, .endPump 0, .brpop 0, .load 0, .begin 0, .count 0, .start 0,
    .finish 0 (.ok "{}"), .writeBack 0, .writeBack 0]

theorem payloads_right_ended : ∃ s failed succeeded, (service echoing).Reachable firstTry s ∧
    s.redis.jobs.get? 7 = some failed ∧ failed.status = .failed ∧ s.redis.jobs.get? 8 = some succeeded ∧
    succeeded.status = .succeeded ∧ succeeded.error = none ∧ failed.result = none ∧
    (∃ info, failed.error = some info ∧ info.code ≠ "retry_scheduled") := by
  have hrun : (Transition.System.walk (service echoing) firstTryTest {} endedRun).map
      (fun s => ((s.redis.jobs.get? 7).map fun h => h.status, (s.redis.jobs.get? 8).map fun h => h.status)) =
        some (some .failed, some .succeeded) := by decide +kernel
  obtain ⟨s, hs, hseen⟩ := Option.map_eq_some_iff.mp hrun
  have hreach : (service echoing).Reachable firstTry s :=
    ⟨{}, rfl, Transition.System.walk_leads (fun e _ => firstTry_of_test e) hs⟩
  simp only [Prod.mk.injEq] at hseen
  obtain ⟨hfailed, hsucceeded⟩ := hseen
  obtain ⟨failed, hget, hstatus⟩ := Option.map_eq_some_iff.mp hfailed
  obtain ⟨succeeded, hget', hstatus'⟩ := Option.map_eq_some_iff.mp hsucceeded
  have hoff : ∀ agent, echoing.routed agent = false := fun agent => by simp [Config.routed, echoing]
  obtain ⟨_, hfails, _⟩ := payloads_right echoing hoff hreach 7 failed hget
  obtain ⟨hsucceeds, _, _⟩ := payloads_right echoing hoff hreach 8 succeeded hget'
  exact ⟨s, failed, succeeded, hreach, hget, hstatus, hget', hstatus', (hsucceeds hstatus').2, (hfails hstatus).2,
    (hfails hstatus).1⟩

/-- The second attempt succeeds, and the error of the first stays. -/
def retriedThenDone : List Event :=
  [.submit 0 { agent := "echo" }, .lookup 0, .create 0 7, .push 0, .pump 0 ⟨"default", 60⟩, .endPump 0, .brpop 0,
    .load 0, .begin 0, .count 0, .start 0, .finish 0 (.error "HTTPError" "503" ""), .writeBack 0, .writeBack 0,
    .schedule 0, .tick 1, .pump 0 ⟨"default", 60⟩, .zpopmin 0 7, .put 0, .endPump 0, .brpop 0, .load 0, .begin 0,
    .count 0, .start 0, .finish 0 (.ok "{}"), .writeBack 0, .writeBack 0]

theorem payloads_stale : ∃ s hash info, (∀ agent, echoing.routed agent = false) ∧
    (service echoing).Reachable Transition.anything s ∧ s.redis.jobs.get? 7 = some hash ∧
    hash.status = .succeeded ∧ hash.error = some info ∧ info.code = "retry_scheduled" := by
  have hrun : ((service echoing).run {} retriedThenDone).map
      (fun s => (s.redis.jobs.get? 7).map fun h => (h.status, h.error.map fun info => info.code)) =
        some (some (.succeeded, some "retry_scheduled")) := by decide +kernel
  obtain ⟨s, hs, hseen⟩ := Option.map_eq_some_iff.mp hrun
  obtain ⟨hash, hget, hpair⟩ := Option.map_eq_some_iff.mp hseen
  obtain ⟨hstatus, herror⟩ := Prod.mk.inj hpair
  obtain ⟨info, hinfo, hcode⟩ := Option.map_eq_some_iff.mp herror
  exact ⟨s, hash, info, fun agent => by simp [Config.routed, echoing], Transition.System.run_reachable rfl hs, hget,
    hstatus, hinfo, hcode⟩

end SynQc.Agents
