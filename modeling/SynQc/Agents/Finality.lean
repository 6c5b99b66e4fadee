import SynQc.Agents.Custody

/-! Terminal jobs are final, and have one executor.

A hash is written by whoever has the job in hand, apart from cancel requests; what is in
hand is not terminal. That makes terminal jobs final (`Custody.final`). For executors, each
job is dispatched once: by its call to the sandbox, or by a push; and workers start pushed
jobs only. Both need the rule `oneExecutor`. -/
namespace SynQc.Agents

/-- What a job ended with. -/
def JobHash.verdict (h : JobHash) : JobStatus × Option String × Option JobErrorInfo := (h.status, h.result, h.error)

/-- What a step can make of a job's hash. -/
inductive Rewritten (s : State) (e : Event) (id : JobId) (hash : JobHash) : JobHash → Prop where
  | same : Rewritten s e id hash hash
  | cancel : Rewritten s e id hash {hash with cancelRequested := true}
  | attempt {w : Nat} {seat : Seat} {job : JobHash} (hevent : e = .count w) (hphase : s.worker w = .marked seat id job) :
      Rewritten s e id hash {hash with attempts := hash.attempts + 1}
  | call {c : Nat} (write : Write) (hhand : (s.call c).phase.hand? = some id) :
      Rewritten s e id hash (write.apply s.now hash)
  | worker {w : Nat} (write : Write) (hhand : (s.worker w).hand? = some id) :
      Rewritten s e id hash (write.apply s.now hash)

section Hashes
variable {cfg : Config} {e : Event} {s u : State} {id : JobId} {hash : JobHash}

/-- An update of one hash, seen from any. -/
theorem rewritten_hset {f : JobHash → JobHash} {id' : JobId} (hget : s.redis.jobs.get? id = some hash)
    (hf : id' = id → Rewritten s e id hash (f hash)) :
    ∃ hash', (s.redis.hset id' f).jobs.get? id = some hash' ∧ Rewritten s e id hash hash' := by
  rw [Redis.get?_hset, hget]
  by_cases hid : id' = id
  · rw [if_pos hid]
    exact ⟨f hash, rfl, hf hid⟩
  · rw [if_neg hid]
    exact ⟨hash, rfl, .same⟩

theorem step_hash (h : Custody s) (hrule : oneExecutor e s) (hstep : Step cfg s e u)
    (hget : s.redis.jobs.get? id = some hash) :
    ∃ hash', u.redis.jobs.get? id = some hash' ∧ Rewritten s e id hash hash' := by
  have hsame : ∃ hash', s.redis.jobs.get? id = some hash' ∧ Rewritten s e id hash hash' := ⟨hash, hget, .same⟩
  have hframe {r : Redis} (hjobs : r.jobs = s.redis.jobs) :
      ∃ hash', r.jobs.get? id = some hash' ∧ Rewritten s e id hash hash' := ⟨hash, hjobs ▸ hget, .same⟩
  cases hstep with
  | cancel _ => exact rewritten_hset hget fun _ => .cancel
  | @create c id' runInput hphase hnone hencode =>
    refine ⟨hash, ?_, .same⟩
    have hne : id' ≠ id := by
      intro hid
      subst hid
      cases hnone.symm.trans hget
    exact (Dict.get?_set_ne _ _ hne).trans hget
  | @mark c t hphase =>
    obtain ⟨hnew, _⟩ := hrule t hphase
    refine rewritten_hset hget fun hid => .call (c := c) _ ?_
    simp [hphase, CallPhase.hand?, hnew, hid]
  | @write c t t0 success write rest hphase =>
    have hcall := h.call c
    simp only [CallOk, hphase] at hcall
    refine rewritten_hset hget fun hid => .call (c := c) write ?_
    simp [hphase, CallPhase.hand?, hcall.1, hid]
  | push hphase hnew hpush => exact hframe (Redis.push_frame hpush).1
  | zpopmin hphase hpop => exact hframe (Redis.zpopmin_frame hpop).1
  | putBack hphase hadd => exact hframe (Redis.zadd_frame hadd).1
  | putReady hphase hdue hpush => exact hframe (Redis.push_frame hpush).1
  | brpop hphase hpop => exact hframe (Redis.pop_frame hpop).1
  | schedule hphase hadd => exact hframe (Redis.zadd_frame hadd).1
  | @cancelled w seat id' job hphase _ =>
    refine rewritten_hset hget fun hid => .worker (w := w) _ ?_
    rw [hphase, ← hid]
    rfl
  | @begin w seat id' job hphase _ =>
    refine rewritten_hset hget fun hid => .worker (w := w) _ ?_
    rw [hphase, ← hid]
    rfl
  | @count w seat id' job hphase =>
    exact rewritten_hset hget fun hid => .attempt rfl (by rw [hphase, hid])
  | @writeBack w seat id' write rest delay hphase =>
    refine rewritten_hset hget fun hid => .worker (w := w) write ?_
    rw [hphase, ← hid]
    rfl
  | _ => exact hsame

/-- A terminal job is in nobody's hands, so its verdict stays. -/
theorem Custody.final (h : Custody s) (hget : s.redis.jobs.get? id = some hash)
    (hterminal : hash.status.terminal = true) {hash' : JobHash} (hrewritten : Rewritten s e id hash hash') :
    hash'.verdict = hash.verdict := by
  cases hrewritten with
  | same | cancel | attempt => rfl
  | call write hhand =>
    obtain ⟨_, _, old, hold, hopen⟩ := h.callHeld hhand
    cases hget.symm.trans hold
    rw [hterminal] at hopen
    cases hopen
  | worker write hhand =>
    obtain ⟨_, _, old, hold, hopen⟩ := h.workerHeld hhand
    cases hget.symm.trans hold
    rw [hterminal] at hopen
    cases hopen

theorem leads_final (h : Custody s) (hl : (service cfg).Leads oneExecutor s u)
    (hget : s.redis.jobs.get? id = some hash) (hterminal : hash.status.terminal = true) :
    ∃ hash', u.redis.jobs.get? id = some hash' ∧ hash'.verdict = hash.verdict := by
  have hinv := Transition.System.leads_invariant
    (I := fun u => Custody u ∧ ∃ hash', u.redis.jobs.get? id = some hash' ∧ hash'.verdict = hash.verdict)
    (fun e s u ⟨hs, old, hold, hsame⟩ hrule hstep => ?_) hl ⟨h, hash, hget, rfl⟩
  · exact hinv.2
  · obtain ⟨new, hnew, hrewritten⟩ := step_hash hs hrule (step_some hstep) hold
    have hstatus : old.status = hash.status := congrArg Prod.fst hsame
    exact ⟨custody_step hs hrule hstep, new, hnew, (hs.final hold (hstatus ▸ hterminal) hrewritten).trans hsame⟩

end Hashes

/-! ### Dispatch -/

/-- How many calls have yet to dispatch the job. -/
def State.undispatched (s : State) (id : JobId) : Nat := s.calls.weigh fun call => has id call.phase.undispatched?

/-- A job is dispatched once, to the sandbox or to the queue, and what workers have or started
was pushed. -/
structure Dispatched (s : State) : Prop where
  once : ∀ id, s.undispatched id + s.sandboxed.count id + s.pushed.count id = s.created.count id
  queued : ∀ id, s.redis.queued id + s.inHands id ≤ s.pushed.count id
  started : ∀ id ∈ s.started, id ∈ s.pushed

section Dispatch
variable {cfg : Config} {e : Event} {s u : State} {c w : Nat} {id : JobId}

/-- A step of one call that starts nothing. -/
theorem Dispatched.callStep (h : Dispatched s) {call : Call} (hcalls : u.calls = s.calls.set c call)
    (hworkers : u.workers = s.workers) (hcreated : u.created = s.created) (hstarted : u.started = s.started)
    (hpushed : ∀ id ∈ s.pushed, id ∈ u.pushed)
    (hqueued : ∀ id, u.redis.queued id + s.pushed.count id = s.redis.queued id + u.pushed.count id)
    (honce : ∀ id, has id call.phase.undispatched? + u.sandboxed.count id + u.pushed.count id =
      has id (s.call c).phase.undispatched? + s.sandboxed.count id + s.pushed.count id) : Dispatched u := by
  refine ⟨fun id => ?_, fun id => ?_, fun id hmem => hpushed id (h.started id (hstarted ▸ hmem))⟩
  · have hset := Roster.weigh_set s.calls c call (f := fun call => has id call.phase.undispatched?) rfl
    have hbefore := h.once id
    have hmove := honce id
    simp only [State.undispatched, State.call, hcalls, hcreated] at hbefore hmove hset ⊢
    omega
  · have hbefore := h.queued id
    have hmove := hqueued id
    simp only [State.inHands, hworkers] at hbefore hmove ⊢
    omega

/-- A call's step that leaves Redis and the logs alone. -/
theorem Dispatched.callPhase (h : Dispatched s) {phase : CallPhase}
    (hsame : phase.undispatched? = (s.call c).phase.undispatched?) : Dispatched (s.setCall c phase) :=
  h.callStep rfl rfl rfl rfl (fun _ => id) (fun _ => rfl) fun id => by rw [← hsame]; rfl

/-- A worker's step takes no more jobs than the queues lose. -/
theorem Dispatched.workerStep (h : Dispatched s) {p : Worker} (hworkers : u.workers = s.workers.set w p)
    (hcalls : u.calls = s.calls) (hcreated : u.created = s.created) (hsandboxed : u.sandboxed = s.sandboxed)
    (hpushed : u.pushed = s.pushed)
    (hqueued : ∀ id, has id p.hand? + u.redis.queued id ≤ has id (s.worker w).hand? + s.redis.queued id)
    (hstarted : ∀ id ∈ u.started, id ∈ s.started ∨ (s.worker w).hand? = some id) : Dispatched u := by
  refine ⟨fun id => ?_, fun id => ?_, fun id hmem => ?_⟩
  · rw [State.undispatched, hcalls, hcreated, hsandboxed, hpushed]
    exact h.once id
  · have hset := Roster.weigh_set s.workers w p (f := fun p => has id p.hand?) rfl
    have hbefore := h.queued id
    have hmove := hqueued id
    simp only [State.inHands, State.worker, hworkers, hpushed] at hbefore hmove hset ⊢
    omega
  · rw [hpushed]
    rcases hstarted id hmem with hbefore | hhand
    · exact h.started id hbefore
    · have hle := Roster.le_weigh s.workers w (f := fun p => has id p.hand?) rfl
      have hone : has id (s.worker w).hand? = 1 := by rw [hhand, has_some, if_pos rfl]
      have hqueue := h.queued id
      apply List.count_pos_iff.mp
      simp only [State.inHands, State.worker] at hle hone hqueue
      omega

theorem Dispatched.workerPhase (h : Dispatched s) {p : Worker} (hhand : p.hand? = (s.worker w).hand?) :
    Dispatched (s.setWorker w p) :=
  h.workerStep rfl rfl rfl rfl rfl (fun id => by rw [← hhand]; rfl) fun _ => .inl

theorem undispatched_afterCreate (request : Request) (t : Ticket) :
    (State.afterCreate cfg request t).undispatched? = if t.reused then none else some t.id := by
  simp only [State.afterCreate]
  split <;> rfl

theorem undispatched_afterPush (request : Request) (t : Ticket) : (s.afterPush request t).undispatched? = none := by
  simp only [State.afterPush]
  split <;> rfl

theorem count_cons_has (l : List JobId) (id id' : JobId) : (id :: l).count id' = l.count id' + has id' (some id) := by
  simp only [List.count_cons, has_some, beq_iff_eq]

/-- A step that leaves calls, workers and logs alone. -/
theorem Dispatched.still (h : Dispatched s) (hcalls : u.calls = s.calls) (hworkers : u.workers = s.workers)
    (hcreated : u.created = s.created) (hsandboxed : u.sandboxed = s.sandboxed) (hpushed : u.pushed = s.pushed)
    (hstarted : u.started = s.started) (hqueued : ∀ id, u.redis.queued id = s.redis.queued id) : Dispatched u := by
  refine ⟨fun id => ?_, fun id => ?_, fun id hmem => ?_⟩
  · rw [State.undispatched, hcalls, hcreated, hsandboxed, hpushed]
    exact h.once id
  · rw [State.inHands, hworkers, hqueued, hpushed]
    exact h.queued id
  · rw [hpushed]
    exact h.started id (hstarted ▸ hmem)

theorem Dispatched.create (h : Dispatched s) {call : Call} (hphase : (s.call c).phase = .creating)
    (hcalls : u.calls = s.calls.set c call) (hworkers : u.workers = s.workers) (hcreated : u.created = id :: s.created)
    (hsandboxed : u.sandboxed = s.sandboxed) (hpushed : u.pushed = s.pushed) (hstarted : u.started = s.started)
    (hqueued : ∀ id, u.redis.queued id = s.redis.queued id) (hnew : call.phase.undispatched? = some id) :
    Dispatched u := by
  refine ⟨fun id' => ?_, fun id' => ?_, fun id' hmem => ?_⟩
  · have hset := Roster.weigh_set s.calls c call (f := fun call => has id' call.phase.undispatched?) rfl
    have hbefore := h.once id'
    have hempty : has id' (s.call c).phase.undispatched? = 0 := by rw [hphase]; rfl
    have hcount := count_cons_has s.created id id'
    simp only [State.undispatched, State.call, hcalls, hcreated, hsandboxed, hpushed, hnew] at hbefore hempty hset ⊢
    omega
  · rw [State.inHands, hworkers, hqueued, hpushed]
    exact h.queued id'
  · rw [hpushed]
    exact h.started id' (hstarted ▸ hmem)

theorem dispatched_step (hc : Custody s) (h : Dispatched s) (hrule : oneExecutor e s) (hstep : Step cfg s e u) :
    Dispatched u := by
  cases hstep with
  | tick hnow => exact h.still rfl rfl rfl rfl rfl rfl fun _ => rfl
  | cancel hget => exact h.still rfl rfl rfl rfl rfl rfl fun id' => Redis.queued_hset _ _ _ _
  | @submit c request phase hphase hnew =>
    have hnone : phase.undispatched? = (s.call c).phase.undispatched? := by
      rw [hphase]
      rcases hnew with rfl | ⟨_, message, rfl⟩ <;> rfl
    exact h.callStep (show _ = s.calls.set c ⟨request, phase⟩ from rfl) rfl rfl rfl (fun _ => id) (fun _ => rfl) fun id => by
      rw [← hnone]
  | hit hphase hkey hget =>
    refine h.callPhase ?_
    rw [undispatched_afterCreate, hphase]
    rfl
  | miss hphase hmiss => exact h.callPhase (by rw [hphase]; rfl)
  | create hphase hnone hencode =>
    exact h.create hphase rfl rfl rfl rfl rfl rfl (fun _ => rfl) (undispatched_afterCreate _ _)
  | unencoded hphase hencode => exact h.callPhase (by rw [hphase]; rfl)
  | @mark c t hphase =>
    obtain ⟨hnew, _⟩ := hrule t hphase
    refine h.callStep rfl rfl rfl rfl (fun _ => id) (fun id' => ?_) fun id' => ?_
    · exact congrArg (· + s.pushed.count id') (Redis.queued_hset _ _ _ _)
    · have hcount := count_cons_has s.sandboxed t.id id'
      rw [hphase, CallPhase.undispatched?, hnew]
      show 0 + (t.id :: s.sandboxed).count id' + s.pushed.count id' = has id' (some t.id) + _ + _
      omega
  | post hphase hends => exact h.callPhase (by rw [hphase]; rfl)
  | @write c t t0 success write rest hphase =>
    refine h.callStep rfl rfl rfl rfl (fun _ => id) (fun id' => ?_) fun id' => ?_
    · exact congrArg (· + s.pushed.count id') (Redis.queued_hset _ _ _ _)
    · rw [hphase]
      by_cases hdone : rest = []
      · rw [if_pos hdone]
        rfl
      · rw [if_neg hdone]
        rfl
  | @caught c t t0 message hphase => cases hrule t t0 hphase
  | uncaught hphase => exact h.callPhase (by rw [hphase]; rfl)
  | @recorded c t t0 success hphase =>
    have hcall := hc.call c
    simp only [CallOk, hphase] at hcall
    rw [if_pos hcall.2]
    exact h.callPhase (by rw [hphase]; rfl)
  | reread hphase => exact h.callPhase (by rw [hphase]; rfl)
  | skip hphase hreused =>
    refine h.callPhase ?_
    rw [undispatched_afterPush, hphase, CallPhase.undispatched?, if_pos hreused]
  | @push c t redis hphase hnew hpush =>
    refine h.callStep rfl rfl rfl rfl (fun _ => List.mem_cons_of_mem _) (fun id' => ?_) fun id' => ?_
    · have hqueued := Redis.queued_push hpush id'
      have hcount := count_cons_has s.pushed t.id id'
      show redis.queued id' + _ = _ + (t.id :: s.pushed).count id'
      omega
    · have hcount := count_cons_has s.pushed t.id id'
      rw [undispatched_afterPush, hphase, CallPhase.undispatched?, hnew]
      show 0 + s.sandboxed.count id' + (t.id :: s.pushed).count id' = has id' (some t.id) + _ + _
      omega
  | refused hphase hnew hpush => exact h.callPhase (by rw [hphase]; rfl)
  | poll hphase => exact h.callPhase (by rw [hphase]; rfl)
  | again hphase => exact h
  | pump hphase | endPump hphase | giveUp hphase | load hphase hget => exact h.workerPhase (by rw [hphase]; rfl)
  | finish hphase hconclude => exact h.workerPhase (by rw [hphase]; rfl)
  | @zpopmin w id seat now left score redis hphase hpop =>
    refine h.workerStep rfl rfl rfl rfl rfl (fun id' => ?_) fun _ => .inl
    have hqueued := Redis.queued_zpopmin hpop id'
    rw [hphase]
    show has id' (some id) + redis.queued id' ≤ 0 + s.redis.queued id'
    omega
  | @putBack w seat now left id score redis hphase hadd =>
    refine h.workerStep rfl rfl rfl rfl rfl (fun id' => ?_) fun _ => .inl
    have hqueued := Redis.queued_zadd hadd (hc.not_set (w := w) (by rw [hphase]; rfl)) id'
    rw [hphase]
    show 0 + redis.queued id' ≤ has id' (some id) + s.redis.queued id'
    omega
  | @putReady w seat now left id score redis hphase hdue hpush =>
    refine h.workerStep rfl rfl rfl rfl rfl (fun id' => ?_) fun _ => .inl
    have hqueued := Redis.queued_push hpush id'
    rw [hphase]
    show 0 + redis.queued id' ≤ has id' (some id) + s.redis.queued id'
    omega
  | @brpop w seat id redis hphase hpop =>
    refine h.workerStep rfl rfl rfl rfl rfl (fun id' => ?_) fun _ => .inl
    have hqueued := Redis.queued_pop hpop id'
    rw [hphase]
    show has id' (some id) + redis.queued id' ≤ 0 + s.redis.queued id'
    omega
  | lose hphase hnone =>
    exact h.workerStep rfl rfl rfl rfl rfl (fun id' => Nat.add_le_add_right (Nat.zero_le _) _) fun _ => .inl
  | @cancelled w seat id job hphase hcancel =>
    refine h.workerStep rfl rfl rfl rfl rfl (fun id' => ?_) fun _ => .inl
    exact Nat.add_le_add (Nat.zero_le _) (Redis.queued_hset _ _ _ _).le
  | @begin w seat id job hphase hcancel =>
    refine h.workerStep rfl rfl rfl rfl rfl (fun id' => ?_) fun _ => .inl
    rw [hphase]
    exact Nat.add_le_add le_rfl (Redis.queued_hset _ _ _ _).le
  | @count w seat id job hphase =>
    refine h.workerStep rfl rfl rfl rfl rfl (fun id' => ?_) fun _ => .inl
    rw [hphase]
    exact Nat.add_le_add le_rfl (Redis.queued_hset _ _ _ _).le
  | @start w seat id job attempt hphase =>
    refine h.workerStep rfl rfl rfl rfl rfl (fun id' => ?_) fun id' hmem => ?_
    · rw [hphase]
      exact le_rfl
    · rcases List.mem_cons.mp hmem with rfl | hbefore
      · exact .inr (by rw [hphase]; rfl)
      · exact .inl hbefore
  | @writeBack w seat id write rest delay hphase =>
    refine h.workerStep rfl rfl rfl rfl rfl (fun id' => ?_) fun _ => .inl
    rw [hphase]
    refine Nat.add_le_add ?_ (Redis.queued_hset _ _ _ _).le
    split
    · exact Nat.zero_le _
    · exact le_rfl
  | @schedule w seat id delay redis hphase hadd =>
    refine h.workerStep rfl rfl rfl rfl rfl (fun id' => ?_) fun _ => .inl
    have hqueued := Redis.queued_zadd hadd (hc.not_set (w := w) (by rw [hphase]; rfl)) id'
    rw [hphase]
    show 0 + redis.queued id' ≤ has id' (some id) + s.redis.queued id'
    omega

theorem dispatched_init : Dispatched {} := by
  refine ⟨fun _ => rfl, fun _ => le_rfl, fun id hmem => ?_⟩
  cases hmem

theorem dispatched_reachable (h : (service cfg).Reachable oneExecutor s) : Dispatched s := by
  have hboth : Custody s ∧ Dispatched s := by
    refine Transition.System.reachable_invariant (I := fun s => Custody s ∧ Dispatched s) (fun s hs => ?_) ?_ h
    · rw [show s = {} from hs]
      exact ⟨custody_init, dispatched_init⟩
    · intro e s u ⟨hc, hd⟩ hrule hstep
      exact ⟨custody_step hc hrule hstep, dispatched_step hc hd hrule (step_some hstep)⟩
  exact hboth.2

end Dispatch

/-- **As long as sandbox runs are first runs, waited for, and recorded without an exception once they
succeeded, a terminal job keeps its status, result and error, and a job is run by the sandbox
at most once and then by no worker.** -/
theorem terminal_final (cfg : Config) {s : State} (h : (service cfg).Reachable oneExecutor s) :
    (∀ u, (service cfg).Leads oneExecutor s u → ∀ id hash, s.redis.jobs.get? id = some hash →
      hash.status.terminal = true → ∃ hash', u.redis.jobs.get? id = some hash' ∧ hash'.verdict = hash.verdict) ∧
    (∀ id, s.sandboxed.count id ≤ 1) ∧ ∀ id ∈ s.sandboxed, id ∉ s.started := by
  have hc := custody_reachable h
  have hd := dispatched_reachable h
  have hcount : ∀ id, s.created.count id ≤ 1 := List.nodup_iff_count_le_one.mp hc.once
  refine ⟨fun u hl id hash hget hterminal => leads_final hc hl hget hterminal, fun id => ?_, fun id hmem hstarted => ?_⟩
  · have honce := hd.once id
    have hone := hcount id
    omega
  · have hsandboxed : 0 < s.sandboxed.count id := List.count_pos_iff.mpr hmem
    have hpushed : 0 < s.pushed.count id := List.count_pos_iff.mpr (hd.started id hstarted)
    have honce := hd.once id
    have hone := hcount id
    omega

def sandboxing : Config where
  agents := ["grover_search", "echo"]
  sandboxUrl := "http://grover"

/-- A run of the sandbox by a caller that waits, and then a worker's run of another job. -/
def waitedRun : List Event :=
  [.submit 0 { agent := "grover_search", wait := true }, .lookup 0, .create 0 7, .mark 0, .post 0 (.ok "\x7b\x7d"),
    .write 0, .write 0, .record 0 none, .reread 0, .submit 1 { agent := "echo" }, .lookup 1, .create 1 8, .push 1,
    .pump 0 ⟨"default", 60⟩, .endPump 0, .brpop 0, .load 0, .begin 0, .count 0, .start 0]

/-- The rule, as a test. -/
def oneExecutorTest : Event → State → Bool
  | .mark c, s =>
    match (s.call c).phase with
    | .routed t => !t.reused && (s.call c).request.wait
    | _ => true
  | .record c raised, s =>
    match (s.call c).phase with
    | .recording _ _ true => raised.isNone
    | _ => true
  | _, _ => true

theorem oneExecutor_of_test (e : Event) (s : State) (h : oneExecutorTest e s = true) : oneExecutor e s := by
  cases e with
  | mark c =>
    intro t hphase
    simp only [oneExecutorTest, hphase, Bool.and_eq_true, Bool.not_eq_true'] at h
    exact h
  | record c raised =>
    intro t t0 hphase
    simp only [oneExecutorTest, hphase, Option.isNone_iff_eq_none] at h
    exact h
  | _ => trivial

theorem terminal_final_waited : ∃ s hash, (service sandboxing).Reachable oneExecutor s ∧
    s.redis.jobs.get? 7 = some hash ∧ hash.status = .succeeded ∧ s.sandboxed = [7] ∧ s.started = [8] ∧ 7 ∉ s.started ∧
    ∀ u, (service sandboxing).Leads oneExecutor s u → ∃ hash', u.redis.jobs.get? 7 = some hash' ∧
      hash'.status = .succeeded := by
  have hrun : (Transition.System.walk (service sandboxing) oneExecutorTest {} waitedRun).map
      (fun s => ((s.redis.jobs.get? 7).map fun h => h.status, s.sandboxed, s.started)) =
        some (some .succeeded, [7], [8]) := by decide +kernel
  obtain ⟨s, hs, hseen⟩ := Option.map_eq_some_iff.mp hrun
  have hreach : (service sandboxing).Reachable oneExecutor s :=
    ⟨{}, rfl, Transition.System.walk_leads (fun e _ => oneExecutor_of_test e) hs⟩
  simp only [Prod.mk.injEq] at hseen
  obtain ⟨hstatus, hsandboxed, hstarted⟩ := hseen
  obtain ⟨hash, hget, hsucceeded⟩ := Option.map_eq_some_iff.mp hstatus
  obtain ⟨hfinal, _, hone⟩ := terminal_final sandboxing hreach
  refine ⟨s, hash, hreach, hget, hsucceeded, hsandboxed, hstarted, ?_, fun u hl => ?_⟩
  · exact hone 7 (by rw [hsandboxed]; decide)
  · obtain ⟨hash', hget', hsame⟩ := hfinal u hl 7 hash hget (by rw [hsucceeded]; rfl)
    exact ⟨hash', hget', (congrArg Prod.fst hsame).trans hsucceeded⟩

/-- A sandbox run succeeds, its caller does not wait, and a worker runs the job again. -/
def rerun : List Event :=
  [.record 0 none, .push 0, .pump 0 ⟨"default", 60⟩, .endPump 0, .brpop 0, .load 0, .begin 0, .count 0, .start 0]

theorem terminal_rerun : ∃ s u hash hash', (service sandboxing).Reachable Transition.anything s ∧
    (service sandboxing).Leads Transition.anything s u ∧ s.redis.jobs.get? 7 = some hash ∧ hash.status = .succeeded ∧
    u.redis.jobs.get? 7 = some hash' ∧ hash'.status = .running ∧ 7 ∈ u.sandboxed ∧ 7 ∈ u.started := by
  have hrun : ((service sandboxing).run {}
      [.submit 0 { agent := "grover_search" }, .lookup 0, .create 0 7, .mark 0, .post 0 (.ok "\x7b\x7d"), .write 0,
        .write 0]).map (fun s => ((s.redis.jobs.get? 7).map fun h => h.status,
          ((service sandboxing).run s rerun).map fun u =>
            ((u.redis.jobs.get? 7).map fun h => h.status, u.sandboxed, u.started))) =
        some (some .succeeded, some (some .running, [7], [7])) := by decide +kernel
  obtain ⟨s, hs, hseen⟩ := Option.map_eq_some_iff.mp hrun
  obtain ⟨hsucceeded, hmore⟩ := Prod.mk.inj hseen
  obtain ⟨u, hu, hafter⟩ := Option.map_eq_some_iff.mp hmore
  simp only [Prod.mk.injEq] at hafter
  obtain ⟨hrunning, hsandboxed, hstarted⟩ := hafter
  obtain ⟨hash, hget, hstatus⟩ := Option.map_eq_some_iff.mp hsucceeded
  obtain ⟨hash', hget', hstatus'⟩ := Option.map_eq_some_iff.mp hrunning
  exact ⟨s, u, hash, hash', Transition.System.run_reachable rfl hs, Transition.System.run_leads hu, hget, hstatus,
    hget', hstatus', by rw [hsandboxed]; decide, by rw [hstarted]; decide⟩

end SynQc.Agents
