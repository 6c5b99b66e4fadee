import SynQc.Agents.Finality

/-! How often an agent is started, and when a delayed job is due.

The attempts of a hash count the starts of its job, apart from a worker that has counted and
not yet started. A job that is neither ended nor being tried has an attempt to spare. -/
namespace SynQc.Agents

/-- The job a worker has counted an attempt of and not yet started. -/
def Worker.counted? : Worker → Option JobId
  | .counted _ id _ _ => some id
  | _ => none

/-- The job of an attempt that is not known to be retried. -/
def Worker.trying? : Worker → Option JobId
  | .counted _ id _ _ | .running _ id _ _ | .writing _ id _ none => some id
  | _ => none

theorem Worker.hand_of_trying {p : Worker} {id : JobId} (h : p.trying? = some id) : p.hand? = some id := by
  cases p with
  | counted | running => exact h
  | writing seat id' writes delay =>
    cases delay with
    | none => exact h
    | some delay => cases h
  | _ => cases h

def State.counting (s : State) (id : JobId) : Nat := s.workers.weigh fun p => has id p.counted?

/-- What a worker knows of its job's hash. -/
def AttemptOk (r : Redis) : Worker → Prop
  | .loaded _ id job | .marked _ id job => ∃ hash, r.jobs.get? id = some hash ∧ job.maxAttempts = hash.maxAttempts
  | .counted _ id job attempt | .running _ id job attempt =>
    ∃ hash, r.jobs.get? id = some hash ∧ job.maxAttempts = hash.maxAttempts ∧ attempt = hash.attempts
  | _ => True

/-- There may be another attempt. -/
def Spare (h : JobHash) : Prop := h.attempts = 0 ∨ (h.attempts : Int) < maxAttempts h

structure Attempted (s : State) : Prop where
  starts : ∀ id hash, s.redis.jobs.get? id = some hash → hash.attempts = s.started.count id + s.counting id
  worker : ∀ w, AttemptOk s.redis (s.worker w)
  limit : ∀ id hash, s.redis.jobs.get? id = some hash → (hash.attempts : Int) ≤ max 1 (maxAttempts hash)
  spare : ∀ id hash, s.redis.jobs.get? id = some hash → hash.status.terminal = false →
    (∀ w, (s.worker w).trying? ≠ some id) → Spare hash

/-! ### Hashes -/

section Hashes
variable {cfg : Config} {s u : State} {e : Event} {w : Nat} {id : JobId} {hash hash' : JobHash}

theorem Rewritten.maxAttempts_eq (h : Rewritten s e id hash hash') : hash'.maxAttempts = hash.maxAttempts := by
  cases h with
  | same | cancel | attempt => rfl
  | call write | worker write => cases write <;> rfl

theorem Rewritten.cancelRequested (h : Rewritten s e id hash hash') (hcancel : hash.cancelRequested = true) :
    hash'.cancelRequested = true := by
  cases h with
  | same | attempt => exact hcancel
  | cancel => rfl
  | call write | worker write => cases write <;> exact hcancel

/-- Attempts are counted by `increment_attempts` alone. -/
theorem Rewritten.attempts_eq (h : Rewritten s e id hash hash') (hcount : ∀ w, e ≠ .count w) :
    hash'.attempts = hash.attempts := by
  cases h with
  | same | cancel => rfl
  | attempt hevent => exact absurd hevent (hcount _)
  | call write | worker write => cases write <;> rfl

/-- Nobody else counts an attempt of a worker's job. -/
theorem Rewritten.attempts_held (h : Rewritten s e id hash hash') (hc : Custody s)
    (hhand : (s.worker w).hand? = some id) (hcount : e ≠ .count w) : hash'.attempts = hash.attempts := by
  cases h with
  | same | cancel => rfl
  | attempt hevent hphase =>
    have hw := hc.one_worker hhand (by rw [hphase]; rfl)
    subst hw
    exact absurd hevent hcount
  | call write | worker write => cases write <;> rfl

theorem maxAttempts_congr (h : hash'.maxAttempts = hash.maxAttempts) : maxAttempts hash' = maxAttempts hash := by
  simp only [maxAttempts, h]

/-- A hash after a step is new, or comes from one before. -/
theorem hash_before (hc : Custody s) (hrule : oneExecutor e s) (hstep : Step cfg s e u)
    (hget : u.redis.jobs.get? id = some hash') :
    (s.redis.jobs.get? id = none ∧ hash'.attempts = 0) ∨
      ∃ hash, s.redis.jobs.get? id = some hash ∧ Rewritten s e id hash hash' := by
  cases hbefore : s.redis.jobs.get? id with
  | some hash =>
    obtain ⟨hash'', hget', hrewritten⟩ := step_hash hc hrule hstep hbefore
    cases hget.symm.trans hget'
    exact .inr ⟨hash, rfl, hrewritten⟩
  | none =>
    refine .inl ⟨rfl, ?_⟩
    have hgone : ∀ {id' : JobId} {f : JobHash → JobHash}, (s.redis.hset id' f).jobs.get? id ≠ some hash' := by
      intro id' f hsome
      obtain ⟨hash, hhash⟩ := (Redis.known_hset _ _ _ _).mp ⟨hash', hsome⟩
      cases hbefore.symm.trans hhash
    have hframe : ∀ {r : Redis}, r.jobs = s.redis.jobs → r.jobs.get? id = some hash' → hash'.attempts = 0 := by
      intro r hjobs hsome
      rw [hjobs] at hsome
      cases hbefore.symm.trans hsome
    cases hstep with
    | @create c id' runInput hphase hnone hencode =>
      by_cases hid : id' = id
      · subst hid
        cases (Dict.get?_set_self _ _ _).symm.trans hget
        rfl
      · cases hbefore.symm.trans ((Dict.get?_set_ne _ _ hid).symm.trans hget)
    | cancel | mark | write | cancelled | begin | count | writeBack => exact absurd hget hgone
    | push hphase hnew hpush => exact hframe (Redis.push_frame hpush).1 hget
    | zpopmin hphase hpop => exact hframe (Redis.zpopmin_frame hpop).1 hget
    | putBack hphase hadd => exact hframe (Redis.zadd_frame hadd).1 hget
    | putReady hphase hdue hpush => exact hframe (Redis.push_frame hpush).1 hget
    | brpop hphase hpop => exact hframe (Redis.pop_frame hpop).1 hget
    | schedule hphase hadd => exact hframe (Redis.zadd_frame hadd).1 hget
    | _ => cases hbefore.symm.trans hget

theorem attemptOk_frame (hc : Custody s) (hrule : oneExecutor e s) (hstep : Step cfg s e u)
    (hcount : e ≠ .count w) (h : AttemptOk s.redis (s.worker w)) : AttemptOk u.redis (s.worker w) := by
  cases hphase : s.worker w with
  | loaded seat id job | marked seat id job =>
    rw [hphase] at h
    obtain ⟨hash, hget, hmax⟩ := h
    obtain ⟨hash', hget', hrewritten⟩ := step_hash hc hrule hstep hget
    exact ⟨hash', hget', hmax.trans hrewritten.maxAttempts_eq.symm⟩
  | counted seat id job attempt | running seat id job attempt =>
    rw [hphase] at h
    obtain ⟨hash, hget, hmax, hattempt⟩ := h
    obtain ⟨hash', hget', hrewritten⟩ := step_hash hc hrule hstep hget
    refine ⟨hash', hget', hmax.trans hrewritten.maxAttempts_eq.symm, hattempt.trans ?_⟩
    exact (hrewritten.attempts_held hc (by rw [hphase]; rfl) hcount).symm
  | _ => trivial

end Hashes

/-! ### Attempts -/

section Steps
variable {cfg : Config} {s u : State} {e : Event} {w : Nat}

/-- A job that is not created is counted by nobody. -/
theorem Dispatched.no_starts (h : Dispatched s) (hc : Custody s) {id : JobId} (hnone : s.redis.jobs.get? id = none) :
    s.started.count id + s.counting id = 0 := by
  have hnew : id ∉ s.created := by
    intro hmem
    obtain ⟨hash, hhash⟩ := (hc.known id).mp hmem
    cases hnone.symm.trans hhash
  have honce := h.once id
  have hplaced := hc.placed id
  have hcreated := List.count_eq_zero.mpr hnew
  have hstarted : s.started.count id = 0 := by
    apply List.count_eq_zero.mpr
    intro hmem
    have hpushed := List.count_pos_iff.mpr (h.started id hmem)
    omega
  have hcounting : s.counting id = 0 := by
    by_contra hne
    obtain ⟨w, hw⟩ := Roster.exists_of_weigh_pos (Nat.pos_of_ne_zero hne)
    have hle := Roster.le_weigh s.workers w (f := fun p => has id p.hand?) rfl
    have hhand : has id (s.workers.phase w).counted? ≤ has id (s.workers.phase w).hand? := by
      cases s.workers.phase w with
      | counted => exact le_rfl
      | _ => exact Nat.zero_le _
    simp only [State.places, State.inHands] at hplaced
    omega
  omega

/-- A step other than `increment_attempts`. -/
theorem Attempted.next (h : Attempted s) (hc : Custody s) (hd : Dispatched s) (hrule : oneExecutor e s)
    (hstep : Step cfg s e u) (hcount : ∀ w, e ≠ .count w)
    (hstarts : ∀ id, u.started.count id + u.counting id = s.started.count id + s.counting id)
    (hworker : ∀ w, AttemptOk u.redis (u.worker w))
    (htrying : ∀ w id hash, (s.worker w).trying? = some id → (∀ w', (u.worker w').trying? ≠ some id) →
      u.redis.jobs.get? id = some hash → hash.status.terminal = false → Spare hash) : Attempted u := by
  refine ⟨fun id hash' hget => ?_, hworker, fun id hash' hget => ?_, fun id hash' hget hopen hnone => ?_⟩
  · rw [hstarts]
    rcases hash_before hc hrule hstep hget with ⟨hnew, hzero⟩ | ⟨hash, hget', hrewritten⟩
    · rw [hzero, hd.no_starts hc hnew]
    · rw [hrewritten.attempts_eq hcount]
      exact h.starts id hash hget'
  · rcases hash_before hc hrule hstep hget with ⟨_, hzero⟩ | ⟨hash, hget', hrewritten⟩
    · rw [hzero]
      exact le_max_of_le_left (by decide)
    · rw [hrewritten.attempts_eq hcount, maxAttempts_congr hrewritten.maxAttempts_eq]
      exact h.limit id hash hget'
  · rcases hash_before hc hrule hstep hget with ⟨_, hzero⟩ | ⟨hash, hget', hrewritten⟩
    · exact .inl hzero
    · by_cases htry : ∃ w, (s.worker w).trying? = some id
      · obtain ⟨w, hw⟩ := htry
        exact htrying w id hash' hw hnone hget hopen
      · have hbefore : hash.status.terminal = false := by
          by_contra hterminal
          rw [Bool.not_eq_false] at hterminal
          have hverdict := congrArg Prod.fst (hc.final hget' hterminal hrewritten)
          rw [show hash'.status = hash.status from hverdict, hterminal] at hopen
          cases hopen
        rw [Spare, hrewritten.attempts_eq hcount, maxAttempts_congr hrewritten.maxAttempts_eq]
        exact h.spare id hash hget' hbefore fun w hw => htry ⟨w, hw⟩

/-- A step of no worker. -/
theorem Attempted.still (h : Attempted s) (hc : Custody s) (hd : Dispatched s) (hrule : oneExecutor e s)
    (hstep : Step cfg s e u) (hcount : ∀ w, e ≠ .count w) (hworkers : u.workers = s.workers)
    (hstarted : u.started = s.started) : Attempted u := by
  have hsame : ∀ w, u.worker w = s.worker w := fun w => by rw [State.worker, hworkers]; rfl
  refine h.next hc hd hrule hstep hcount (fun id => ?_) (fun w => ?_) fun w id hash hw hnone => ?_
  · rw [State.counting, hworkers, hstarted]
    rfl
  · rw [hsame]
    exact attemptOk_frame hc hrule hstep (hcount w) (h.worker w)
  · exact absurd ((congrArg Worker.trying? (hsame w)).trans hw) (hnone w)

/-- A step of one worker, which may end an attempt. -/
theorem Attempted.workerStep (h : Attempted s) (hc : Custody s) (hd : Dispatched s) (hrule : oneExecutor e s)
    (hstep : Step cfg s e u) (hcount : ∀ w, e ≠ .count w) {p : Worker} (hworkers : u.workers = s.workers.set w p)
    (hok : AttemptOk u.redis p)
    (hstarts : ∀ id, u.started.count id + has id p.counted? = s.started.count id + has id (s.worker w).counted?)
    (htrying : ∀ id hash, (s.worker w).trying? = some id → p.trying? ≠ some id →
      u.redis.jobs.get? id = some hash → hash.status.terminal = false → Spare hash) : Attempted u := by
  have hphase : ∀ w', u.worker w' = if w = w' then p else s.worker w' := fun w' => by
    rw [State.worker, hworkers, Roster.phase_set]
    rfl
  refine h.next hc hd hrule hstep hcount (fun id => ?_) (fun w' => ?_) fun w' id hash hw' hnone => ?_
  · have hset := Roster.weigh_set s.workers w p (f := fun p => has id p.counted?) rfl
    have hmove := hstarts id
    simp only [State.counting, State.worker, hworkers] at hmove hset ⊢
    omega
  · rw [hphase]
    split
    · exact hok
    · exact attemptOk_frame hc hrule hstep (hcount w') (h.worker w')
  · by_cases hw : w = w'
    · subst hw
      have hnot := hnone w
      rw [hphase, if_pos rfl] at hnot
      exact htrying id hash hw' hnot
    · have hnot := hnone w'
      rw [hphase, if_neg hw] at hnot
      exact absurd hw' hnot

/-- A worker's step between phases that count and try the same. -/
theorem Attempted.workerPhase (h : Attempted s) (hc : Custody s) (hd : Dispatched s) (hrule : oneExecutor e s)
    (hstep : Step cfg s e u) (hcount : ∀ w, e ≠ .count w) {p : Worker} (hworkers : u.workers = s.workers.set w p)
    (hstarted : u.started = s.started) (hok : AttemptOk u.redis p) (hcounted : p.counted? = (s.worker w).counted?)
    (htrying : p.trying? = (s.worker w).trying?) : Attempted u := by
  refine h.workerStep hc hd hrule hstep hcount hworkers hok (fun id => ?_) fun id hash hw hnot => ?_
  · rw [hstarted, hcounted]
  · exact absurd (htrying.trans hw) hnot

theorem Attempted.count (h : Attempted s) (hc : Custody s) (hrule : oneExecutor (.count w) s) {seat : Seat}
    {id : JobId} {job : JobHash} (hphase : s.worker w = .marked seat id job) (hstep : Step cfg s (.count w) u)
    (hu : u = {s with
      redis := s.redis.hset id fun h => {h with attempts := h.attempts + 1}}.setWorker w
        (.counted seat id job (s.redis.nextAttempt id))) : Attempted u := by
  have hhand : (s.worker w).hand? = some id := by rw [hphase]; rfl
  obtain ⟨_, _, hash, hget, hopen⟩ := hc.workerHeld hhand
  have hmarked := h.worker w
  rw [hphase] at hmarked
  obtain ⟨found, hfound, hmax⟩ := hmarked
  cases hget.symm.trans hfound
  have hspare : Spare hash := by
    refine h.spare id hash hget hopen fun w' htry => ?_
    have hw := hc.one_worker hhand (Worker.hand_of_trying htry)
    subst hw
    rw [hphase] at htry
    cases htry
  have hjobs : ∀ id', u.redis.jobs.get? id' =
      if id = id' then (s.redis.jobs.get? id').map fun h => {h with attempts := h.attempts + 1}
      else s.redis.jobs.get? id' := fun id' => by
    rw [hu]
    exact Redis.get?_hset _ _ _ _
  have hworker : ∀ w', u.worker w' =
      if w = w' then .counted seat id job (s.redis.nextAttempt id) else s.worker w' := fun w' => by
    rw [hu]
    exact Roster.phase_set _ _ _ _
  have hcounting : ∀ id', u.counting id' = s.counting id' + has id' (some id) := fun id' => by
    have hset := Roster.weigh_set s.workers w (.counted seat id job (s.redis.nextAttempt id))
      (f := fun p => has id' p.counted?) rfl
    have hempty : has id' (s.worker w).counted? = 0 := by rw [hphase]; rfl
    rw [hu]
    simp only [State.counting, State.worker, State.setWorker, Worker.counted?] at hempty hset ⊢
    omega
  have hstarted : u.started = s.started := by rw [hu]; rfl
  refine ⟨fun id' hash' hget' => ?_, fun w' => ?_, fun id' hash' hget' => ?_, fun id' hash' hget' hopen' hnone => ?_⟩
  · rw [hcounting, hstarted, has_some]
    rw [hjobs] at hget'
    by_cases hid : id = id'
    · subst hid
      rw [if_pos rfl, hget] at hget'
      cases hget'
      have hstarts := h.starts id hash hget
      rw [if_pos rfl]
      show hash.attempts + 1 = _
      omega
    · rw [if_neg hid] at hget'
      rw [if_neg hid]
      exact h.starts id' hash' hget'
  · rw [hworker]
    by_cases hw : w = w'
    · rw [if_pos hw]
      refine ⟨{hash with attempts := hash.attempts + 1}, ?_, hmax, ?_⟩
      · rw [hjobs, if_pos rfl, hget]
        rfl
      · simp only [Redis.nextAttempt, hget]
    · rw [if_neg hw]
      refine attemptOk_frame hc hrule hstep (fun hevent => hw ?_) (h.worker w')
      cases hevent
      rfl
  · rw [hjobs] at hget'
    by_cases hid : id = id'
    · subst hid
      rw [if_pos rfl, hget] at hget'
      cases hget'
      show ((hash.attempts + 1 : Nat) : Int) ≤ max 1 (maxAttempts hash)
      rcases hspare with hzero | hless <;> omega
    · rw [if_neg hid] at hget'
      exact h.limit id' hash' hget'
  · rw [hjobs] at hget'
    by_cases hid : id = id'
    · have hnot := hnone w
      rw [hworker, if_pos rfl, ← hid] at hnot
      exact absurd rfl hnot
    · rw [if_neg hid] at hget'
      refine h.spare id' hash' hget' hopen' fun w' htry => ?_
      by_cases hw : w = w'
      · subst hw
        rw [hphase] at htry
        cases htry
      · have hnot := hnone w'
        rw [hworker, if_neg hw] at hnot
        exact hnot htry

/-- A retry is only scheduled below the job's attempts. -/
theorem retry_below {seat : Seat} {job : JobHash} {attempt : Nat} {outcome : Outcome} {writes : List Write} {delay : Nat}
    (h : State.conclude seat job attempt outcome = some (writes, some delay)) : (attempt : Int) < maxAttempts job := by
  cases outcome with
  | timedOut | silent | ok result => cases h
  | error errType message traceback =>
    rcases State.conclude_error h with ⟨hbelow, _, _⟩ | ⟨hnone, _⟩
    · exact hbelow
    · cases hnone

theorem attempted_step (h : Attempted s) (hc : Custody s) (hd : Dispatched s) (hrule : oneExecutor e s)
    (hstep : Step cfg s e u) : Attempted u := by
  cases id hstep with
  | tick | cancel | submit | hit | miss | create | unencoded | mark | post | write | caught | uncaught | recorded | reread
  | skip | push | refused | poll | again => exact h.still hc hd hrule hstep nofun rfl rfl
  | pump hphase | endPump hphase | giveUp hphase | lose hphase =>
    exact h.workerPhase hc hd hrule hstep nofun rfl rfl trivial (by rw [hphase]; rfl) (by rw [hphase]; rfl)
  | putBack hphase hadd =>
    exact h.workerPhase hc hd hrule hstep nofun rfl rfl trivial (by rw [hphase]; rfl) (by rw [hphase]; rfl)
  | putReady hphase hdue hpush =>
    exact h.workerPhase hc hd hrule hstep nofun rfl rfl trivial (by rw [hphase]; rfl) (by rw [hphase]; rfl)
  | zpopmin hphase hpop | brpop hphase hpop =>
    exact h.workerPhase hc hd hrule hstep nofun rfl rfl trivial (by rw [hphase]; rfl) (by rw [hphase]; rfl)
  | cancelled hphase hcancel =>
    exact h.workerPhase hc hd hrule hstep nofun rfl rfl trivial (by rw [hphase]; rfl) (by rw [hphase]; rfl)
  | load hphase hget =>
    exact h.workerPhase hc hd hrule hstep nofun rfl rfl ⟨_, hget, rfl⟩ (by rw [hphase]; rfl) (by rw [hphase]; rfl)
  | @begin w seat id job hphase hcancel =>
    have hok := attemptOk_frame (w := w) hc hrule hstep nofun (h.worker w)
    rw [hphase] at hok
    exact h.workerPhase hc hd hrule hstep nofun rfl rfl hok (by rw [hphase]; rfl) (by rw [hphase]; rfl)
  | count hphase => exact h.count hc hrule hphase hstep rfl
  | @start w seat id job attempt hphase =>
    have hok := h.worker w
    rw [hphase] at hok
    refine h.workerStep hc hd hrule hstep nofun rfl hok (fun id' => ?_) fun id' hash htry hnot => ?_
    · rw [hphase]
      exact count_cons_has s.started id id'
    · rw [hphase] at htry
      exact absurd htry hnot
  | @finish w outcome seat id job attempt writes delay hphase hconclude =>
    have hok := h.worker w
    rw [hphase] at hok
    obtain ⟨hash, hget, hmax, hattempt⟩ := hok
    refine h.workerStep hc hd hrule hstep nofun rfl trivial (fun id' => ?_) fun id' hash' htry hnot hget' _ => ?_
    · rw [hphase]
      rfl
    · rw [hphase] at htry
      cases htry
      cases hget.symm.trans hget'
      cases delay with
      | none => exact absurd rfl hnot
      | some delay =>
        refine .inr ?_
        rw [← maxAttempts_congr hmax, ← hattempt]
        exact retry_below hconclude
  | @writeBack w seat id write rest delay hphase =>
    have hworker := hc.worker w
    rw [hphase] at hworker
    refine h.workerStep hc hd hrule hstep nofun rfl ?_ (fun id' => ?_) fun id' hash' htry hnot hget' hopen => ?_
    · split <;> trivial
    · rw [hphase]
      split <;> rfl
    · rw [hphase] at htry
      cases delay with
      | some delay => cases htry
      | none =>
        cases htry
        rcases Write.ends_cons hworker with ⟨rfl, hcloses⟩ | ⟨hmore, _, _⟩
        · obtain ⟨_, _, hash, hget, _⟩ := hc.workerHeld (show (s.worker w).hand? = some id by rw [hphase]; rfl)
          have hwritten : (s.redis.hset id (write.apply s.now)).jobs.get? id = some (write.apply s.now hash) := by
            rw [Redis.get?_hset, if_pos rfl, hget]
            rfl
          cases hwritten.symm.trans hget'
          rw [Write.apply_closes hash hcloses] at hopen
          cases hopen
        · rw [if_neg fun hdone => hmore hdone.1] at hnot
          exact absurd rfl hnot
  | @schedule w seat id delay redis hphase hadd =>
    exact h.workerPhase hc hd hrule hstep nofun rfl rfl trivial (by rw [hphase]; rfl) (by rw [hphase]; rfl)

end Steps

/-! ### Due times -/

/-- A pump read its clock before now, and what it popped has its due time. -/
def TimeOk (s : State) : Worker → Prop
  | .pumping _ now _ => now ≤ s.now
  | .popped _ now _ id score => now ≤ s.now ∧ s.dues.get? id = some score
  | _ => True

/-- The scores in the delayed sets are due times. -/
structure Scheduled (s : State) : Prop where
  delayed : ∀ key id score, (s.redis.kept key).scores.get? id = some score → s.dues.get? id = some score
  worker : ∀ w, TimeOk s (s.worker w)

section Times
variable {cfg : Config} {s u : State} {e : Event} {w : Nat}

section Scores
variable {r r' : Redis} {queue : QueueName} {key : String} {id id' : JobId} {due score score' : Time}

theorem Redis.mem_push (hpush : r.push queue id = some r') (h : (r'.kept key).scores.get? id' = some score) :
    (r.kept key).scores.get? id' = some score := by
  obtain ⟨_, hr⟩ := Redis.push_some hpush
  rw [Redis.kept_set (congrArg Redis.queues hr)] at h
  split at h
  · cases h
  · exact h

theorem Redis.mem_pop (hpop : r.pop queue = some (id, r')) (h : (r'.kept key).scores.get? id' = some score) :
    (r.kept key).scores.get? id' = some score := by
  obtain ⟨_, _, hr⟩ := Redis.pop_some hpop
  rw [Redis.kept_set (congrArg Redis.queues hr)] at h
  split at h
  · cases h
  · exact h

theorem Redis.mem_zadd (hadd : r.zadd queue id due = some r') (h : (r'.kept key).scores.get? id' = some score) :
    (id' = id ∧ score = due) ∨ (r.kept key).scores.get? id' = some score := by
  obtain ⟨_, hr⟩ := Redis.zadd_some hadd
  rw [Redis.kept_set (congrArg Redis.queues hr)] at h
  split at h
  · rename_i hkey
    subst hkey
    rw [Kept.scores_zset, Dict.get?_set] at h
    split at h
    · rename_i hid
      exact .inl ⟨hid.symm, (Option.some.inj h).symm⟩
    · exact .inr h
  · exact .inr h

theorem Redis.mem_zpopmin (hpop : r.zpopmin queue id = some (score, r'))
    (h : (r'.kept key).scores.get? id' = some score') : (r.kept key).scores.get? id' = some score' := by
  obtain ⟨_, hr⟩ := Redis.zpopmin_some hpop
  rw [Redis.kept_set (congrArg Redis.queues hr)] at h
  split at h
  · rename_i hkey
    subst hkey
    rw [Kept.scores_zset, Dict.get?_erase] at h
    split at h
    · cases h
    · exact h
  · exact h

theorem Redis.not_delayed (h : r.set id = 0) (key : String) : (r.kept key).scores.get? id = none := by
  have hle := r.le_set key id
  cases hget : (r.kept key).scores.get? id with
  | none => rfl
  | some due =>
    rw [h, hget] at hle
    cases hle

end Scores

theorem TimeOk.later {p : Worker} (h : TimeOk s p) (hnow : s.now ≤ u.now) (hdues : u.dues = s.dues) : TimeOk u p := by
  cases p with
  | pumping seat now left => exact le_trans h hnow
  | popped seat now left id score => exact ⟨le_trans h.1 hnow, hdues ▸ h.2⟩
  | _ => trivial

/-- A step of no worker. -/
theorem Scheduled.still (h : Scheduled s) (hqueues : u.redis.queues = s.redis.queues)
    (hworkers : u.workers = s.workers) (hdues : u.dues = s.dues) (hnow : s.now ≤ u.now) : Scheduled u := by
  refine ⟨fun key id score hget => ?_, fun w => ?_⟩
  · rw [hdues]
    rw [Redis.kept, hqueues] at hget
    exact h.delayed key id score hget
  · rw [State.worker, hworkers]
    exact (h.worker w).later hnow hdues

/-- A step of one worker that schedules nothing. -/
theorem Scheduled.workerStep (h : Scheduled s) {p : Worker} (hworkers : u.workers = s.workers.set w p)
    (hdues : u.dues = s.dues) (hnow : u.now = s.now) (hok : TimeOk s p)
    (hdelayed : ∀ key id score, (u.redis.kept key).scores.get? id = some score → s.dues.get? id = some score) :
    Scheduled u := by
  refine ⟨fun key id score hget => ?_, fun w' => ?_⟩
  · rw [hdues]
    exact hdelayed key id score hget
  · rw [State.worker, hworkers, Roster.phase_set]
    split
    · exact hok.later hnow.ge hdues
    · exact (h.worker w').later hnow.ge hdues

theorem scheduled_step (h : Scheduled s) (hc : Custody s) (hstep : Step cfg s e u) : Scheduled u := by
  cases hstep with
  | tick hnow => exact h.still rfl rfl rfl hnow
  | submit | hit | miss | create | unencoded | post | caught | uncaught | recorded | reread | skip | refused | poll
  | again => exact h.still rfl rfl rfl le_rfl
  | cancel | mark | write => exact h.still (Redis.hset_frame _ _ _).2 rfl rfl le_rfl
  | push hphase hnew hpush =>
    exact ⟨fun key id' score' hget => h.delayed key id' score' (Redis.mem_push hpush hget), h.worker⟩
  | pump hphase => exact h.workerStep rfl rfl rfl le_rfl h.delayed
  | endPump | giveUp | load | lose | start | finish => exact h.workerStep rfl rfl rfl trivial h.delayed
  | @zpopmin w id seat now left score redis hphase hpop =>
    have hpumping := h.worker w
    rw [hphase] at hpumping
    refine h.workerStep rfl rfl rfl ⟨hpumping, h.delayed _ id score (Redis.zpopmin_some hpop).1⟩ ?_
    exact fun key id' score' hget => h.delayed key id' score' (Redis.mem_zpopmin hpop hget)
  | @putBack w seat now left id score redis hphase hadd =>
    have hpopped := h.worker w
    rw [hphase] at hpopped
    refine h.workerStep rfl rfl rfl trivial fun key id' score' hget => ?_
    rcases Redis.mem_zadd hadd hget with ⟨rfl, rfl⟩ | hbefore
    · exact hpopped.2
    · exact h.delayed key id' score' hbefore
  | @putReady w seat now left id score redis hphase hdue hpush =>
    have hpopped := h.worker w
    rw [hphase] at hpopped
    exact h.workerStep rfl rfl rfl hpopped.1 fun key id' score' hget =>
      h.delayed key id' score' (Redis.mem_push hpush hget)
  | @brpop w seat id redis hphase hpop =>
    exact h.workerStep rfl rfl rfl trivial fun key id' score' hget =>
      h.delayed key id' score' (Redis.mem_pop hpop hget)
  | cancelled | begin | count | writeBack =>
    refine h.workerStep rfl rfl rfl ?_ fun key id' score' hget => ?_
    · first | trivial | (split <;> trivial)
    · refine h.delayed key id' score' ?_
      rw [Redis.kept, ← (Redis.hset_frame _ _ _).2]
      exact hget
  | @schedule w seat id delay redis hphase hadd =>
    have hhand : (s.worker w).hand? = some id := by rw [hphase]; rfl
    -- The worker has the job, so no other due time of it is in use.
    refine ⟨fun key id' score' hget => ?_, fun w' => ?_⟩
    · show (s.dues.set id (s.now + delay)).get? id' = some score'
      rcases Redis.mem_zadd hadd hget with ⟨rfl, rfl⟩ | hbefore
      · exact Dict.get?_set_self _ _ _
      · have hne : id ≠ id' := by
          intro hid
          subst hid
          cases (Redis.not_delayed (hc.not_set hhand) key).symm.trans hbefore
        rw [Dict.get?_set_ne _ _ hne]
        exact h.delayed key id' score' hbefore
    · show TimeOk _ (Roster.phase (s.workers.set w .idle) w')
      rw [Roster.phase_set]
      have hworker := h.worker w'
      by_cases hw : w = w'
      · rw [if_pos hw]
        trivial
      · rw [if_neg hw]
        show TimeOk _ (s.worker w')
        cases hphase' : s.worker w' with
        | pumping seat' now left =>
          rw [hphase'] at hworker
          exact hworker
        | popped seat' now left id' score =>
          rw [hphase'] at hworker
          have hne : id ≠ id' := by
            intro hid
            subst hid
            exact hw (hc.one_worker hhand (by rw [hphase']; rfl))
          exact ⟨hworker.1, (Dict.get?_set_ne _ _ hne).trans hworker.2⟩
        | _ => trivial

end Times

/-! ### Runs -/

/-- What holds of every run under the rule. -/
structure Protocol (s : State) : Prop where
  custody : Custody s
  dispatched : Dispatched s
  attempted : Attempted s
  scheduled : Scheduled s

theorem protocol_reachable {cfg : Config} {s : State} (h : (service cfg).Reachable oneExecutor s) : Protocol s := by
  refine Transition.System.reachable_invariant (I := Protocol) (fun s hs => ?_) (fun e s u hs hrule hstep => ?_) h
  · rw [show s = {} from hs]
    refine ⟨custody_init, dispatched_init, ⟨?_, fun _ => trivial, ?_, ?_⟩, ⟨?_, fun _ => trivial⟩⟩
    · intro id hash hget
      cases hget
    · intro id hash hget
      cases hget
    · intro id hash hget
      cases hget
    · intro key id score hget
      cases hget
  · exact ⟨custody_step hs.custody hrule hstep, dispatched_step hs.custody hs.dispatched hrule (step_some hstep),
      attempted_step hs.attempted hs.custody hs.dispatched hrule (step_some hstep),
      scheduled_step hs.scheduled hs.custody (step_some hstep)⟩

end SynQc.Agents
