import SynQc.Budget.Tracker
import SynQc.Engine.Multicall
import SynQc.Library.Transition

/-! The session cap, over whole histories.

Runs of any sessions go through the engine of the embedded queue (one process, budgets in
memory) or of Redis workers (any number of processes, budgets in Redis). A run looks at
the usage, reserves, and executes, in separate steps that other runs come between. The
worker sends one preset elsewhere: a multicall runs without looking at the budget.

What was reserved is covered by the session's stored total, and the total is within the
maximum. So the shots that runs report are within the maximum too, as long as every run
reserved what it reports and no total was forgotten: that is the rule `Accounted`. -/
namespace SynQc.Engine.SessionCap
open Budget

inductive Phase where
  | submitted
  | checked (effective : Int × Bool)
  | reserved (effective : Int × Bool)
  | failed (exc : Exc)
  /-- A response, and the shots reserved for it. -/
  | done (granted : Option Int) (run : RunExperimentResponse)

structure Run where
  session : SessionId
  req : RunExperimentRequest
  runId : Option RunId
  process : Nat
  phase : Phase

structure State where
  now : Time
  keys : Keyspace
  trackers : Nat → BudgetTracker
  runs : Dict Nat Run
  /-- When a session's total was last refreshed. -/
  seen : Dict SessionId Time

inductive Event where
  | tick (now : Time)
  | submit (r : Nat) (session : SessionId) (req : RunExperimentRequest) (runId : Option RunId) (process : Nat)
  | precheck (r : Nat) (call : RedisCall)
  | reserve (r : Nat) (call : RedisCall)
  | execute (r : Nat) (inputs : RunInputs)
  | multicall (r : Nat) (clock : Multicall.Clock)

def State.setPhase (st : State) (r : Nat) (run : Run) (phase : Phase) : State :=
  {st with runs := st.runs.set r {run with phase := phase}}

section Steps
variable (s : Settings) (redis : Bool)

def tick (now : Time) (st : State) : Option State :=
  if st.now ≤ now then some {st with now := now} else none

/-- The embedded queue lives in one process. -/
def submit (r : Nat) (session : SessionId) (req : RunExperimentRequest) (runId : Option RunId)
    (process : Nat) (st : State) : Option State :=
  match st.runs.get? r with
  | some _ => none
  | none =>
    if redis ∨ process = 0 then
      some {st with runs := st.runs.set r ⟨session, req, runId, process, .submitted⟩}
    else none

/-- The worker's other branch. -/
def isMulticall (req : RunExperimentRequest) : Bool := redis && req.preset == .multicallDualClocking

def precheckStep (r : Nat) (call : RedisCall) (st : State) : Option State :=
  match st.runs.get? r with
  | some run =>
    match run.phase with
    | .submitted =>
      if isMulticall redis run.req then none
      else
        let (usage, tracker) := (st.trackers run.process).getUsage st.now st.keys call run.session
        let st := {st with trackers := Function.update st.trackers run.process tracker}
        match precheck s run.req usage with
        | .error exc => some (st.setPhase r run (.failed exc))
        | .ok effective => some (st.setPhase r run (.checked effective))
    | _ => none
  | none => none

/-- Any attempt that reaches the budget refreshes the session's total. -/
def reaches (call : RedisCall) : Bool := !redis || call ≠ .raisesBefore

def reserveStep (r : Nat) (call : RedisCall) (st : State) : Option State :=
  match st.runs.get? r with
  | some run =>
    match run.phase with
    | .checked effective =>
      let (reply, tracker, keys) := (st.trackers run.process).reserve st.now st.keys call run.session
        effective.1 s.maxShotsPerSession
      let st := {st with
        keys := keys
        trackers := Function.update st.trackers run.process tracker
        seen := if reaches redis call then st.seen.set run.session st.now else st.seen}
      match afterReserve s effective reply with
      | .error exc => some (st.setPhase r run (.failed exc))
      | .ok effective => some (st.setPhase r run (.reserved effective))
    | _ => none
  | none => none

def executeStep (r : Nat) (inputs : RunInputs) (st : State) : Option State :=
  match st.runs.get? r with
  | some run =>
    match run.phase with
    | .reserved effective =>
      match execute s inputs run.req run.runId effective with
      | .error exc => some (st.setPhase r run (.failed exc))
      | .ok response => some (st.setPhase r run (.done (some effective.1) response))
    | _ => none
  | none => none

def multicallStep (r : Nat) (clock : Multicall.Clock) (st : State) : Option State :=
  match st.runs.get? r with
  | some run =>
    match run.phase with
    | .submitted =>
      if isMulticall redis run.req then
        match Multicall.runMulticallAgent s clock (run.runId.getD 0) run.req with
        | .error exc => some (st.setPhase r run (.failed exc))
        | .ok response => some (st.setPhase r run (.done none response))
      else none
    | _ => none
  | none => none

/-- The histories of a deployment, with Redis and its workers or embedded. -/
def histories : Transition.System State Event where
  init st := st.keys = Dict.empty ∧ st.runs = Dict.empty ∧ st.seen = Dict.empty ∧
    st.trackers = fun _ => ⟨redis, s.sessionBudgetTtlSeconds, s.budgetFailOpenOnRedisError, Dict.empty⟩
  step
    | .tick now => tick now
    | .submit r session req runId process => submit redis r session req runId process
    | .precheck r call => precheckStep s redis r call
    | .reserve r call => reserveStep s redis r call
    | .execute r inputs => executeStep s r inputs
    | .multicall r clock => multicallStep s redis r clock

end Steps

/-! ### Spending -/

/-- `kpis.shots_used` of a successful response. -/
def Phase.spent : Phase → Int
  | .done _ response => response.kpis.shotsUsed
  | _ => 0

/-- What a run reserved and has not failed since. -/
def Phase.held : Phase → Int
  | .reserved effective => effective.1
  | .done granted _ => granted.getD 0
  | _ => 0

def Run.spent (session : SessionId) (run : Run) : Int :=
  if run.session = session then run.phase.spent else 0

def Run.held (session : SessionId) (run : Run) : Int :=
  if run.session = session then run.phase.held else 0

/-- The sum of `kpis.shots_used` over the successful responses of a session. -/
def State.spent (st : State) (session : SessionId) : Int := st.runs.total fun _ run => run.spent session

def State.held (st : State) (session : SessionId) : Int := st.runs.total fun _ run => run.held session

/-- The session's total in the budget, whether or not it has run out of time. -/
def State.stored (redis : Bool) (st : State) (session : SessionId) : Int :=
  if redis then amount (st.keys.get? session) else (st.trackers 0).usage session

/-! ### Rules -/

/-- The session's total was refreshed within the last TTL, or never held anything. -/
def fresh (s : Settings) (session : SessionId) (st : State) : Bool :=
  (st.seen.get? session).all fun t => decide (st.now < t + s.sessionBudgetTtlSeconds)

/-- No idle gap as long as the budget TTL: at each reserve the session's total is fresh. -/
def noIdleGap (s : Settings) : Event → State → Bool
  | .reserve r _, st => (st.runs.get? r).all fun run => fresh s run.session st
  | _, _ => true

/-- Every run reserves what it reports, from one total. At a reserve: no idle gap, Redis does
not fail open, and totals stay below 10^14. At a run: the provider stays within the budget. A
multicall on the worker reserves nothing, so it must come to nothing. -/
structure Accounted (s : Settings) (redis : Bool) (e : Event) (st : State) : Prop where
  gap : noIdleGap s e st = true
  closed : ∀ r call, e = .reserve r call → redis = true → call = .replies ∨ s.budgetFailOpenOnRedisError = false
  below : ∀ r call run effective, e = .reserve r call → redis = true → st.runs.get? r = some run →
    run.phase = .checked effective →
    s.maxShotsPerSession < 10 ^ 14 ∨ amount (st.keys.find st.now run.session) + effective.1 < 10 ^ 14
  obeys : ∀ r inputs run effective, e = .execute r inputs → st.runs.get? r = some run →
    run.phase = .reserved effective → inputs.world.Obeys run.req.preset effective.1
  reserving : ∀ r clock run, e = .multicall r clock → st.runs.get? r = some run →
    ¬Multicall.Completes s clock run.req

/-! ### The invariant -/

/-- What a run's phase owes: positive reservations, and a response within its reservation. -/
def Phase.Sound : Phase → Prop
  | .checked effective | .reserved effective => 0 < effective.1
  | .done granted response => ∃ n, granted = some n ∧ response.kpis.shotsUsed ≤ n
  | _ => True

structure Run.Sound (redis : Bool) (run : Run) : Prop where
  process : redis = false → run.process = 0
  phase : run.phase.Sound

/-- What a session has reserved is within the maximum, and covered by its stored total for as
long as that is fresh; a stored total knows when it was refreshed. -/
structure Capped (s : Settings) (redis : Bool) (st : State) : Prop where
  config : ∀ p, (st.trackers p).redisUrl = redis ∧
    (st.trackers p).sessionTtlSeconds = s.sessionBudgetTtlSeconds ∧
    (st.trackers p).failOpenOnRedisError = s.budgetFailOpenOnRedisError
  sound : ∀ r run, st.runs.get? r = some run → run.Sound redis
  cap : ∀ session, st.held session ≤ s.maxShotsPerSession
  covered : ∀ session, fresh s session st = true → st.held session ≤ st.stored redis session
  keys : redis = true → ∀ session k, st.keys.get? session = some k →
    (tonumber k.text : Int) ≤ s.maxShotsPerSession ∧
      ∃ t, st.seen.get? session = some t ∧ k.expireAt = some (t + s.sessionBudgetTtlSeconds)
  memory : redis = false → ∀ session e, (st.trackers 0).inMemoryUsage.get? session = some e →
    st.seen.get? session = some e.2

theorem Phase.Sound.spent_le {phase : Phase} (h : phase.Sound) : phase.spent ≤ phase.held := by
  cases phase with
  | done granted response =>
    obtain ⟨n, rfl, hle⟩ := h
    exact hle
  | reserved effective => exact (show 0 < effective.1 from h).le
  | submitted | checked | failed => exact Int.le_refl 0

theorem held_set {st : State} {r : Nat} {run : Run} (h : st.runs.get? r = some run) (phase : Phase)
    (session : SessionId) :
    (st.setPhase r run phase).held session + run.held session =
      st.held session + Run.held session {run with phase := phase} :=
  Dict.total_set_some h _ _

/-- A run that moves on, with nothing else changed, keeps the invariant when it is sound and
holds no more than before. -/
theorem Capped.move {s : Settings} {redis : Bool} {st : State} (h : Capped s redis st) {r : Nat}
    {run : Run} (hrun : st.runs.get? r = some run) {phase : Phase} (hsound : phase.Sound)
    (hle : phase.held ≤ run.phase.held) : Capped s redis (st.setPhase r run phase) := by
  have hheld : ∀ session, (st.setPhase r run phase).held session ≤ st.held session := by
    intro session
    have hset := held_set hrun phase session
    unfold Run.held at hset
    simp only at hset
    split at hset <;> omega
  refine ⟨h.config, fun r' run' hget => ?_, fun session => (hheld session).trans (h.cap session),
    fun session hfresh => (hheld session).trans (h.covered session hfresh), h.keys, h.memory⟩
  rw [State.setPhase, Dict.get?_set] at hget
  split at hget
  · cases hget
    exact ⟨(h.sound r run hrun).process, hsound⟩
  · exact h.sound r' run' hget

theorem capped_init {s : Settings} {redis : Bool} {st : State} (h : (histories s redis).init st) :
    Capped s redis st := by
  obtain ⟨hkeys, hruns, hseen, htrackers⟩ := h
  have hheld : ∀ session, st.held session = 0 := by
    intro session
    rw [State.held, hruns, Dict.total_empty]
  have hpos := s.session_pos
  refine ⟨fun p => ?_, fun r run hrun => ?_, fun session => ?_, fun session _ => ?_, fun _ session k hk => ?_,
    fun _ session e he => ?_⟩
  · rw [htrackers]
    exact ⟨rfl, rfl, rfl⟩
  · rw [hruns, Dict.get?_empty] at hrun
    cases hrun
  · rw [hheld]
    omega
  · rw [hheld, State.stored, hkeys, htrackers]
    cases redis <;> exact Int.le_refl 0
  · rw [hkeys, Dict.get?_empty] at hk
    cases hk
  · rw [htrackers, Dict.get?_empty] at he
    cases he

theorem capped_tick {s : Settings} {redis : Bool} {st u : State} {now : Time} (h : Capped s redis st)
    (hstep : tick now st = some u) : Capped s redis u := by
  unfold tick at hstep
  split at hstep
  · rename_i hnow
    cases hstep
    refine ⟨h.config, h.sound, h.cap, fun session hfresh => h.covered session ?_, h.keys, h.memory⟩
    -- what is fresh later was fresh before
    unfold fresh at hfresh ⊢
    cases hseen : st.seen.get? session with
    | none => rfl
    | some t =>
      simp only [hseen, Option.all_some, decide_eq_true_eq] at hfresh ⊢
      exact lt_of_le_of_lt hnow hfresh
  · cases hstep

theorem capped_submit {s : Settings} {redis : Bool} {st u : State} {r : Nat} {session : SessionId}
    {req : RunExperimentRequest} {runId : Option RunId} {process : Nat} (h : Capped s redis st)
    (hstep : submit redis r session req runId process st = some u) : Capped s redis u := by
  unfold submit at hstep
  split at hstep
  · cases hstep
  · rename_i hnone
    split at hstep
    · rename_i hprocess
      cases hstep
      let run : Run := ⟨session, req, runId, process, .submitted⟩
      have hheld : ∀ session', State.held {st with runs := st.runs.set r run} session' = st.held session' := by
        intro session'
        have hset := Dict.total_set_none hnone (fun _ run => Run.held session' run) run
        have hzero : run.held session' = 0 := ite_self 0
        rw [hzero, Int.add_zero] at hset
        exact hset
      refine ⟨h.config, fun r' run' hget => ?_, fun session' => (hheld session').trans_le (h.cap session'),
        fun session' hfresh => (hheld session').trans_le (h.covered session' hfresh), h.keys, h.memory⟩
      rw [Dict.get?_set] at hget
      split at hget
      · cases hget
        exact ⟨fun hr => hprocess.resolve_left (by simp [hr]), trivial⟩
      · exact h.sound r' run' hget
    · cases hstep

/-- Eviction forgets nothing that is fresh. -/
theorem Capped.evict {s : Settings} {redis : Bool} {st : State} (h : Capped s redis st) (p : Nat) :
    Capped s redis {st with
      trackers := Function.update st.trackers p ((st.trackers p).evictExpired st.now)} := by
  refine ⟨fun q => ?_, h.sound, h.cap, fun session hfresh => ?_, h.keys, fun hr session e he => ?_⟩
  · by_cases hq : q = p
    · subst hq
      simpa [BudgetTracker.evictExpired] using h.config q
    · simpa [Function.update_of_ne hq] using h.config q
  · refine (h.covered session hfresh).trans (le_of_eq ?_)
    unfold State.stored
    cases hr : redis with
    | true => rfl
    | false =>
      by_cases hp : p = 0
      · subst hp
        simp only [Function.update_self, BudgetTracker.usage]
        cases hentry : (st.trackers 0).inMemoryUsage.get? session with
        | none =>
          rw [BudgetTracker.evictExpired_get?, hentry]
          rfl
        | some e =>
          -- the entry is as old as the session's last refresh
          have hseen := h.memory hr session e hentry
          have hyoung : st.now - e.2 < (st.trackers 0).sessionTtlSeconds := by
            rw [(h.config 0).2.1]
            change fresh s session st = true at hfresh
            simp only [fresh, hseen, Option.all_some, decide_eq_true_eq] at hfresh
            linarith
          rw [BudgetTracker.evictExpired_young hentry hyoung]
      · simp only [Function.update_of_ne (Ne.symm hp)]
  · by_cases hp : p = 0
    · subst hp
      simp only [Function.update_self] at he
      exact h.memory hr session e (BudgetTracker.evictExpired_le he)
    · simp only [Function.update_of_ne (Ne.symm hp)] at he
      exact h.memory hr session e he

theorem Capped.look {s : Settings} {redis : Bool} {st : State} (h : Capped s redis st) (p : Nat)
    (call : RedisCall) (session : SessionId) :
    Capped s redis {st with
      trackers := Function.update st.trackers p ((st.trackers p).getUsage st.now st.keys call session).2} := by
  rcases BudgetTracker.getUsage_tracker (st.trackers p) st.now st.keys call session with hsame | hevict
  · rw [hsame, Function.update_eq_self]
    exact h
  · rw [hevict]
    exact h.evict p

theorem capped_precheck {s : Settings} {redis : Bool} {st u : State} {r : Nat} {call : RedisCall}
    (h : Capped s redis st) (hstep : precheckStep s redis r call st = some u) : Capped s redis u := by
  unfold precheckStep at hstep
  split at hstep
  · rename_i run hrun
    split at hstep
    · rename_i hphase
      split at hstep
      · cases hstep
      · have hlook := h.look run.process call run.session
        simp only at hstep
        split at hstep <;> cases hstep
        · exact hlook.move hrun trivial (hphase ▸ Int.le_refl 0)
        · rename_i effective hok
          exact hlook.move hrun (precheck_pos hok) (hphase ▸ Int.le_refl 0)
    · cases hstep
  · cases hstep

/-! ### The reserve step -/

/-- What a reserve step does: the tracker answers, and the run holds its budget exactly when
the answer was yes. -/
theorem reserveStep_some {s : Settings} {redis : Bool} {st u : State} {r : Nat} {call : RedisCall}
    (h : reserveStep s redis r call st = some u) :
    ∃ run effective reply tracker keys phase,
      st.runs.get? r = some run ∧ run.phase = .checked effective ∧
      (st.trackers run.process).reserve st.now st.keys call run.session effective.1
        s.maxShotsPerSession = (reply, tracker, keys) ∧
      ((∃ usage, reply = .ok (true, usage) ∧ phase = .reserved effective) ∨
        (∀ usage, reply ≠ .ok (true, usage)) ∧ ∃ exc, phase = .failed exc) ∧
      u = State.setPhase {st with
        keys := keys
        trackers := Function.update st.trackers run.process tracker
        seen := if reaches redis call then st.seen.set run.session st.now else st.seen} r run phase := by
  unfold reserveStep at h
  split at h
  · rename_i run hrun
    split at h
    · rename_i effective hphase
      generalize hres : (st.trackers run.process).reserve st.now st.keys call run.session effective.1
        s.maxShotsPerSession = result at h
      obtain ⟨reply, tracker, keys⟩ := result
      simp only at h
      split at h
      · rename_i exc hadmit
        refine ⟨run, effective, reply, tracker, keys, _, hrun, hphase, hres,
          .inr ⟨fun usage hreply => ?_, exc, rfl⟩, (Option.some.inj h).symm⟩
        rw [hreply] at hadmit
        cases hadmit
      · rename_i effective' hadmit
        obtain ⟨rfl, usage, hreply⟩ := afterReserve_ok hadmit
        exact ⟨run, effective', reply, tracker, keys, _, hrun, hphase, hres, .inl ⟨usage, hreply, rfl⟩,
          (Option.some.inj h).symm⟩
    · cases h
  · cases h

/-- A run that reserves: the other sessions' totals stay, its own covers what it now holds. -/
theorem Capped.settle {s : Settings} {redis : Bool} {st st' : State} (h : Capped s redis st) {r : Nat}
    {run : Run} {phase : Phase} (hruns : st'.runs = st.runs) (hrun : st.runs.get? r = some run)
    (hheld : run.phase.held = 0) (hsound : phase.Sound)
    (hother : ∀ session, session ≠ run.session → fresh s session st' = true →
      fresh s session st = true ∧ st.stored redis session ≤ st'.stored redis session)
    (hown : st.held run.session + phase.held ≤ st'.stored redis run.session)
    (hcap : st.held run.session + phase.held ≤ s.maxShotsPerSession)
    (config : ∀ p, (st'.trackers p).redisUrl = redis ∧
      (st'.trackers p).sessionTtlSeconds = s.sessionBudgetTtlSeconds ∧
      (st'.trackers p).failOpenOnRedisError = s.budgetFailOpenOnRedisError)
    (keys : redis = true → ∀ session k, st'.keys.get? session = some k →
      (tonumber k.text : Int) ≤ s.maxShotsPerSession ∧
        ∃ t, st'.seen.get? session = some t ∧ k.expireAt = some (t + s.sessionBudgetTtlSeconds))
    (memory : redis = false → ∀ session e, (st'.trackers 0).inMemoryUsage.get? session = some e →
      st'.seen.get? session = some e.2) :
    Capped s redis (st'.setPhase r run phase) := by
  have hrun' : st'.runs.get? r = some run := hruns ▸ hrun
  have hsame : ∀ session, st'.held session = st.held session := fun session => by
    rw [State.held, State.held, hruns]
  have hset : ∀ session, (st'.setPhase r run phase).held session =
      st.held session + if run.session = session then phase.held else 0 := by
    intro session
    have hset := held_set hrun' phase session
    unfold Run.held at hset
    simp only [hheld, hsame, ite_self, Int.add_zero] at hset
    exact hset
  refine ⟨config, fun r' run' hget => ?_, fun session => ?_, fun session hfresh => ?_, keys, memory⟩
  · rw [State.setPhase, Dict.get?_set] at hget
    split at hget
    · cases hget
      exact ⟨(h.sound r run hrun).process, hsound⟩
    · exact h.sound r' run' (hruns ▸ hget)
  · rw [hset]
    by_cases hs : run.session = session
    · subst hs
      simpa using hcap
    · simpa [hs] using h.cap session
  · show (st'.setPhase r run phase).held session ≤ st'.stored redis session
    rw [hset]
    by_cases hs : run.session = session
    · subst hs
      simpa using hown
    · obtain ⟨hfresh', hle⟩ := hother session (Ne.symm hs) hfresh
      simpa [hs] using (h.covered session hfresh').trans hle

/-- A fresh session's key has not expired. -/
theorem Capped.find {s : Settings} {st : State} (h : Capped s true st) {session : SessionId}
    (hfresh : fresh s session st = true) : st.keys.find st.now session = st.keys.get? session := by
  unfold Keyspace.find
  cases hk : st.keys.get? session with
  | none => rfl
  | some k =>
    obtain ⟨_, t, hseen, hexpire⟩ := h.keys rfl session k hk
    simp only [fresh, hseen, Option.all_some] at hfresh
    rw [Option.filter_some, if_pos]
    simpa [Key.alive, hexpire] using hfresh

/-- Refreshing one session leaves the others as fresh as they were. -/
theorem fresh_other {s : Settings} {st : State} {session session' : SessionId} (hne : session' ≠ session)
    {t : Time} {keys : Keyspace} {trackers : Nat → BudgetTracker}
    (h : fresh s session' {st with keys := keys, trackers := trackers, seen := st.seen.set session t} = true) :
    fresh s session' st = true := by
  simpa [fresh, Dict.get?_set_ne _ _ (Ne.symm hne)] using h

/-- The script on a fresh session: within the maximum, and grown by the request if granted. -/
theorem Capped.script {s : Settings} {st : State} (h : Capped s true st) {session : SessionId}
    (hfresh : fresh s session st = true) {requested : Int} (hpos : 0 < requested)
    (hbelow : s.maxShotsPerSession < 10 ^ 14 ∨ amount (st.keys.find st.now session) + requested < 10 ^ 14)
    {lua : Option Key × Bool × Nat}
    (hlua : luaReserve st.now (st.keys.find st.now session) requested.toNat s.maxShotsPerSession.toNat
      s.sessionBudgetTtlSeconds = lua) :
    (amount lua.1 : Int) ≤ s.maxShotsPerSession ∧ st.held session ≤ amount lua.1 ∧
      (lua.2.1 = true → st.held session + requested ≤ amount lua.1) := by
  have hmax := s.session_pos
  have hheld : st.held session ≤ amount (st.keys.find st.now session) := by
    rw [h.find hfresh]
    exact h.covered session hfresh
  have hamount : (amount (st.keys.find st.now session) : Int) ≤ s.maxShotsPerSession := by
    rw [h.find hfresh]
    cases hk : st.keys.get? session with
    | none => exact le_trans (by decide) hmax
    | some k => exact (h.keys rfl session k hk).1
  subst hlua
  cases hacc : (luaReserve st.now (st.keys.find st.now session) requested.toNat
      s.maxShotsPerSession.toNat s.sessionBudgetTtlSeconds).2.1 with
  | false =>
    rw [luaReserve_refused hacc]
    exact ⟨hamount, hheld, nofun⟩
  | true =>
    obtain ⟨hfits, hgrows⟩ := luaReserve_accepted hacc (by
      rcases hbelow with hlt | hlt
      · exact luaReserve_below (by omega) (by omega)
      · exact luaReserve_small (by omega))
    rw [hgrows]
    refine ⟨by omega, by omega, fun _ => by omega⟩

/-- A run past its checks asks for some shots and holds none, and its session is fresh as it reserves. -/
theorem Capped.reserving {s : Settings} {redis : Bool} {st : State} (h : Capped s redis st) {r : Nat} {call : RedisCall}
    (hrule : Accounted s redis (.reserve r call) st) {run : Run} {effective : Int × Bool}
    (hrun : st.runs.get? r = some run) (hphase : run.phase = .checked effective) :
    0 < effective.1 ∧ fresh s run.session st = true ∧ run.phase.held = 0 ∧
      BudgetTracker.checkReserve effective.1 s.maxShotsPerSession = none := by
  have hpos : 0 < effective.1 := by simpa [hphase, Phase.Sound] using (h.sound r run hrun).phase
  have hsession := s.session_pos
  refine ⟨hpos, by simpa [noIdleGap, hrun] using hrule.gap, by rw [hphase]; rfl, ?_⟩
  rw [BudgetTracker.checkReserve, if_neg (by omega), if_neg (by omega)]

theorem capped_reserve_redis {s : Settings} {st u : State} {r : Nat} {call : RedisCall}
    (h : Capped s true st) (hrule : Accounted s true (.reserve r call) st)
    (hstep : reserveStep s true r call st = some u) : Capped s true u := by
  obtain ⟨run, effective, reply, tracker, keys, phase, hrun, hphase, hres, hphases, rfl⟩ :=
    reserveStep_some hstep
  obtain ⟨hpos, hfresh, hheld, hcheck⟩ := h.reserving hrule hrun hphase
  obtain ⟨hredis, httl, hopen⟩ := h.config run.process
  obtain ⟨rfl, hcase⟩ := BudgetTracker.reserve_redis hredis
    ((hrule.closed r call rfl rfl).imp_right fun hclosed => hopen.trans hclosed) hcheck hres
  rw [Function.update_eq_self]
  rcases hcase with ⟨rfl, rfl, rfl⟩ | ⟨hcall, rfl, hreply⟩
  · -- the call raised before the script: only the run moves on
    obtain ⟨usage, hok, _⟩ | ⟨_, exc, rfl⟩ := hphases
    · cases hok
    · exact h.move hrun trivial (hheld ▸ Int.le_refl 0)
  · rw [httl] at hreply ⊢
    generalize hlua : luaReserve st.now (st.keys.find st.now run.session) effective.1.toNat
      s.maxShotsPerSession.toNat s.sessionBudgetTtlSeconds = lua at hreply ⊢
    obtain ⟨hwithin, hcovers, hgrant⟩ := h.script hfresh hpos
      (hrule.below r call run effective rfl rfl hrun hphase) hlua
    have hreaches : reaches true call = true := by simpa [reaches] using hcall
    rw [if_pos hreaches]
    have hphaseHeld : phase.Sound ∧ st.held run.session + phase.held ≤ amount lua.1 := by
      obtain ⟨usage, hok, rfl⟩ | ⟨_, exc, rfl⟩ := hphases
      · refine ⟨hpos, hgrant ?_⟩
        rcases hreply with hreply | hreply <;> rw [hreply] at hok
        · cases hok
        · injection hok with hok
          exact congrArg Prod.fst hok
      · exact ⟨trivial, by simpa [Phase.held] using hcovers⟩
    refine h.settle rfl hrun hheld hphaseHeld.1 (fun session hne hf => ⟨fresh_other hne hf, ?_⟩) ?_
      (hphaseHeld.2.trans hwithin) h.config (fun _ session k hk => ?_) nofun
    · simp only [State.stored, if_true, Keyspace.get?_write, if_neg (Ne.symm hne), le_refl]
    · simpa [State.stored, Keyspace.get?_write] using hphaseHeld.2
    · rw [Keyspace.get?_write] at hk
      split at hk
      · rename_i hs
        subst hs
        refine ⟨?_, st.now, Dict.get?_set_self _ _ _, ?_⟩
        · rw [hk] at hwithin
          exact hwithin
        · have httlpos : 0 < s.sessionBudgetTtlSeconds := lt_of_lt_of_le (by decide) s.ttl_min
          exact luaReserve_expireAt httlpos (hlua ▸ hk)
      · rename_i hs
        simpa [Dict.get?_set_ne _ _ hs] using h.keys rfl session k hk

theorem capped_reserve_memory {s : Settings} {st u : State} {r : Nat} {call : RedisCall}
    (h : Capped s false st) (hrule : Accounted s false (.reserve r call) st)
    (hstep : reserveStep s false r call st = some u) : Capped s false u := by
  obtain ⟨run, effective, reply, tracker, keys, phase, hrun, hphase, hres, hphases, rfl⟩ :=
    reserveStep_some hstep
  obtain ⟨hpos, hfresh, hheld, hcheck⟩ := h.reserving hrule hrun hphase
  obtain ⟨rfl, rfl, rfl⟩ := BudgetTracker.reserve_local (h.config run.process).1 hcheck hres
  rw [(h.sound r run hrun).process rfl] at hphases ⊢
  rw [if_pos (show reaches false call = true from rfl)]
  -- the eviction forgets nothing fresh; then the session's entry gets its total
  have hevict := h.evict 0
  obtain ⟨total, htracker, hcase⟩ :=
    BudgetTracker.reserveMemory_total (st.trackers 0) st.now run.session effective.1 s.maxShotsPerSession
  have hcovers : st.held run.session ≤ ((st.trackers 0).evictExpired st.now).usage run.session := by
    simpa [State.stored, State.held] using hevict.covered run.session hfresh
  have hphaseHeld : phase.Sound ∧ st.held run.session + phase.held ≤ total ∧
      st.held run.session + phase.held ≤ s.maxShotsPerSession := by
    have hcap := h.cap run.session
    obtain ⟨usage, hok, rfl⟩ | ⟨hno, exc, rfl⟩ := hphases
    · have hyes : ((st.trackers 0).reserveMemory st.now run.session effective.1
          s.maxShotsPerSession).1.1 = true := congrArg Prod.fst (Except.ok.inj hok)
      obtain ⟨_, hle, htotal⟩ | ⟨hfalse, _⟩ := hcase
      · exact ⟨hpos, by simp only [Phase.held]; omega, by simp only [Phase.held]; omega⟩
      · rw [hyes] at hfalse
        cases hfalse
    · refine ⟨trivial, ?_, by simpa [Phase.held] using hcap⟩
      obtain ⟨_, _, htotal⟩ | ⟨_, htotal⟩ := hcase <;> simp only [Phase.held] <;> omega
  rw [htracker]
  refine hevict.settle rfl hrun hheld hphaseHeld.1 (fun session hne hf => ⟨fresh_other hne hf, ?_⟩) ?_
    hphaseHeld.2.2 (fun p => ?_) nofun (fun _ session e he => ?_)
  · simp [State.stored, BudgetTracker.usage, Dict.get?_set_ne _ _ (Ne.symm hne)]
  · simpa [State.stored, BudgetTracker.usage, State.held] using hphaseHeld.2.1
  · by_cases hp : p = 0
    · subst hp
      simpa using h.config 0
    · simpa [Function.update_of_ne hp] using h.config p
  · simp only [Function.update_self] at he
    rw [Dict.get?_set] at he ⊢
    split at he
    · rename_i hs
      cases he
      rw [if_pos hs]
    · rename_i hs
      rw [if_neg hs]
      exact h.memory rfl session e (BudgetTracker.evictExpired_le he)

theorem capped_execute {s : Settings} {redis : Bool} {st u : State} {r : Nat} {inputs : RunInputs}
    (h : Capped s redis st) (hrule : Accounted s redis (.execute r inputs) st)
    (hstep : executeStep s r inputs st = some u) : Capped s redis u := by
  unfold executeStep at hstep
  split at hstep
  · rename_i run hrun
    split at hstep
    · rename_i effective hphase
      have hpos : 0 < effective.1 := by simpa [hphase, Phase.Sound] using (h.sound r run hrun).phase
      split at hstep <;> cases hstep
      · exact h.move hrun trivial (by simpa [hphase, Phase.held] using hpos.le)
      · rename_i response hok
        have hused := execute_within hpos (hrule.obeys r inputs run effective rfl hrun hphase) hok
        exact h.move hrun ⟨effective.1, rfl, hused⟩ (by simp [hphase, Phase.held])
    · cases hstep
  · cases hstep

theorem capped_multicall {s : Settings} {redis : Bool} {st u : State} {r : Nat} {clock : Multicall.Clock}
    (h : Capped s redis st) (hrule : Accounted s redis (.multicall r clock) st)
    (hstep : multicallStep s redis r clock st = some u) : Capped s redis u := by
  unfold multicallStep at hstep
  split at hstep
  · rename_i run hrun
    split at hstep
    · rename_i hphase
      split at hstep
      · split at hstep
        · cases hstep
          exact h.move hrun trivial (by simp [hphase, Phase.held])
        · rename_i response hok
          exact absurd (Multicall.runMulticallAgent_ok hok).1 (hrule.reserving r clock run rfl hrun)
      · cases hstep
    · cases hstep
  · cases hstep

theorem capped_step {s : Settings} {redis : Bool} (e : Event) (st u : State) (h : Capped s redis st)
    (hrule : Accounted s redis e st) (hstep : (histories s redis).step e st = some u) : Capped s redis u := by
  cases e with
  | tick => exact capped_tick h hstep
  | submit => exact capped_submit h hstep
  | precheck => exact capped_precheck h hstep
  | reserve r call =>
    cases redis with
    | true => exact capped_reserve_redis h hrule hstep
    | false => exact capped_reserve_memory h hrule hstep
  | execute => exact capped_execute h hrule hstep
  | multicall => exact capped_multicall h hrule hstep

theorem capped_reachable {s : Settings} {redis : Bool} {st : State}
    (h : (histories s redis).Reachable (Accounted s redis) st) : Capped s redis st :=
  Transition.System.reachable_invariant (fun _ => capped_init) capped_step h

/-! ### The cap -/

theorem Capped.spent_le {s : Settings} {redis : Bool} {st : State} (h : Capped s redis st)
    (session : SessionId) : st.spent session ≤ st.held session := by
  apply List.sum_le_sum
  rintro ⟨r, run⟩ hmem
  have hsound := (h.sound r run (Dict.mem_entries.mp hmem)).phase.spent_le
  show run.spent session ≤ run.held session
  unfold Run.spent Run.held
  split
  · exact hsound
  · exact Int.le_refl 0

/-- **The session cap: where every run reserves what it reports, the shots reported for a
session never exceed the maximum, and each response is within an accepted reserve.** -/
theorem session_cap (s : Settings) (redis : Bool) {st : State}
    (h : (histories s redis).Reachable (Accounted s redis) st) :
    (∀ session, st.spent session ≤ s.maxShotsPerSession) ∧
      ∀ r run granted response, st.runs.get? r = some run → run.phase = .done granted response →
        ∃ n, granted = some n ∧ response.kpis.shotsUsed ≤ n := by
  have hcapped := capped_reachable h
  refine ⟨fun session => (hcapped.spent_le session).trans (hcapped.cap session), ?_⟩
  intro r run granted response hrun hphase
  simpa [hphase, Phase.Sound] using (hcapped.sound r run hrun).phase

/-! ### Runs -/

def emptyBudget (s : Settings) (redis : Bool) : State where
  now := 0
  keys := Dict.empty
  trackers := fun _ => ⟨redis, s.sessionBudgetTtlSeconds, s.budgetFailOpenOnRedisError, Dict.empty⟩
  runs := Dict.empty
  seen := Dict.empty

/-- One run of one session, from submission to its response. -/
def oneRun (target : HardwareTarget) (shots : Int) (live : Option LiveClient) : List Event :=
  [.submit 0 7 ⟨.health, target, some shots, none, none⟩ none 0, .precheck 0 .replies, .reserve 0 .replies,
    .execute 0 (plainInputs live)]

/-- A payload that reports two million shots, whatever the budget. -/
def overReport : LiveClient :=
  filePayloadClient (.ok { rawCounts := Dict.empty.set "00" 2000000, shotsUsed := some 2000000 })

/-- A provider payload reports two million shots for a run that reserved one, and the cap of
a million is passed without any idle gap. -/
theorem session_cap_passed : ¬∀ st : State,
    (histories {} false).Reachable (fun e st => noIdleGap {} e st = true) st →
      ∀ session, st.spent session ≤ ({} : Settings).maxShotsPerSession := by
  intro hclaim
  have hwalk : ((Transition.System.walk (histories {} false) (noIdleGap {}) (emptyBudget {} false)
      (oneRun .awsBraket 1 overReport)).map fun st => st.spent 7) = some 2000000 := by decide +kernel
  obtain ⟨st, hst, hspent⟩ := Option.map_eq_some_iff.mp hwalk
  have hcap := hclaim st ⟨_, ⟨rfl, rfl, rfl, rfl⟩,
    Transition.System.walk_leads (fun _ _ _ h => h) hst⟩ 7
  rw [hspent] at hcap
  exact absurd hcap (by decide)

/-- A provider that reports and counts the shots it was given. -/
def fullReport : LiveClient := fun _ shots => .ok { rawCounts := Dict.empty.set "00" shots, shotsUsed := some shots }

theorem fullReport_obeys (preset : ExperimentPreset) (shots : Int) :
    (plainInputs (some fullReport)).world.Obeys preset shots := by
  refine ⟨fun client reply hlive hreply => ?_, fun n counts hrun => ?_⟩
  · cases hlive
    cases hreply
    have hsum : Counts.sum (Dict.empty.set "00" shots) = shots := Int.add_zero shots
    refine ⟨?_, hsum.le⟩
    show (if shots = 0 then Counts.sum (Dict.empty.set "00" shots) else shots) ≤ shots
    split
    · exact hsum.le
    · exact le_rfl
  · cases hrun

/-- Ten shots for a session. -/
def tenShots : Settings := .capped 10 (by decide)

/-- A multicall whose polls come too late. -/
def lateClock : Multicall.Clock := ⟨0, fun _ => 1000, 1000⟩

/-- Runs of two sessions on two workers: a simulation, two provider runs, a multicall that misses its
deadline, and a run that passes the check before the others' reserves and is refused after them. -/
def sharedRuns : List Event :=
  [.submit 0 7 ⟨.health, .simLocal, some 3, none, none⟩ none 0,
    .submit 1 7 ⟨.latency, .awsBraket, some 5, none, none⟩ none 1,
    .submit 2 8 ⟨.backendCompare, .ibmQuantum, some 4, none, none⟩ none 1,
    .submit 3 7 ⟨.multicallDualClocking, .simLocal, some 9, none, none⟩ none 1,
    .submit 4 7 ⟨.dpdDemo, .simLocal, some 4, none, none⟩ none 0,
    .precheck 0 .replies, .precheck 1 .replies, .precheck 4 .raisesBefore, .multicall 3 lateClock,
    .reserve 1 .replies, .tick 30, .precheck 2 .replies, .reserve 2 .replies, .reserve 0 .replies,
    .execute 0 (plainInputs none), .reserve 4 .replies, .execute 1 (plainInputs (some fullReport)),
    .execute 2 (plainInputs (some fullReport))]

theorem sharedRuns_accounted : ∀ e ∈ sharedRuns, ∀ st, noIdleGap tenShots e st = true →
    Accounted tenShots true e st := by
  intro e he st hgap
  refine ⟨hgap, fun _ _ _ _ => .inr rfl, fun _ _ _ _ _ _ _ _ => .inl (by decide), ?_, ?_⟩
  · rintro r inputs run effective rfl _ _
    have hinputs : inputs = plainInputs none ∨ inputs = plainInputs (some fullReport) := by
      simp only [sharedRuns, List.mem_cons, List.not_mem_nil, reduceCtorEq, Event.execute.injEq, false_or, or_false] at he
      obtain ⟨_, rfl⟩ | ⟨_, rfl⟩ | ⟨_, rfl⟩ := he
      · exact .inl rfl
      · exact .inr rfl
      · exact .inr rfl
    rcases hinputs with rfl | rfl
    · exact ⟨nofun, nofun⟩
    · exact fullReport_obeys _ _
  · rintro r clock run rfl _
    have hclock : clock = lateClock := by
      simp only [sharedRuns, List.mem_cons, List.not_mem_nil, reduceCtorEq, Event.multicall.injEq, false_or, or_false] at he
      exact he.2
    rw [hclock]
    exact fun hcompletes => absurd hcompletes.1.1 (by norm_num [lateClock, Multicall.timeoutSeconds])

theorem session_cap_simulated :
    ∃ st, (histories tenShots true).Reachable (Accounted tenShots true) st ∧ st.spent 7 = 8 ∧ st.spent 8 = 4 ∧
      (∀ session, st.spent session ≤ 10) ∧
      ∀ r run granted response, st.runs.get? r = some run → run.phase = .done granted response →
        ∃ n, granted = some n ∧ response.kpis.shotsUsed ≤ n := by
  have hwalk : ((Transition.System.walk (histories tenShots true) (noIdleGap tenShots) (emptyBudget tenShots true)
      sharedRuns).map fun st => (st.spent 7, st.spent 8)) = some (8, 4) := by decide +kernel
  obtain ⟨st, hst, hspent⟩ := Option.map_eq_some_iff.mp hwalk
  have hreach : (histories tenShots true).Reachable (Accounted tenShots true) st :=
    ⟨_, ⟨rfl, rfl, rfl, rfl⟩, Transition.System.walk_leads sharedRuns_accounted hst⟩
  obtain ⟨hcap, hgranted⟩ := session_cap tenShots true hreach
  exact ⟨st, hreach, congrArg Prod.fst hspent, congrArg Prod.snd hspent, hcap, hgranted⟩

end SynQc.Engine.SessionCap
