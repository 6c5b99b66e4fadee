import SynQc.Budget.Tracker
import SynQc.Library.Lapse

/-! Looking at the budgets.

A reserve leaves its session an entry with the time of the attempt, and every call that comes
to the memory sweeps it first, health checks too. So a health check changes the memory, but
as the clock does not go back no later call can tell: what the calls of a history are
answered is what they would be answered without the health checks among them, with Redis, on
its failures, or without it. And without Redis a health check says how many sessions made an
attempt within the TTL that was not reset (`health_unseen`). -/
namespace SynQc.Budget

namespace BudgetTracker

/-- `reset_session`; what a Redis error leaves of the key is as for the other commands. -/
def resetSession (t : BudgetTracker) (keys : Keyspace) (call : RedisCall) (session : SessionId) :
    BudgetTracker × Keyspace :=
  ({t with inMemoryUsage := t.inMemoryUsage.erase session},
    if t.redisUrl ∧ call ≠ .raisesBefore then keys.erase session else keys)

/-- `_count_session_keys`, with what `scan_iter` yields before it ends or raises. -/
def countSessionKeys (t : BudgetTracker) (now : Time) (scanned : Nat) : Nat × BudgetTracker :=
  if t.redisUrl then (scanned, t)
  else
    let t := t.evictExpired now
    (t.inMemoryUsage.size, t)

/-- What Redis has for a health check: whether it answers a ping, and what its scan yields. -/
structure Probe where
  ping : Bool
  scanned : Nat

structure HealthSummary where
  backend : String
  redisOk : Option Bool
  sessionTtlSeconds : Int
  sessionKeys : Nat

def healthSummary (t : BudgetTracker) (now : Time) (probe : Probe) : HealthSummary × BudgetTracker :=
  if t.redisUrl then
    let (sessionKeys, t) := t.countSessionKeys now probe.scanned
    (⟨"redis", some probe.ping, t.sessionTtlSeconds, sessionKeys⟩, t)
  else
    let t := t.evictExpired now
    (⟨"memory", none, t.sessionTtlSeconds, t.inMemoryUsage.size⟩, t)

end BudgetTracker

/-! ### Histories of calls -/

inductive Call where
  | reserve (call : RedisCall) (session : SessionId) (requested maxShots : Int)
  | getUsage (call : RedisCall) (session : SessionId)
  | remainingShots (call : RedisCall) (session : SessionId) (maxShots : Int)
  | resetSession (call : RedisCall) (session : SessionId)
  | healthSummary (probe : BudgetTracker.Probe)

def Call.looks : Call → Bool
  | .healthSummary _ => true
  | _ => false

/-- What a call is answered; a health check is not asked here. -/
inductive Answer where
  | reserved (reply : Except Exc (Bool × Int))
  | shots (shots : Int)
  | done

def Call.run (now : Time) (call : Call) (t : BudgetTracker) (keys : Keyspace) : Answer × BudgetTracker × Keyspace :=
  match call with
  | .reserve call session requested maxShots =>
    let (reply, after) := t.reserve now keys call session requested maxShots
    (.reserved reply, after)
  | .getUsage call session =>
    let (shots, t) := t.getUsage now keys call session
    (.shots shots, t, keys)
  | .remainingShots call session maxShots =>
    let (shots, t) := t.remainingShots now keys call session maxShots
    (.shots shots, t, keys)
  | .resetSession call session => (.done, t.resetSession keys call session)
  | .healthSummary probe => (.done, (t.healthSummary now probe).2, keys)

/-- What a history of calls leaves. -/
def after (t : BudgetTracker) (keys : Keyspace) : List (Time × Call) → BudgetTracker × Keyspace
  | [] => (t, keys)
  | (now, call) :: rest =>
    let (_, t, keys) := call.run now t keys
    after t keys rest

/-- What the calls of a history are answered, but for the health checks. -/
def answers (t : BudgetTracker) (keys : Keyspace) : List (Time × Call) → List Answer
  | [] => []
  | (now, call) :: rest =>
    let (answer, t, keys) := call.run now t keys
    if call.looks then answers t keys rest else answer :: answers t keys rest

theorem after_cons (now : Time) (call : Call) (rest : List (Time × Call)) (t : BudgetTracker) (keys : Keyspace) :
    after t keys ((now, call) :: rest) = after (call.run now t keys).2.1 (call.run now t keys).2.2 rest := rfl

theorem answers_cons (now : Time) (call : Call) (rest : List (Time × Call)) (t : BudgetTracker) (keys : Keyspace) :
    answers t keys ((now, call) :: rest) =
      if call.looks then answers (call.run now t keys).2.1 (call.run now t keys).2.2 rest
      else (call.run now t keys).1 :: answers (call.run now t keys).2.1 (call.run now t keys).2.2 rest := rfl

/-! ### What no call can tell -/

/-- Trackers that differ in entries that do not count any more. -/
structure Same (now : Time) (t u : BudgetTracker) : Prop where
  redisUrl : u.redisUrl = t.redisUrl
  ttl : u.sessionTtlSeconds = t.sessionTtlSeconds
  failOpen : u.failOpenOnRedisError = t.failOpenOnRedisError
  memory : Lapse.Alike (t.sessionTtlSeconds : Time) now t.inMemoryUsage u.inMemoryUsage

namespace Same
variable {now later : Time} {t u : BudgetTracker}

theorem refl (now : Time) (t : BudgetTracker) : Same now t t := ⟨rfl, rfl, rfl, .refl _⟩

theorem mono (h : Same now t u) (hle : now ≤ later) : Same later t u :=
  ⟨h.redisUrl, h.ttl, h.failOpen, h.memory.mono hle⟩

theorem symm (h : Same now t u) : Same now u t := by
  refine ⟨h.redisUrl.symm, h.ttl.symm, h.failOpen.symm, ?_⟩
  rw [h.ttl]
  exact h.memory.symm

theorem trans {v : BudgetTracker} (h : Same now t u) (h' : Same now u v) : Same now t v := by
  refine ⟨h'.redisUrl.trans h.redisUrl, h'.ttl.trans h.ttl, h'.failOpen.trans h.failOpen, h.memory.trans ?_⟩
  rw [← h.ttl]
  exact h'.memory

/-- A sweep is not seen. -/
theorem swept (now : Time) (t : BudgetTracker) : Same now t (t.evictExpired now) :=
  ⟨rfl, rfl, rfl, (Lapse.alike_sweep _ _ _).symm⟩

theorem evictExpired (h : Same now t u) : Same now (t.evictExpired now) (u.evictExpired now) :=
  (swept now t).symm.trans (h.trans (swept now u))

theorem usage (h : Same now t u) (session : SessionId) :
    (u.evictExpired now).usage session = (t.evictExpired now).usage session := by
  have hget := h.memory.get?_sweep session
  rw [BudgetTracker.usage, BudgetTracker.usage]
  have hu : (u.evictExpired now).inMemoryUsage = Lapse.sweep (t.sessionTtlSeconds : Time) now u.inMemoryUsage := by
    rw [← h.ttl]
    rfl
  rw [hu, ← hget]
  rfl

theorem set (h : Same now t u) (session : SessionId) (e : Int × Time) :
    Same now {t with inMemoryUsage := t.inMemoryUsage.set session e} {u with inMemoryUsage := u.inMemoryUsage.set session e} :=
  ⟨h.redisUrl, h.ttl, h.failOpen, h.memory.set session e⟩

theorem reserveMemory (h : Same now t u) (session : SessionId) (requested maxShots : Int) :
    (u.reserveMemory now session requested maxShots).1 = (t.reserveMemory now session requested maxShots).1 ∧
      Same now (t.reserveMemory now session requested maxShots).2 (u.reserveMemory now session requested maxShots).2 := by
  simp only [BudgetTracker.reserveMemory, h.usage session]
  split
  · exact ⟨rfl, h.evictExpired.set session _⟩
  · exact ⟨rfl, h.evictExpired.set session _⟩

theorem onRedisError (h : Same now t u) (session : SessionId) (requested maxShots : Int) :
    (u.onRedisError now session requested maxShots).1 = (t.onRedisError now session requested maxShots).1 ∧
      Same now (t.onRedisError now session requested maxShots).2 (u.onRedisError now session requested maxShots).2 := by
  simp only [BudgetTracker.onRedisError, h.failOpen]
  split
  · obtain ⟨hreply, hafter⟩ := h.reserveMemory session requested maxShots
    exact ⟨congrArg Except.ok hreply, hafter⟩
  · exact ⟨rfl, h⟩

theorem reserve (h : Same now t u) (keys : Keyspace) (call : RedisCall) (session : SessionId)
    (requested maxShots : Int) :
    (u.reserve now keys call session requested maxShots).1 = (t.reserve now keys call session requested maxShots).1 ∧
      Same now (t.reserve now keys call session requested maxShots).2.1
        (u.reserve now keys call session requested maxShots).2.1 ∧
      (u.reserve now keys call session requested maxShots).2.2 =
        (t.reserve now keys call session requested maxShots).2.2 := by
  have hmemory := h.reserveMemory session requested maxShots
  have herror := h.onRedisError session requested maxShots
  simp only [BudgetTracker.reserve, h.redisUrl, h.ttl]
  split
  · exact ⟨rfl, h, rfl⟩
  · split
    · split
      · exact ⟨rfl, h, rfl⟩
      · exact ⟨herror.1, herror.2, rfl⟩
      · exact ⟨herror.1, herror.2, rfl⟩
    · exact ⟨congrArg Except.ok hmemory.1, hmemory.2, rfl⟩

theorem looked (now : Time) (t : BudgetTracker) (keys : Keyspace) (call : RedisCall) (session : SessionId) :
    Same now t (t.getUsage now keys call session).2 := by
  rcases t.getUsage_tracker now keys call session with hsame | hswept
  · rw [hsame]
    exact refl now t
  · rw [hswept]
    exact swept now t

theorem getUsage (h : Same now t u) (keys : Keyspace) (call : RedisCall) (session : SessionId) :
    (u.getUsage now keys call session).1 = (t.getUsage now keys call session).1 ∧
      Same now (t.getUsage now keys call session).2 (u.getUsage now keys call session).2 := by
  refine ⟨?_, (looked now t keys call session).symm.trans (h.trans (looked now u keys call session))⟩
  have hmemory : (u.usageMemory now session).1 = (t.usageMemory now session).1 := h.usage session
  simp only [BudgetTracker.getUsage, h.redisUrl]
  split
  · split
    · rfl
    · split
      · rfl
      · exact hmemory
  · exact hmemory

theorem healthSummary (now : Time) (t : BudgetTracker) (probe : BudgetTracker.Probe) :
    Same now t (t.healthSummary now probe).2 := by
  rw [BudgetTracker.healthSummary]
  split
  · rename_i hredis
    simp only [BudgetTracker.countSessionKeys, hredis, if_true]
    exact refl now t
  · exact swept now t

/-- A call answers the same on both, and leaves them the same. -/
theorem run (h : Same now t u) (keys : Keyspace) (call : Call) :
    (call.run now u keys).1 = (call.run now t keys).1 ∧
      Same now (call.run now t keys).2.1 (call.run now u keys).2.1 ∧
      (call.run now u keys).2.2 = (call.run now t keys).2.2 := by
  cases call with
  | reserve call session requested maxShots =>
    obtain ⟨hreply, hafter, hkeys⟩ := h.reserve keys call session requested maxShots
    exact ⟨congrArg Answer.reserved hreply, hafter, hkeys⟩
  | getUsage call session =>
    obtain ⟨hreply, hafter⟩ := h.getUsage keys call session
    exact ⟨congrArg Answer.shots hreply, hafter, rfl⟩
  | remainingShots call session maxShots =>
    obtain ⟨hreply, hafter⟩ := h.getUsage keys call session
    exact ⟨congrArg (fun usage => Answer.shots (max 0 (maxShots - usage))) hreply, hafter, rfl⟩
  | resetSession call session =>
    refine ⟨rfl, ⟨h.redisUrl, h.ttl, h.failOpen, h.memory.erase session⟩, ?_⟩
    simp only [Call.run, BudgetTracker.resetSession, h.redisUrl]
  | healthSummary probe =>
    exact ⟨rfl, (healthSummary now t probe).symm.trans (h.trans (healthSummary now u probe)), rfl⟩

end Same

/-- Trackers that are the same at the times of the calls answer them the same, with and without
health checks. -/
theorem answers_same {calls : List (Time × Call)} (hordered : (calls.map Prod.fst).Pairwise (· ≤ ·))
    {t u : BudgetTracker} (h : ∀ c ∈ calls, Same c.1 t u) (keys : Keyspace) :
    answers u keys (calls.filter fun c => !c.2.looks) = answers t keys calls := by
  induction calls generalizing t u keys with
  | nil => rfl
  | cons first rest ih =>
    obtain ⟨now, call⟩ := first
    obtain ⟨hfirst, hrest⟩ := List.pairwise_cons.mp hordered
    have hnow : Same now t u := h (now, call) List.mem_cons_self
    have hlater : ∀ {t' u' : BudgetTracker}, Same now t' u' → ∀ c ∈ rest, Same c.1 t' u' :=
      fun hsame c hc => hsame.mono (hfirst c.1 (List.mem_map_of_mem hc))
    obtain ⟨hanswer, hafter, hkeys⟩ := hnow.run keys call
    rw [answers_cons]
    by_cases hlooks : call.looks = true
    · -- The health check is gone on one side only
      cases call with
      | healthSummary probe =>
        rw [if_pos hlooks, List.filter_cons_of_neg (by simp [hlooks])]
        exact ih hrest (hlater ((Same.healthSummary now t probe).symm.trans hnow)) keys
      | _ => cases hlooks
    · rw [if_neg hlooks, List.filter_cons_of_pos (by simp [hlooks]), answers_cons, if_neg hlooks, hanswer, hkeys,
        ih hrest (hlater hafter)]

/-! ### What a health check counts -/

/-- What a call makes of the time of the last attempt of a session. -/
def Call.attempt (session : SessionId) (last : Option Time) (now : Time) : Call → Option Time
  | .reserve _ sessionId requested maxShots =>
    if sessionId = session ∧ BudgetTracker.checkReserve requested maxShots = none then some now else last
  | .resetSession _ sessionId => if sessionId = session then none else last
  | _ => last

/-- When a session last tried to reserve, since it was last reset. -/
def lastAttempt (session : SessionId) (last : Option Time) : List (Time × Call) → Option Time
  | [] => last
  | (now, call) :: rest => lastAttempt session (call.attempt session last now) rest

/-- The entries that count are those of the last attempts within a TTL. -/
def Remembers (now : Time) (t : BudgetTracker) (attempts : SessionId → Option Time) : Prop :=
  ∀ later, now ≤ later → ∀ session,
    (Lapse.young (t.sessionTtlSeconds : Time) later (t.inMemoryUsage.get? session)).map Prod.snd =
      (attempts session).filter fun last => decide (later - last < t.sessionTtlSeconds)

namespace Remembers
variable {past now : Time} {t : BudgetTracker} {attempts : SessionId → Option Time}

theorem same (h : Remembers past t attempts) (hle : past ≤ now) {u : BudgetTracker} (hsame : Same now t u) :
    Remembers now u attempts := by
  intro later hlater session
  rw [hsame.ttl, ← hsame.memory later hlater session]
  exact h later (hle.trans hlater) session

/-- An attempt puts the time of its session at now, whatever total it stores. -/
theorem reserveMemory (h : Remembers past t attempts) (hle : past ≤ now) (session : SessionId)
    (requested maxShots : Int) :
    Remembers now (t.reserveMemory now session requested maxShots).2
      (Function.update attempts session (some now)) := by
  obtain ⟨total, hafter, -⟩ := BudgetTracker.reserveMemory_total t now session requested maxShots
  intro later hlater other
  rw [hafter, Dict.get?_set]
  by_cases hother : session = other
  · subst hother
    rw [if_pos rfl, Function.update_self, Lapse.young_some, Option.filter_some]
    by_cases hyoung : later - now < t.sessionTtlSeconds
    · rw [if_pos hyoung, if_pos (decide_eq_true hyoung)]
      rfl
    · rw [if_neg hyoung, if_neg (by simpa using hyoung)]
      rfl
  · rw [if_neg hother, Function.update_of_ne (Ne.symm hother)]
    exact h.same hle (Same.swept now t) later hlater other

theorem reset (h : Remembers past t attempts) (hle : past ≤ now) (session : SessionId) :
    Remembers now {t with inMemoryUsage := t.inMemoryUsage.erase session} (Function.update attempts session none) := by
  intro later hlater other
  rw [Dict.get?_erase]
  by_cases hother : session = other
  · subst hother
    rw [if_pos rfl, Function.update_self]
    rfl
  · rw [if_neg hother, Function.update_of_ne (Ne.symm hother)]
    exact h later (hle.trans hlater) other

/-- Without Redis. -/
theorem run (h : Remembers past t attempts) (keys : Keyspace) (hle : past ≤ now) (hredis : t.redisUrl = false)
    (call : Call) :
    Remembers now (call.run now t keys).2.1 (fun session => call.attempt session (attempts session) now) ∧
      (call.run now t keys).2.1.redisUrl = false ∧
      (call.run now t keys).2.1.sessionTtlSeconds = t.sessionTtlSeconds := by
  cases call with
  | reserve call session requested maxShots =>
    cases hcheck : BudgetTracker.checkReserve requested maxShots with
    | some exc =>
      simp only [Call.run, BudgetTracker.reserve, Call.attempt, hcheck, reduceCtorEq, and_false, if_false]
      exact ⟨h.same hle (Same.refl now t), hredis, trivial⟩
    | none =>
      obtain ⟨total, hafter, -⟩ := BudgetTracker.reserveMemory_total t now session requested maxShots
      have hattempts : (fun other =>
          (Call.reserve call session requested maxShots).attempt other (attempts other) now) =
          Function.update attempts session (some now) := by
        funext other
        simp only [Call.attempt, hcheck, and_true, Function.update_apply, eq_comm]
      simp only [hattempts, Call.run, BudgetTracker.reserve, hcheck, hredis]
      refine ⟨h.reserveMemory hle session requested maxShots, ?_, ?_⟩
      · simp only [Bool.false_eq_true, if_false, hafter]
        exact hredis
      · simp only [Bool.false_eq_true, if_false, hafter]
  | getUsage call session =>
    have hsame := Same.looked now t keys call session
    exact ⟨h.same hle hsame, hsame.redisUrl.trans hredis, hsame.ttl⟩
  | remainingShots call session maxShots =>
    have hsame := Same.looked now t keys call session
    exact ⟨h.same hle hsame, hsame.redisUrl.trans hredis, hsame.ttl⟩
  | resetSession call session =>
    have hattempts : (fun other => (Call.resetSession call session).attempt other (attempts other) now) =
        Function.update attempts session none := by
      funext other
      simp only [Call.attempt, Function.update_apply, eq_comm]
    rw [hattempts]
    exact ⟨h.reset hle session, hredis, rfl⟩
  | healthSummary probe =>
    have hsame := Same.healthSummary now t probe
    exact ⟨h.same hle hsame, hsame.redisUrl.trans hredis, hsame.ttl⟩

end Remembers

/-- What a history of calls leaves in memory are the last attempts. -/
theorem remembers_after {calls : List (Time × Call)} (hordered : (calls.map Prod.fst).Pairwise (· ≤ ·))
    {past : Time} (hpast : ∀ c ∈ calls, past ≤ c.1) {t : BudgetTracker} (hredis : t.redisUrl = false)
    {attempts : SessionId → Option Time} (h : Remembers past t attempts) (keys : Keyspace) {now : Time}
    (hle : past ≤ now) (hnow : ∀ c ∈ calls, c.1 ≤ now) :
    Remembers now (after t keys calls).1 (fun session => lastAttempt session (attempts session) calls) ∧
      (after t keys calls).1.redisUrl = false ∧
      (after t keys calls).1.sessionTtlSeconds = t.sessionTtlSeconds := by
  induction calls generalizing past t attempts keys with
  | nil => exact ⟨h.same hle (Same.refl now t), hredis, rfl⟩
  | cons first rest ih =>
    obtain ⟨at', call⟩ := first
    obtain ⟨hfirst, hrest⟩ := List.pairwise_cons.mp hordered
    obtain ⟨hrun, hredis', httl⟩ := h.run keys (hpast (at', call) List.mem_cons_self) hredis call
    have hlater : ∀ c ∈ rest, at' ≤ c.1 := fun c hc => hfirst c.1 (List.mem_map_of_mem hc)
    obtain ⟨hafter, hoff, httl'⟩ := ih hrest hlater hredis' hrun (call.run at' t keys).2.2
      (hnow (at', call) List.mem_cons_self) fun c hc => hnow c (List.mem_cons_of_mem _ hc)
    exact ⟨hafter, hoff, httl'.trans httl⟩

/-- **A health check is not seen, and sees the sessions.** With the clock never going back, the
other calls of a history are answered as without the health checks. On a tracker that
starts empty without Redis, a health check counts the sessions whose last attempt to reserve,
since they were last reset, is less than a TTL ago. -/
theorem health_unseen (t : BudgetTracker) (keys : Keyspace) {calls : List (Time × Call)}
    (hordered : (calls.map Prod.fst).Pairwise (· ≤ ·)) :
    answers t keys (calls.filter fun c => !c.2.looks) = answers t keys calls ∧
    (t.redisUrl = false → t.inMemoryUsage = Dict.empty → ∀ now probe, (∀ c ∈ calls, c.1 ≤ now) →
      ∃ sessions : List SessionId, sessions.Nodup ∧
        (∀ session, session ∈ sessions ↔
          ∃ last, lastAttempt session none calls = some last ∧ now - last < t.sessionTtlSeconds) ∧
        ((after t keys calls).1.healthSummary now probe).1.sessionKeys = sessions.length) := by
  refine ⟨answers_same hordered (fun c _ => Same.refl c.1 t) keys, fun hredis hempty now probe hnow => ?_⟩
  have hstart : ∃ past, past ≤ now ∧ ∀ c ∈ calls, past ≤ c.1 := by
    cases calls with
    | nil => exact ⟨now, le_refl now, fun c hc => absurd hc List.not_mem_nil⟩
    | cons first rest =>
      refine ⟨first.1, hnow first List.mem_cons_self, fun c hc => ?_⟩
      rcases List.mem_cons.mp hc with rfl | hc
      · exact le_refl _
      · exact (List.pairwise_cons.mp hordered).1 c.1 (List.mem_map_of_mem hc)
  obtain ⟨past, hpastNow, hpast⟩ := hstart
  have hnone : Remembers past t fun _ => none := by
    intro later _ session
    rw [hempty]
    rfl
  obtain ⟨hafter, hoff, httl⟩ := remembers_after hordered hpast hredis hnone keys hpastNow hnow
  generalize (after t keys calls).1 = u at hafter hoff httl ⊢
  refine ⟨(u.evictExpired now).inMemoryUsage.keys, (u.evictExpired now).inMemoryUsage.nodup, fun session => ?_, ?_⟩
  · have hentry : (Lapse.young (u.sessionTtlSeconds : Time) now (u.inMemoryUsage.get? session)).map Prod.snd =
        (lastAttempt session none calls).filter fun last => decide (now - last < u.sessionTtlSeconds) :=
      hafter now (le_refl now) session
    have hget : (u.evictExpired now).inMemoryUsage.get? session =
        Lapse.young (u.sessionTtlSeconds : Time) now (u.inMemoryUsage.get? session) := Lapse.get?_sweep _ _ _ _
    rw [Dict.mem_keys, hget, ← httl]
    constructor
    · intro h
      obtain ⟨e, he⟩ := h
      rw [he, Option.map_some, eq_comm, Option.filter_eq_some_iff] at hentry
      exact ⟨e.2, hentry.1, of_decide_eq_true hentry.2⟩
    · intro h
      obtain ⟨last, hlast, hyoung⟩ := h
      rw [hlast, Option.filter_some, if_pos (decide_eq_true hyoung)] at hentry
      obtain ⟨e, he, -⟩ := Option.map_eq_some_iff.mp hentry
      exact ⟨e, he⟩
  · simp only [BudgetTracker.healthSummary, hoff, Bool.false_eq_true, if_false, Dict.keys, List.length_map]
    rfl

/-- Session 1 is past its TTL by the end, session 3 is reset. -/
def threeSessions : List (Time × Call) :=
  [(0, .reserve .replies 1 10 100), (10, .healthSummary ⟨true, 0⟩), (50, .reserve .replies 2 10 100),
    (55, .reserve .replies 3 10 100), (56, .resetSession .replies 3), (70, .getUsage .replies 1)]

theorem health_unseen_three :
    let t : BudgetTracker := { redisUrl := false, sessionTtlSeconds := 60, failOpenOnRedisError := false }
    answers t Dict.empty (threeSessions.filter fun c => !c.2.looks) = answers t Dict.empty threeSessions ∧
      (∃ sessions : List SessionId, sessions.Nodup ∧ (∀ session, session ∈ sessions ↔
        ∃ last, lastAttempt session none threeSessions = some last ∧ 80 - last < (60 : Int)) ∧
        ((after t Dict.empty threeSessions).1.healthSummary 80 ⟨true, 0⟩).1.sessionKeys = sessions.length) ∧
      ((after t Dict.empty threeSessions).1.healthSummary 80 ⟨true, 0⟩).1.sessionKeys = 1 := by
  intro t
  have hordered : (threeSessions.map Prod.fst).Pairwise (· ≤ ·) := by decide +kernel
  obtain ⟨hanswers, hcounts⟩ := health_unseen t Dict.empty hordered
  have hnow : ∀ c ∈ threeSessions, c.1 ≤ 80 := by
    have hall : ∀ now ∈ threeSessions.map Prod.fst, now ≤ 80 := by decide +kernel
    exact fun c hc => hall c.1 (List.mem_map_of_mem hc)
  exact ⟨hanswers, hcounts rfl rfl 80 ⟨true, 0⟩ hnow, by decide +kernel⟩

end SynQc.Budget
