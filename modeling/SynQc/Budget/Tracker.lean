import SynQc.Budget.Lua
import SynQc.Library.Quota
import SynQc.Models

/-! The per-session shot budget.

With a Redis URL a session's total is a Redis key and a reserve is one Lua script, which
Redis runs atomically; `luaReserve` is that script on one key. Without one the total is
kept in the process, next to the time it was last touched. Either way an attempt keeps
the total alive for another TTL, and a total that is not touched for a TTL is dropped.

A Redis call can raise before the script ran or after it: `RedisCall` says which. What
the tracker does then depends on `fail_open_on_redis_error`. -/
namespace SynQc.Budget

/-! ### The reserve script -/

/-- A session key in Redis: its text, and when it expires. -/
structure Key where
  text : LuaText
  expireAt : Option Time

/-- An expired key is gone for every command. -/
def Key.alive (now : Time) (k : Key) : Bool := k.expireAt.all fun t => decide (now < t)

/-- The number the script reads from a key: `tonumber(redis.call("GET", key) or "0")`. -/
def amount : Option Key → Nat
  | none => 0
  | some k => tonumber k.text

/-- `_LUA_RESERVE` on a key that has not expired: the key afterwards, and the reply. -/
def luaReserve (now : Time) (key : Option Key) (requested maxv : Nat) (ttl : Int) :
    Option Key × Bool × Nat :=
  let current := amount key
  let newTotal := roundDouble (current + roundDouble requested)
  if newTotal > roundDouble maxv then
    -- Sliding TTL: keep the session "alive" even when over budget
    (if 0 < ttl then key.map fun k => {k with expireAt := some (now + ttl)} else key, false, current)
  else
    (some ⟨tostring newTotal, if 0 < ttl then some (now + ttl) else none⟩, true, newTotal)

section Script
variable {now : Time} {key : Option Key} {requested maxv : Nat} {ttl : Int}

theorem luaReserve_over (h : roundDouble maxv < roundDouble (amount key + roundDouble requested)) :
    luaReserve now key requested maxv ttl =
      (if 0 < ttl then key.map fun k => {k with expireAt := some (now + ttl)} else key, false,
        amount key) := if_pos h

theorem luaReserve_fits (h : roundDouble (amount key + roundDouble requested) ≤ roundDouble maxv) :
    luaReserve now key requested maxv ttl =
      (some ⟨tostring (roundDouble (amount key + roundDouble requested)),
        if 0 < ttl then some (now + ttl) else none⟩, true,
        roundDouble (amount key + roundDouble requested)) := if_neg (Nat.not_lt.mpr h)

/-- A refusal leaves the total as it was. -/
theorem luaReserve_refused (h : (luaReserve now key requested maxv ttl).2.1 = false) :
    amount (luaReserve now key requested maxv ttl).1 = amount key := by
  rcases Nat.lt_or_ge (roundDouble maxv) (roundDouble (amount key + roundDouble requested)) with hn | hn
  · rw [luaReserve_over hn]
    cases key <;> split <;> rfl
  · rw [luaReserve_fits hn] at h
    cases h

/-- While totals stay below 10^14 nothing is rounded: an accepted request fits under the
maximum and the total grows by exactly the request. -/
theorem luaReserve_accepted (h : (luaReserve now key requested maxv ttl).2.1 = true)
    (hbelow : amount (luaReserve now key requested maxv ttl).1 < 10 ^ 14) :
    amount key + requested ≤ maxv ∧
      amount (luaReserve now key requested maxv ttl).1 = amount key + requested := by
  rcases Nat.lt_or_ge (roundDouble maxv) (roundDouble (amount key + roundDouble requested)) with hn | hn
  · rw [luaReserve_over hn] at h
    cases h
  · rw [luaReserve_fits hn] at hbelow ⊢
    have hlt := lt_of_tonumber_tostring hbelow
    have hsum := roundDouble_exact (lt_trans hlt (by decide))
    have hreq : roundDouble requested = requested := by
      apply roundDouble_exact
      omega
    rw [hreq] at hn hsum hlt ⊢
    refine ⟨?_, (tonumber_tostring hlt).trans hsum⟩
    by_cases hmax : maxv < 2 ^ 53
    · rw [roundDouble_of_lt hmax] at hn
      omega
    · omega

/-- So an accepted script is a grant of the quota. -/
theorem luaReserve_take (h : (luaReserve now key requested maxv ttl).2.1 = true)
    (hbelow : amount (luaReserve now key requested maxv ttl).1 < 10 ^ 14) (q : Quota maxv)
    (hq : q.used = amount key) :
    ∃ r, q.take requested = some r ∧ r.used = amount (luaReserve now key requested maxv ttl).1 := by
  obtain ⟨hfits, hgrows⟩ := luaReserve_accepted h hbelow
  rw [hgrows]
  exact ⟨⟨amount key + requested, hfits⟩, Quota.take_eq_some.mpr ⟨hq ▸ hfits, by rw [hq]⟩, rfl⟩

/-- A request that fits below 10^14 is not rounded, whatever the maximum. -/
theorem luaReserve_small (hsmall : amount key + requested < 10 ^ 14) :
    amount (luaReserve now key requested maxv ttl).1 < 10 ^ 14 := by
  have hreq : roundDouble requested = requested := roundDouble_of_lt (by omega)
  have hsum : roundDouble (amount key + requested) = amount key + requested :=
    roundDouble_of_lt (by omega)
  rcases Nat.lt_or_ge (roundDouble maxv) (roundDouble (amount key + roundDouble requested)) with hn | hn
  · rw [luaReserve_refused (by rw [luaReserve_over hn])]
    omega
  · rw [luaReserve_fits hn, hreq, hsum]
    exact (tonumber_tostring hsmall).trans_lt hsmall

/-- A maximum below 10^14 keeps every total the script stores below it. -/
theorem luaReserve_below (hmax : maxv < 10 ^ 14) (hkey : amount key < 10 ^ 14) :
    amount (luaReserve now key requested maxv ttl).1 < 10 ^ 14 := by
  rcases Nat.lt_or_ge (roundDouble maxv) (roundDouble (amount key + roundDouble requested)) with hn | hn
  · rwa [luaReserve_refused (by rw [luaReserve_over hn])]
  · rw [luaReserve_fits hn]
    rw [roundDouble_of_lt (lt_trans hmax (by decide))] at hn
    have hlt := lt_of_le_of_lt hn hmax
    exact (tonumber_tostring hlt).trans_lt hlt

/-- With a TTL, whatever key the script leaves expires a TTL from now. -/
theorem luaReserve_expireAt (httl : 0 < ttl) {k : Key}
    (h : (luaReserve now key requested maxv ttl).1 = some k) : k.expireAt = some (now + ttl) := by
  rcases Nat.lt_or_ge (roundDouble maxv) (roundDouble (amount key + roundDouble requested)) with hn | hn
  · rw [luaReserve_over hn, if_pos httl] at h
    obtain ⟨old, _, rfl⟩ := Option.map_eq_some_iff.mp h
    rfl
  · rw [luaReserve_fits hn, if_pos httl] at h
    cases h
    rfl

end Script

/-! ### The tracker -/

/-- How a Redis command ends for its caller. -/
inductive RedisCall where
  | replies
  | raisesBefore
  | raisesAfter
  deriving DecidableEq

/-- `session_id -> (shots_used, last_seen_ts)` -/
abbrev Memory := Dict SessionId (Int × Time)

structure BudgetTracker where
  redisUrl : Bool
  sessionTtlSeconds : Int
  failOpenOnRedisError : Bool
  inMemoryUsage : Memory := Dict.empty

/-- The session keys of the Redis server. -/
abbrev Keyspace := Dict SessionId Key

/-- The key a command finds. -/
def Keyspace.find (keys : Keyspace) (now : Time) (session : SessionId) : Option Key :=
  (keys.get? session).filter (Key.alive now)

def Keyspace.write (keys : Keyspace) (session : SessionId) : Option Key → Keyspace
  | none => keys.erase session
  | some k => keys.set session k

theorem Keyspace.get?_write (keys : Keyspace) (session session' : SessionId) (key : Option Key) :
    (keys.write session key).get? session' = if session = session' then key else keys.get? session' := by
  cases key with
  | none => exact Dict.get?_erase keys session session'
  | some k => exact Dict.get?_set keys session session' k

namespace BudgetTracker

def evictExpired (t : BudgetTracker) (now : Time) : BudgetTracker :=
  {t with inMemoryUsage := t.inMemoryUsage.filter fun _ e => decide (now - e.2 < t.sessionTtlSeconds)}

/-- What is in memory for a session, 0 where there is no entry. -/
def usage (t : BudgetTracker) (session : SessionId) : Int :=
  (t.inMemoryUsage.get? session).elim 0 Prod.fst

def reserveMemory (t : BudgetTracker) (now : Time) (session : SessionId)
    (requested maxShots : Int) : (Bool × Int) × BudgetTracker :=
  let t := t.evictExpired now
  let current := t.usage session
  let newTotal := current + requested
  -- Sliding TTL: refresh last_seen on *any* attempt
  if newTotal > maxShots then
    ((false, current), {t with inMemoryUsage := t.inMemoryUsage.set session (current, now)})
  else
    ((true, newTotal), {t with inMemoryUsage := t.inMemoryUsage.set session (newTotal, now)})

/-- The argument checks of `reserve`. -/
def checkReserve (requested maxShots : Int) : Option Exc :=
  if requested < 0 then some (.valueError "requested must be >= 0")
  else if maxShots ≤ 0 then some (.valueError "max_shots_per_session must be > 0")
  else none

/-- `BudgetBackendUnavailable` -/
def unavailable : Exc := .other "Budget backend unavailable (Redis error)"

/-- Fail closed, or open to the memory of this process. -/
def onRedisError (t : BudgetTracker) (now : Time) (session : SessionId)
    (requested maxShots : Int) : Except Exc (Bool × Int) × BudgetTracker :=
  if t.failOpenOnRedisError then
    let (reply, t) := t.reserveMemory now session requested maxShots
    (.ok reply, t)
  else
    (.error unavailable, t)

def reserve (t : BudgetTracker) (now : Time) (keys : Keyspace) (call : RedisCall)
    (session : SessionId) (requested maxShots : Int) :
    Except Exc (Bool × Int) × BudgetTracker × Keyspace :=
  match checkReserve requested maxShots with
  | some exc => (.error exc, t, keys)
  | none =>
    if t.redisUrl then
      let (key, accepted, usage) := luaReserve now (keys.find now session) requested.toNat
        maxShots.toNat t.sessionTtlSeconds
      match call with
      | .replies => (.ok (accepted, usage), t, keys.write session key)
      | .raisesBefore =>
        let (reply, t) := t.onRedisError now session requested maxShots
        (reply, t, keys)
      | .raisesAfter =>
        let (reply, t) := t.onRedisError now session requested maxShots
        (reply, t, keys.write session key)
    else
      let (reply, t) := t.reserveMemory now session requested maxShots
      (.ok reply, t, keys)

/-- `int(val)` on a stored text; Python reads no exponents. -/
def readInt : LuaText → Option Int
  | .digits n => some n
  | .scientific _ _ => none

def usageMemory (t : BudgetTracker) (now : Time) (session : SessionId) : Int × BudgetTracker :=
  let t := t.evictExpired now
  (t.usage session, t)

/-- Advisory: when Redis fails, what this process has in memory. -/
def getUsage (t : BudgetTracker) (now : Time) (keys : Keyspace) (call : RedisCall)
    (session : SessionId) : Int × BudgetTracker :=
  if t.redisUrl ∧ call = .replies then
    match keys.find now session with
    | none => (0, t)
    | some key =>
      match readInt key.text with
      | some shots => (shots, t)
      | none => t.usageMemory now session
  else
    t.usageMemory now session

/-- What the maximum leaves, by the usage as `get_usage` has it. -/
def remainingShots (t : BudgetTracker) (now : Time) (keys : Keyspace) (call : RedisCall)
    (session : SessionId) (maxShots : Int) : Int × BudgetTracker :=
  let (usage, t) := t.getUsage now keys call session
  (max 0 (maxShots - usage), t)

/-! ### What a reserve does -/

section Reserve
variable {t u : BudgetTracker} {now : Time} {keys keys' : Keyspace} {call : RedisCall}
  {session : SessionId} {requested maxShots : Int} {reply : Except Exc (Bool × Int)}

/-- On Redis, unless it fails open, a reserve is the script or nothing. -/
theorem reserve_redis (hredis : t.redisUrl = true)
    (hclosed : call = .replies ∨ t.failOpenOnRedisError = false)
    (hcheck : checkReserve requested maxShots = none)
    (h : t.reserve now keys call session requested maxShots = (reply, u, keys')) :
    u = t ∧
      ((call = .raisesBefore ∧ keys' = keys ∧ reply = .error unavailable) ∨
        (call ≠ .raisesBefore ∧
          keys' = keys.write session (luaReserve now (keys.find now session) requested.toNat
            maxShots.toNat t.sessionTtlSeconds).1 ∧
          (reply = .error unavailable ∨
            reply = .ok ((luaReserve now (keys.find now session) requested.toNat maxShots.toNat
              t.sessionTtlSeconds).2.1, ((luaReserve now (keys.find now session) requested.toNat
              maxShots.toNat t.sessionTtlSeconds).2.2 : Int))))) := by
  unfold reserve at h
  simp only [hcheck, hredis, if_true] at h
  cases call with
  | replies =>
    cases h
    exact ⟨rfl, .inr ⟨nofun, rfl, .inr rfl⟩⟩
  | raisesBefore =>
    have hopen : t.failOpenOnRedisError = false := hclosed.resolve_left nofun
    simp only [onRedisError, hopen] at h
    cases h
    exact ⟨rfl, .inl ⟨rfl, rfl, rfl⟩⟩
  | raisesAfter =>
    have hopen : t.failOpenOnRedisError = false := hclosed.resolve_left nofun
    simp only [onRedisError, hopen] at h
    cases h
    exact ⟨rfl, .inr ⟨nofun, rfl, .inl rfl⟩⟩

theorem reserve_local (hredis : t.redisUrl = false)
    (hcheck : checkReserve requested maxShots = none)
    (h : t.reserve now keys call session requested maxShots = (reply, u, keys')) :
    keys' = keys ∧ reply = .ok (t.reserveMemory now session requested maxShots).1 ∧
      u = (t.reserveMemory now session requested maxShots).2 := by
  unfold reserve at h
  simp only [hcheck, hredis] at h
  cases h
  exact ⟨rfl, rfl, rfl⟩

/-- In memory, an accepted request fits and is added; a refused one adds nothing. -/
theorem reserveMemory_total (t : BudgetTracker) (now : Time) (session : SessionId)
    (requested maxShots : Int) :
    ∃ total : Int,
      (t.reserveMemory now session requested maxShots).2 =
        {t with inMemoryUsage := (t.evictExpired now).inMemoryUsage.set session (total, now)} ∧
      (((t.reserveMemory now session requested maxShots).1.1 = true ∧ total ≤ maxShots ∧
          total = (t.evictExpired now).usage session + requested) ∨
        ((t.reserveMemory now session requested maxShots).1.1 = false ∧
          total = (t.evictExpired now).usage session)) := by
  unfold reserveMemory
  simp only
  split
  · exact ⟨_, rfl, .inr ⟨rfl, rfl⟩⟩
  · rename_i h
    exact ⟨_, rfl, .inl ⟨rfl, Int.not_lt.mp h, rfl⟩⟩

/-- Eviction keeps an entry that is younger than the TTL and drops the others. -/
theorem evictExpired_get? (t : BudgetTracker) (now : Time) (session : SessionId) :
    (t.evictExpired now).inMemoryUsage.get? session =
      (t.inMemoryUsage.get? session).filter fun e => decide (now - e.2 < t.sessionTtlSeconds) :=
  Dict.get?_filter _ _ _

theorem evictExpired_young {e : Int × Time} (h : t.inMemoryUsage.get? session = some e)
    (hyoung : now - e.2 < t.sessionTtlSeconds) :
    (t.evictExpired now).inMemoryUsage.get? session = some e := by
  rw [evictExpired_get?, h, Option.filter_some, if_pos (decide_eq_true hyoung)]

theorem evictExpired_le {e : Int × Time} (h : (t.evictExpired now).inMemoryUsage.get? session = some e) :
    t.inMemoryUsage.get? session = some e := by
  rw [evictExpired_get?, Option.filter_eq_some_iff] at h
  exact h.1

/-- Looking at the usage evicts at most. -/
theorem getUsage_tracker (t : BudgetTracker) (now : Time) (keys : Keyspace) (call : RedisCall)
    (session : SessionId) :
    (t.getUsage now keys call session).2 = t ∨ (t.getUsage now keys call session).2 = t.evictExpired now := by
  unfold getUsage usageMemory
  split
  · split
    · exact .inl rfl
    · split
      · exact .inl rfl
      · exact .inr rfl
  · exact .inr rfl

end Reserve

end BudgetTracker

end SynQc.Budget
