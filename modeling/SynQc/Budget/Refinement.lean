import SynQc.Budget.Tracker
import SynQc.Library.Machine

/-! The memory path against the Redis path.

Two trackers with the same TTL take the same calls, one without Redis, one whose Redis
calls all succeed. A session's entry in memory and its key in Redis agree on the total and
on when it ends: an attempt refreshes both, and where only the memory gets an entry, for a
refused attempt on a session without a key, its total is zero.

What can come between them is the script's arithmetic. `exactTotal` asks that it does not:
totals below 10^14 are stored and read back as they are, and from there on `tostring`
prints an exponent, which `get_usage` does not read. -/
namespace SynQc.Budget.Refinement

/-! ### Calls on a tracker -/

inductive Request where
  | reserve (session : SessionId) (requested maxShots : Int)
  | getUsage (session : SessionId)
  | remainingShots (session : SessionId) (maxShots : Int)

/-- A call, at its reading of the clock. -/
structure Call where
  now : Time
  request : Request

inductive Reply where
  | reserved (result : Except Exc (Bool × Int))
  | shots (n : Int)

/-- A tracker, the keys of its Redis, and the last reading of the clock. -/
structure Deployment where
  tracker : BudgetTracker
  keys : Keyspace := Dict.empty
  clock : Time

namespace Deployment

def step (call : Call) (d : Deployment) : Reply × Deployment :=
  match call.request with
  | .reserve session requested maxShots =>
    let (result, tracker, keys) := d.tracker.reserve call.now d.keys .replies session requested maxShots
    (.reserved result, ⟨tracker, keys, call.now⟩)
  | .getUsage session =>
    let (shots, tracker) := d.tracker.getUsage call.now d.keys .replies session
    (.shots shots, ⟨tracker, d.keys, call.now⟩)
  | .remainingShots session maxShots =>
    let (shots, tracker) := d.tracker.remainingShots call.now d.keys .replies session maxShots
    (.shots shots, ⟨tracker, d.keys, call.now⟩)

end Deployment

def machine : Machine Call Deployment Reply := ⟨Deployment.step⟩

/-- A new tracker of the settings, with or without Redis. -/
def fresh (cfg : Settings) (redisUrl : Bool) (clock : Time) : Deployment where
  tracker := ⟨redisUrl, cfg.sessionBudgetTtlSeconds, cfg.budgetFailOpenOnRedisError, Dict.empty⟩
  clock := clock

/-! ### The rules -/

/-- Calls come in the order of time. -/
def inOrder (call : Call) (d : Deployment) : Prop := d.clock ≤ call.now

/-- The calls of a deployment all name its maximum. -/
def names (maxShots : Int) (call : Call) : Prop :=
  match call.request with
  | .reserve _ _ m | .remainingShots _ m => m = maxShots
  | .getUsage _ => True

/-- The total a reserve would make is below 10^14, or above the maximum also as the script
compares them. -/
def exactTotal (call : Call) (d : Deployment) : Prop :=
  match call.request with
  | .reserve session requested maxShots =>
    let usage := (d.tracker.evictExpired call.now).usage session
    usage + requested < 10 ^ 14 ∨ maxShots < usage + requested ∧
      roundDouble maxShots.toNat < roundDouble (usage.toNat + roundDouble requested.toNat)
  | _ => True

/-! ### Entries and keys -/

/-- A session's entry in memory and its key in Redis, at some time. -/
def Agrees (ttl : Int) (now : Time) (entry : Option (Int × Time)) (key : Option Key) : Prop :=
  match key.filter (Key.alive now) with
  | none => ∀ e, entry = some e → now - e.2 < ttl → e.1 = 0
  | some k => ∃ n : Nat, ∃ seen, entry = some ((n : Int), seen) ∧ k = ⟨.digits n, some (seen + ttl)⟩ ∧ n < 10 ^ 14

section Agreement
variable {ttl : Int} {now after : Time} {entry : Option (Int × Time)} {key : Option Key}

theorem alive_iff {n : LuaText} {seen : Time} : Key.alive now ⟨n, some (seen + ttl)⟩ = true ↔ now - seen < ttl := by
  rw [Key.alive, Option.all_some, decide_eq_true_eq, sub_lt_iff_lt_add']

theorem Agrees.of_none (hkey : key.filter (Key.alive now) = none) (h : ∀ e, entry = some e → now - e.2 < ttl → e.1 = 0) :
    Agrees ttl now entry key := by
  rw [Agrees, hkey]
  exact h

theorem Agrees.of_some {k : Key} (hkey : key.filter (Key.alive now) = some k)
    (h : ∃ n : Nat, ∃ seen, entry = some ((n : Int), seen) ∧ k = ⟨.digits n, some (seen + ttl)⟩ ∧ n < 10 ^ 14) :
    Agrees ttl now entry key := by
  rw [Agrees, hkey]
  exact h

/-- What agrees now agrees later: both end at the same time. -/
theorem Agrees.later (h : Agrees ttl now entry key) (hle : now ≤ after) : Agrees ttl after entry key := by
  have hyounger : ∀ seen : Time, after - seen < ttl → now - seen < ttl := fun seen =>
    lt_of_le_of_lt (sub_le_sub_right hle seen)
  cases hnow : key.filter (Key.alive now) with
  | none =>
    rw [Agrees, hnow] at h
    apply Agrees.of_none
    · rw [Option.filter_eq_none_iff] at hnow ⊢
      intro k hk halive
      refine hnow k hk ?_
      unfold Key.alive at halive ⊢
      rw [Option.all_eq_true] at halive ⊢
      intro t ht
      rw [decide_eq_true_eq]
      exact lt_of_le_of_lt hle (of_decide_eq_true (halive t ht))
    · exact fun e he hyoung => h e he (hyounger e.2 hyoung)
  | some k =>
    rw [Agrees, hnow] at h
    obtain ⟨n, seen, hentry, hk, hn⟩ := h
    obtain ⟨hkey, _⟩ := Option.filter_eq_some_iff.mp hnow
    by_cases hyoung : after - seen < ttl
    · apply Agrees.of_some (k := k)
      · rw [Option.filter_eq_some_iff]
        refine ⟨hkey, ?_⟩
        rw [hk]
        exact alive_iff.mpr hyoung
      · exact ⟨n, seen, hentry, hk, hn⟩
    · apply Agrees.of_none
      · rw [hkey, Option.filter_some, if_neg]
        rw [hk, alive_iff]
        exact hyoung
      · intro e he hyoung'
        rw [hentry] at he
        cases he
        exact absurd hyoung' hyoung

/-- Eviction takes away only what has ended. -/
theorem Agrees.evict (h : Agrees ttl now entry key) :
    Agrees ttl now (entry.filter fun e => decide (now - e.2 < ttl)) key := by
  cases hnow : key.filter (Key.alive now) with
  | none =>
    rw [Agrees, hnow] at h
    apply Agrees.of_none hnow
    intro e he
    exact h e (Option.filter_eq_some_iff.mp he).1
  | some k =>
    rw [Agrees, hnow] at h
    obtain ⟨n, seen, hentry, hk, hn⟩ := h
    apply Agrees.of_some hnow
    have halive := (Option.filter_eq_some_iff.mp hnow).2
    rw [hk, alive_iff] at halive
    refine ⟨n, seen, ?_, hk, hn⟩
    rw [hentry, Option.filter_some, if_pos (decide_eq_true halive)]

/-- A key that is alive holds the digits of its total. -/
theorem Agrees.digits {k : Key} (h : Agrees ttl now entry key) (hkey : key.filter (Key.alive now) = some k) :
    ∃ n : Nat, ∃ seen, k = ⟨.digits n, some (seen + ttl)⟩ ∧ n < 10 ^ 14 ∧ amount (some k) = n := by
  rw [Agrees, hkey] at h
  obtain ⟨n, seen, _, rfl, hn⟩ := h
  exact ⟨n, seen, rfl, hn, by rw [amount, ← tostring_of_lt hn, tonumber_tostring hn]⟩

/-- The total is the same. -/
theorem Agrees.amount (h : Agrees ttl now entry key) :
    (entry.filter fun e => decide (now - e.2 < ttl)).elim 0 Prod.fst = (amount (key.filter (Key.alive now)) : Int) := by
  cases hnow : key.filter (Key.alive now) with
  | none =>
    rw [Agrees, hnow] at h
    cases hentry : entry.filter fun e => decide (now - e.2 < ttl) with
    | none => rfl
    | some e =>
      obtain ⟨he, hyoung⟩ := Option.filter_eq_some_iff.mp hentry
      exact h e he (of_decide_eq_true hyoung)
  | some k =>
    obtain ⟨n, _, hdigits, _, htotal⟩ := h.digits hnow
    have hevicted := h.evict
    rw [Agrees, hnow] at hevicted
    obtain ⟨n', _, hentry, hdigits', _⟩ := hevicted
    have hsame : n' = n := LuaText.digits.inj (congrArg Key.text (hdigits'.symm.trans hdigits))
    rw [hentry, Option.elim_some, htotal, hsame]

end Agreement

/-! ### The script against the integers -/

section Arithmetic
variable {used : Nat} {requested maxShots : Int}

/-- Where the rule holds, the script decides as the integers do, and what it accepts it adds. -/
theorem exact_cases (hreq : 0 ≤ requested) (hpos : 0 < maxShots)
    (hexact : (used : Int) + requested < 10 ^ 14 ∨ maxShots < used + requested ∧
      roundDouble maxShots.toNat < roundDouble (used + roundDouble requested.toNat)) :
    (maxShots < used + requested ∧
        roundDouble maxShots.toNat < roundDouble (used + roundDouble requested.toNat)) ∨
      (used + requested ≤ maxShots ∧ used + requested.toNat < 10 ^ 14 ∧
        roundDouble (used + roundDouble requested.toNat) = used + requested.toNat ∧
        used + requested.toNat ≤ roundDouble maxShots.toNat) := by
  rcases hexact with hbelow | hover
  · have hreqSmall : roundDouble requested.toNat = requested.toNat := roundDouble_of_lt (by omega)
    have hsum : roundDouble (used + requested.toNat) = used + requested.toNat := roundDouble_of_lt (by omega)
    rw [hreqSmall, hsum]
    by_cases hfits : used + requested ≤ maxShots
    · refine .inr ⟨hfits, by omega, rfl, ?_⟩
      by_cases hmax : maxShots.toNat < 2 ^ 53
      · rw [roundDouble_of_lt hmax]
        omega
      · have hlarge := le_roundDouble (Nat.le_of_not_lt hmax)
        omega
    · refine .inl ⟨by omega, ?_⟩
      rw [roundDouble_of_lt (n := maxShots.toNat) (by omega)]
      omega
  · exact .inl hover

/-- Below 10^14 a maximum rules the inexact totals out. -/
theorem exact_of_small (hmax : maxShots < 10 ^ 14) (hreq : 0 ≤ requested) :
    (used : Int) + requested < 10 ^ 14 ∨ maxShots < used + requested ∧
      roundDouble maxShots.toNat < roundDouble (used + roundDouble requested.toNat) := by
  by_cases hbelow : (used : Int) + requested < 10 ^ 14
  · exact .inl hbelow
  · refine .inr ⟨by omega, ?_⟩
    rw [roundDouble_of_lt (n := maxShots.toNat) (by omega)]
    by_cases hreqSmall : requested.toNat < 2 ^ 53
    · rw [roundDouble_of_lt hreqSmall]
      by_cases hsum : used + requested.toNat < 2 ^ 53
      · rw [roundDouble_of_lt hsum]
        omega
      · have hlarge := le_roundDouble (Nat.le_of_not_lt hsum)
        omega
    · have hlarge := le_roundDouble (Nat.le_of_not_lt hreqSmall)
      have hlarger := le_roundDouble (n := used + roundDouble requested.toNat) (by omega)
      omega

end Arithmetic

/-! ### One call on both -/

section Reserve
variable {t : BudgetTracker} {now : Time} {keys : Keyspace} {session : SessionId} {requested maxShots : Int}

theorem reserve_error {exc : Exc} (hcheck : BudgetTracker.checkReserve requested maxShots = some exc) :
    t.reserve now keys .replies session requested maxShots = (.error exc, t, keys) := by
  unfold BudgetTracker.reserve
  rw [hcheck]

theorem reserve_memory (hredis : t.redisUrl = false)
    (hcheck : BudgetTracker.checkReserve requested maxShots = none) :
    t.reserve now keys .replies session requested maxShots =
      (.ok (t.reserveMemory now session requested maxShots).1,
        (t.reserveMemory now session requested maxShots).2, keys) := by
  simp only [BudgetTracker.reserve, hcheck, hredis]
  rfl

theorem reserve_script (hredis : t.redisUrl = true) {ttl : Int} (httl : t.sessionTtlSeconds = ttl)
    (hcheck : BudgetTracker.checkReserve requested maxShots = none) {key : Option Key} {accepted : Bool} {usage : Nat}
    (hscript : luaReserve now (keys.find now session) requested.toNat maxShots.toNat ttl = (key, accepted, usage)) :
    t.reserve now keys .replies session requested maxShots =
      (.ok (accepted, (usage : Int)), t, keys.write session key) := by
  simp only [BudgetTracker.reserve, hcheck, hredis, if_true, httl, hscript]

theorem reserveMemory_over (h : maxShots < (t.evictExpired now).usage session + requested) :
    t.reserveMemory now session requested maxShots =
      ((false, (t.evictExpired now).usage session),
        {t with inMemoryUsage :=
          (t.evictExpired now).inMemoryUsage.set session ((t.evictExpired now).usage session, now)}) := if_pos h

theorem reserveMemory_fits (h : (t.evictExpired now).usage session + requested ≤ maxShots) :
    t.reserveMemory now session requested maxShots =
      ((true, (t.evictExpired now).usage session + requested),
        {t with inMemoryUsage :=
          (t.evictExpired now).inMemoryUsage.set session ((t.evictExpired now).usage session + requested, now)}) :=
  if_neg (Int.not_lt.mpr h)

end Reserve

/-- The two deployments: the settings they share, and their agreement on every session. -/
structure Related (ttl : Int) (d e : Deployment) : Prop where
  local_ : d.tracker.redisUrl = false
  redis : e.tracker.redisUrl = true
  localTtl : d.tracker.sessionTtlSeconds = ttl
  redisTtl : e.tracker.sessionTtlSeconds = ttl
  agrees : ∀ session, Agrees ttl d.clock (d.tracker.inMemoryUsage.get? session) (e.keys.get? session)

section Step
variable {ttl : Int} {d e : Deployment} {now : Time}

theorem Related.evicted (h : Related ttl d e) (hle : d.clock ≤ now) (session : SessionId) :
    Agrees ttl now ((d.tracker.evictExpired now).inMemoryUsage.get? session) (e.keys.get? session) := by
  rw [BudgetTracker.evictExpired_get?, h.localTtl]
  exact ((h.agrees session).later hle).evict

theorem Related.usage (h : Related ttl d e) (hle : d.clock ≤ now) (session : SessionId) :
    (d.tracker.evictExpired now).usage session = (amount (e.keys.find now session) : Int) := by
  rw [BudgetTracker.usage, BudgetTracker.evictExpired_get?, h.localTtl]
  exact ((h.agrees session).later hle).amount

/-- What one attempt does to the session, on both. -/
theorem Related.attempt (h : Related ttl d e) (httl : 0 < ttl) (hle : d.clock ≤ now) {session : SessionId}
    {n : Int} {key : Option Key}
    (hkey : key = none ∧ n = 0 ∨ ∃ total : Nat, n = total ∧ total < 10 ^ 14 ∧
      key = some ⟨.digits total, some (now + ttl)⟩) :
    Related ttl
      ⟨{d.tracker with inMemoryUsage := (d.tracker.evictExpired now).inMemoryUsage.set session (n, now)}, d.keys, now⟩
      ⟨e.tracker, e.keys.write session key, now⟩ where
  local_ := h.local_
  redis := h.redis
  localTtl := h.localTtl
  redisTtl := h.redisTtl
  agrees other := by
    show Agrees ttl now (((d.tracker.evictExpired now).inMemoryUsage.set session (n, now)).get? other)
      ((e.keys.write session key).get? other)
    rw [Dict.get?_set, Keyspace.get?_write]
    split
    · rcases hkey with ⟨rfl, rfl⟩ | ⟨total, rfl, hsmall, rfl⟩
      · apply Agrees.of_none rfl
        intro entry hentry _
        cases hentry
        rfl
      · have halive : Key.alive now ⟨.digits total, some (now + ttl)⟩ = true := by
          rw [alive_iff, sub_self]
          exact_mod_cast httl
        exact Agrees.of_some (by rw [Option.filter_some, if_pos halive]) ⟨total, now, rfl, rfl, hsmall⟩
    · exact h.evicted hle other

theorem checkReserve_eq_none {requested maxShots : Int}
    (h : BudgetTracker.checkReserve requested maxShots = none) : 0 ≤ requested ∧ 0 < maxShots := by
  unfold BudgetTracker.checkReserve at h
  split at h
  · cases h
  · split at h
    · cases h
    · omega

/-- A reserve gives the same reply, and leaves the two in agreement. -/
theorem Related.reserve (h : Related ttl d e) (httl : 0 < ttl) (hle : d.clock ≤ now) {session : SessionId}
    {requested maxShots : Int} (hexact : exactTotal ⟨now, .reserve session requested maxShots⟩ d) :
    (d.step ⟨now, .reserve session requested maxShots⟩).1 = (e.step ⟨now, .reserve session requested maxShots⟩).1 ∧
    Related ttl (d.step ⟨now, .reserve session requested maxShots⟩).2
      (e.step ⟨now, .reserve session requested maxShots⟩).2 := by
  cases hcheck : BudgetTracker.checkReserve requested maxShots with
  | some exc =>
    simp only [Deployment.step, reserve_error hcheck, true_and]
    exact ⟨h.local_, h.redis, h.localTtl, h.redisTtl, fun other => (h.agrees other).later hle⟩
  | none =>
    obtain ⟨hreq, hpos⟩ := checkReserve_eq_none hcheck
    have husage := h.usage hle session
    have hagrees := (h.agrees session).later hle
    simp only [exactTotal, husage, Int.toNat_natCast] at hexact
    rcases exact_cases hreq hpos hexact with ⟨hover, hoverDouble⟩ | ⟨hfits, hsmall, hsum, hmax⟩
    · -- refused: the total stays, and a key is kept alive
      have hmemory := reserveMemory_over (t := d.tracker) (show maxShots <
        (d.tracker.evictExpired now).usage session + requested by rw [husage]; exact hover)
      have hscript : luaReserve now (e.keys.find now session) requested.toNat maxShots.toNat ttl =
          ((e.keys.find now session).map fun k => {k with expireAt := some (now + ttl)}, false,
            amount (e.keys.find now session)) := by
        rw [luaReserve_over hoverDouble, if_pos httl]
      simp only [Deployment.step, reserve_memory h.local_ hcheck, hmemory,
        reserve_script h.redis h.redisTtl hcheck hscript, husage, true_and]
      refine h.attempt httl hle ?_
      cases hkey : e.keys.find now session with
      | none => exact .inl ⟨rfl, rfl⟩
      | some k =>
        obtain ⟨n, seen, rfl, hn, htotal⟩ := hagrees.digits hkey
        exact .inr ⟨n, by rw [htotal], hn, rfl⟩
    · have hmemory := reserveMemory_fits (t := d.tracker) (show
        (d.tracker.evictExpired now).usage session + requested ≤ maxShots by rw [husage]; exact hfits)
      have hscript : luaReserve now (e.keys.find now session) requested.toNat maxShots.toNat ttl =
          (some ⟨.digits (amount (e.keys.find now session) + requested.toNat), some (now + ttl)⟩, true,
            amount (e.keys.find now session) + requested.toNat) := by
        rw [luaReserve_fits (hsum.trans_le hmax), hsum, tostring_of_lt hsmall, if_pos httl]
      have htotal : (amount (e.keys.find now session) : Int) + requested =
          ((amount (e.keys.find now session) + requested.toNat : Nat) : Int) := by omega
      simp only [Deployment.step, reserve_memory h.local_ hcheck, hmemory,
        reserve_script h.redis h.redisTtl hcheck hscript, husage, htotal, true_and]
      exact h.attempt httl hle (.inr ⟨_, rfl, hsmall, rfl⟩)

/-- Looking at the usage gives the same number. -/
theorem Related.look (h : Related ttl d e) (hle : d.clock ≤ now) (session : SessionId) :
    (d.tracker.getUsage now d.keys .replies session).1 = (e.tracker.getUsage now e.keys .replies session).1 ∧
    Related ttl ⟨(d.tracker.getUsage now d.keys .replies session).2, d.keys, now⟩
      ⟨(e.tracker.getUsage now e.keys .replies session).2, e.keys, now⟩ := by
  have husage := h.usage hle session
  have hagrees := (h.agrees session).later hle
  have hmemory : d.tracker.getUsage now d.keys .replies session = d.tracker.usageMemory now session := by
    rw [BudgetTracker.getUsage, h.local_]
    rfl
  have hredis : e.tracker.getUsage now e.keys .replies session =
      ((amount (e.keys.find now session) : Int), e.tracker) := by
    rw [BudgetTracker.getUsage, if_pos ⟨h.redis, rfl⟩]
    cases hkey : e.keys.find now session with
    | none => rfl
    | some k =>
      obtain ⟨n, seen, rfl, _, htotal⟩ := hagrees.digits hkey
      rw [htotal]
      rfl
  rw [hmemory, hredis]
  exact ⟨husage, h.local_, h.redis, h.localTtl, h.redisTtl, h.evicted hle⟩

/-- Without Redis and with it, under the rules of time and of exact totals. -/
def refinement (ttl : Int) (httl : 0 < ttl) :
    Machine.Refinement machine machine fun call d => inOrder call d ∧ exactTotal call d where
  Rel := Related ttl
  reply call d e := by
    rintro ⟨hle, hexact⟩ h
    obtain ⟨now, request⟩ := call
    cases request with
    | reserve session requested maxShots => exact (h.reserve httl hle hexact).1
    | getUsage session => exact congrArg Reply.shots (h.look hle session).1
    | remainingShots session maxShots =>
      exact congrArg (fun shots => Reply.shots (max 0 (maxShots - shots))) (h.look hle session).1
  step call d e := by
    rintro ⟨hle, hexact⟩ h
    obtain ⟨now, request⟩ := call
    cases request with
    | reserve session requested maxShots => exact (h.reserve httl hle hexact).2
    | getUsage session => exact (h.look hle session).2
    | remainingShots session maxShots => exact (h.look hle session).2

end Step

/-! ### Sequences of calls -/

section Sequences
variable (cfg : Settings)

theorem ttl_pos : 0 < cfg.sessionBudgetTtlSeconds := lt_of_lt_of_le (by decide) cfg.ttl_min

theorem related_fresh (clock : Time) :
    Related cfg.sessionBudgetTtlSeconds (fresh cfg false clock) (fresh cfg true clock) :=
  ⟨rfl, rfl, rfl, rfl, fun _ => Agrees.of_none rfl nofun⟩

/-- With a maximum below 10^14 the second rule is no restriction. -/
theorem exact_of_names {d e : Deployment} (h : Related cfg.sessionBudgetTtlSeconds d e) {call : Call}
    (hle : inOrder call d) (hnames : names cfg.maxShotsPerSession call)
    (hmax : cfg.maxShotsPerSession < 10 ^ 14) : exactTotal call d := by
  obtain ⟨now, request⟩ := call
  cases request with
  | getUsage => trivial
  | remainingShots => trivial
  | reserve session requested maxShots =>
    obtain rfl : maxShots = cfg.maxShotsPerSession := hnames
    simp only [exactTotal, h.usage hle session, Int.toNat_natCast]
    by_cases hreq : 0 ≤ requested
    · exact exact_of_small hmax hreq
    · -- a negative request is refused by both, and the total is one that was exact
      have hbelow : amount (e.keys.find now session) < 10 ^ 14 := by
        have hagrees := (h.agrees session).later hle
        cases hkey : e.keys.find now session with
        | none => decide
        | some k =>
          obtain ⟨n, seen, rfl, hn, htotal⟩ := hagrees.digits hkey
          rw [htotal]
          exact hn
      exact .inl (by omega)

/-- A total of 10^14, and a look at it. -/
def lostTotal (maxShots : Int) : List Call := [⟨0, .reserve 0 (10 ^ 14) maxShots⟩, ⟨0, .getUsage 0⟩]

theorem replies_lostTotal {d : Deployment} {maxShots shots : Int} {result : Except Exc (Bool × Int)}
    {tracker : BudgetTracker} {keys : Keyspace}
    (hreserve : d.tracker.reserve 0 d.keys .replies 0 (10 ^ 14) maxShots = (result, tracker, keys))
    (hlook : (tracker.getUsage 0 keys .replies 0).1 = shots) :
    machine.replies d (lostTotal maxShots) = [.reserved result, .shots shots] := by
  simp only [lostTotal, Machine.replies, machine, Deployment.step, hreserve, hlook]

theorem checkReserve_lostTotal (hmax : 10 ^ 14 ≤ cfg.maxShotsPerSession) :
    BudgetTracker.checkReserve (10 ^ 14) cfg.maxShotsPerSession = none := by
  rw [BudgetTracker.checkReserve, if_neg (by decide), if_neg (by omega)]

theorem lostTotal_memory (hmax : 10 ^ 14 ≤ cfg.maxShotsPerSession) :
    machine.replies (fresh cfg false 0) (lostTotal cfg.maxShotsPerSession) =
      [.reserved (.ok (true, 10 ^ 14)), .shots (10 ^ 14)] := by
  let after : BudgetTracker :=
    {(fresh cfg false 0).tracker with inMemoryUsage := Dict.empty.set 0 (10 ^ 14, 0)}
  have hmemory : (fresh cfg false 0).tracker.reserveMemory 0 0 (10 ^ 14) cfg.maxShotsPerSession =
      ((true, 10 ^ 14), after) := reserveMemory_fits hmax
  have hreserve : (fresh cfg false 0).tracker.reserve 0 Dict.empty .replies 0 (10 ^ 14) cfg.maxShotsPerSession =
      (.ok (true, 10 ^ 14), after, Dict.empty) := by
    rw [reserve_memory rfl (checkReserve_lostTotal cfg hmax), hmemory]
  have hyoung : (0 : Time) - 0 < cfg.sessionBudgetTtlSeconds := by
    rw [sub_self]
    exact_mod_cast ttl_pos cfg
  have hkept : (after.evictExpired 0).inMemoryUsage.get? 0 = some (10 ^ 14, 0) :=
    BudgetTracker.evictExpired_young (Dict.get?_set_self _ _ _) hyoung
  have husage : (after.evictExpired 0).usage 0 = 10 ^ 14 := by rw [BudgetTracker.usage, hkept, Option.elim_some]
  have hlook : (after.getUsage 0 Dict.empty .replies 0).1 = 10 ^ 14 := by
    rw [BudgetTracker.getUsage, if_neg (by simp [after, fresh]), BudgetTracker.usageMemory, husage]
  exact replies_lostTotal hreserve hlook

/-- In Redis the total is "1e+14". The look falls back to the empty memory. -/
theorem lostTotal_redis (hmax : 10 ^ 14 ≤ cfg.maxShotsPerSession) :
    machine.replies (fresh cfg true 0) (lostTotal cfg.maxShotsPerSession) =
      [.reserved (.ok (true, 10 ^ 14)), .shots 0] := by
  let key : Key := ⟨tostring (10 ^ 14), some (0 + cfg.sessionBudgetTtlSeconds)⟩
  have hround : roundDouble (10 ^ 14) = 10 ^ 14 := roundDouble_of_lt (by decide)
  have hfits : 10 ^ 14 ≤ roundDouble cfg.maxShotsPerSession.toNat := by
    by_cases hsmall : cfg.maxShotsPerSession.toNat < 2 ^ 53
    · rw [roundDouble_of_lt hsmall]
      omega
    · have hlarge := le_roundDouble (Nat.le_of_not_lt hsmall)
      omega
  have hscript : luaReserve 0 (Keyspace.find Dict.empty 0 0) (10 ^ 14 : Int).toNat cfg.maxShotsPerSession.toNat
      cfg.sessionBudgetTtlSeconds = (some key, true, 10 ^ 14) := by
    have hsum : roundDouble (amount (Keyspace.find Dict.empty 0 0) + roundDouble (10 ^ 14 : Int).toNat) = 10 ^ 14 := by
      show roundDouble (0 + roundDouble (10 ^ 14)) = 10 ^ 14
      rw [hround, Nat.zero_add, hround]
    rw [luaReserve_fits (hsum.trans_le hfits), hsum, if_pos (ttl_pos cfg)]
  have hreserve : (fresh cfg true 0).tracker.reserve 0 Dict.empty .replies 0 (10 ^ 14) cfg.maxShotsPerSession =
      (.ok (true, 10 ^ 14), (fresh cfg true 0).tracker, Keyspace.write Dict.empty 0 (some key)) :=
    reserve_script rfl rfl (checkReserve_lostTotal cfg hmax) hscript
  have hfind : Keyspace.find (Keyspace.write Dict.empty 0 (some key)) 0 0 = some key := by
    have halive : Key.alive 0 key = true := by
      rw [alive_iff, sub_self]
      exact_mod_cast ttl_pos cfg
    rw [Keyspace.find, Keyspace.get?_write, if_pos rfl, Option.filter_some, if_pos halive]
  have htext : BudgetTracker.readInt key.text = none := by
    show BudgetTracker.readInt (tostring (10 ^ 14)) = none
    rw [tostring, if_neg (by decide)]
    rfl
  have hlook : ((fresh cfg true 0).tracker.getUsage 0 (Keyspace.write Dict.empty 0 (some key)) .replies 0).1 = 0 := by
    rw [BudgetTracker.getUsage, if_pos ⟨rfl, rfl⟩]
    simp only [hfind, htext]
    rfl
  exact replies_lostTotal hreserve hlook

theorem lostTotal_differs (hmax : 10 ^ 14 ≤ cfg.maxShotsPerSession) :
    machine.replies (fresh cfg false 0) (lostTotal cfg.maxShotsPerSession) ≠
      machine.replies (fresh cfg true 0) (lostTotal cfg.maxShotsPerSession) := by
  rw [lostTotal_memory cfg hmax, lostTotal_redis cfg hmax]
  simp

theorem lostTotal_meets : machine.Meets (fun call d => inOrder call d ∧ names cfg.maxShotsPerSession call)
    (fresh cfg false 0) (lostTotal cfg.maxShotsPerSession) :=
  ⟨⟨le_refl _, rfl⟩, ⟨le_refl _, trivial⟩, trivial⟩

/-- **The memory path refines the Redis path** on every sequence of calls in the order of
time whose reserves are exact; and on all that name the maximum, just when it is below
10^14. -/
theorem memory_refines_redis :
    (∀ clock calls,
      machine.Meets (fun call d => inOrder call d ∧ exactTotal call d) (fresh cfg false clock) calls →
      machine.replies (fresh cfg false clock) calls = machine.replies (fresh cfg true clock) calls) ∧
    ((∀ clock calls,
      machine.Meets (fun call d => inOrder call d ∧ names cfg.maxShotsPerSession call) (fresh cfg false clock) calls →
      machine.replies (fresh cfg false clock) calls = machine.replies (fresh cfg true clock) calls) ↔
      cfg.maxShotsPerSession < 10 ^ 14) := by
  refine ⟨fun clock calls hmeets => ?_, fun hall => ?_, fun hmax clock calls hmeets => ?_⟩
  · exact (refinement _ (ttl_pos cfg)).replies_eq (related_fresh cfg clock) hmeets
  · by_contra hlarge
    exact lostTotal_differs cfg (Int.not_lt.mp hlarge) (hall 0 _ (lostTotal_meets cfg))
  · exact ((refinement _ (ttl_pos cfg)).ofRule fun call d e hrelated hrule =>
      ⟨hrule.1, exact_of_names cfg hrelated hrule.1 hrule.2 hmax⟩).replies_eq (related_fresh cfg clock) hmeets

end Sequences

/-- A maximum of 10^14 shots, which the settings accept. -/
def largest : Settings := .capped (10 ^ 14) (by decide)

/-- A session that has used all of it has used nothing, as Redis is asked. -/
theorem usage_lost : ∃ calls,
    machine.Meets (fun call d => inOrder call d ∧ names largest.maxShotsPerSession call) (fresh largest false 0) calls ∧
    machine.replies (fresh largest false 0) calls = [.reserved (.ok (true, 10 ^ 14)), .shots (10 ^ 14)] ∧
    machine.replies (fresh largest true 0) calls = [.reserved (.ok (true, 10 ^ 14)), .shots 0] :=
  ⟨lostTotal (10 ^ 14), lostTotal_meets largest, lostTotal_memory largest (le_refl _), lostTotal_redis largest (le_refl _)⟩

end SynQc.Budget.Refinement
