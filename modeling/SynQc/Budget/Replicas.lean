import SynQc.Budget.Tracker
import SynQc.Library.Transition

/-! Replicas sharing one session key.

Any number of trackers, each with its own TTL, reserve on one session in one Redis and
fail closed. A reserve is three steps: the call checks its arguments, Redis runs the
script, the reply comes back. It can be lost on either side of the script: the call then
raises, and the script may or may not have counted.

A key lives from its first accepted request until it expires; `life` numbers these
lifetimes, and a call belongs to the one its script ran in. The stored total is a quota
of the maximum and covers what the callers of the current lifetime were granted; it may
run ahead of them, since a lost reply is counted and never learned of. -/
namespace SynQc.Budget.Replicas

inductive Phase where
  | sent
  | applied (life : Nat) (accepted : Bool) (usage : Nat)
  | returned (life : Nat) (accepted : Bool) (usage : Nat)
  | raised (exc : Exc)

structure Call where
  requested : Nat
  ttl : Int
  phase : Phase

structure State where
  now : Time
  key : Option Key
  /-- How many session keys have expired before. -/
  life : Nat
  calls : Dict Nat Call

inductive Event where
  | tick (now : Time)
  | reserve (c : Nat) (requested ttl : Int)
  | script (c : Nat)
  | reply (c : Nat)
  /-- The Redis call of `c` raises, before its script or after it. -/
  | lose (c : Nat)

def State.setCall (s : State) (c : Nat) (call : Call) : State := {s with calls := s.calls.set c call}

def tick (t : Time) (s : State) : Option State :=
  if s.now ≤ t then
    if s.key.all (Key.alive t) then some {s with now := t}
    else some {s with now := t, key := none, life := s.life + 1}
  else none

def reserve (maxShots : Nat) (c : Nat) (requested ttl : Int) (s : State) : Option State :=
  match s.calls.get? c with
  | some _ => none
  | none =>
    match BudgetTracker.checkReserve requested maxShots with
    | some exc => some (s.setCall c ⟨requested.toNat, ttl, .raised exc⟩)
    | none => some (s.setCall c ⟨requested.toNat, ttl, .sent⟩)

def script (maxShots : Nat) (c : Nat) (s : State) : Option State :=
  match s.calls.get? c with
  | some ⟨requested, ttl, .sent⟩ =>
    let (key, accepted, usage) := luaReserve s.now s.key requested maxShots ttl
    some ({s with key := key}.setCall c ⟨requested, ttl, .applied s.life accepted usage⟩)
  | _ => none

def reply (c : Nat) (s : State) : Option State :=
  match s.calls.get? c with
  | some ⟨requested, ttl, .applied life accepted usage⟩ =>
    some (s.setCall c ⟨requested, ttl, .returned life accepted usage⟩)
  | _ => none

def lose (c : Nat) (s : State) : Option State :=
  match s.calls.get? c with
  | some ⟨requested, ttl, .sent⟩
  | some ⟨requested, ttl, .applied _ _ _⟩ =>
    some (s.setCall c ⟨requested, ttl, .raised BudgetTracker.unavailable⟩)
  | _ => none

/-- The trackers of one Redis, reserving on one session with one maximum. -/
def replicas (maxShots : Nat) : Transition.System State Event where
  init s := s.key = none ∧ s.life = 0 ∧ s.calls = Dict.empty
  step
    | .tick t => tick t
    | .reserve c requested ttl => reserve maxShots c requested ttl
    | .script c => script maxShots c
    | .reply c => reply c
    | .lose c => lose c

/-- What a script step does: the key and the call's reply come from one run of the script. -/
theorem script_some {maxShots c : Nat} {s t : State} (h : script maxShots c s = some t) :
    ∃ requested ttl, s.calls.get? c = some ⟨requested, ttl, .sent⟩ ∧
      t = {s with key := (luaReserve s.now s.key requested maxShots ttl).1}.setCall c
        ⟨requested, ttl, .applied s.life (luaReserve s.now s.key requested maxShots ttl).2.1
          (luaReserve s.now s.key requested maxShots ttl).2.2⟩ := by
  unfold script at h
  split at h
  · rename_i requested ttl hc
    exact ⟨requested, ttl, hc, (Option.some.inj h).symm⟩
  · cases h

/-- Only an expiry and a script change the key. -/
theorem step_key {maxShots : Nat} {e : Event} {s t : State} (hstep : (replicas maxShots).step e s = some t) :
    t.key = s.key ∨ (∃ now, e = .tick now ∧ t.key = none) ∨ ∃ c, e = .script c := by
  cases e with
  | tick now =>
    change tick now s = some t at hstep
    unfold tick at hstep
    split at hstep
    · split at hstep <;> cases hstep
      · exact .inl rfl
      · exact .inr (.inl ⟨now, rfl, rfl⟩)
    · cases hstep
  | reserve c requested ttl =>
    change reserve maxShots c requested ttl s = some t at hstep
    unfold reserve at hstep
    split at hstep
    · cases hstep
    · split at hstep <;> cases hstep <;> exact .inl rfl
  | script c => exact .inr (.inr ⟨c, rfl⟩)
  | reply c =>
    change reply c s = some t at hstep
    unfold reply at hstep
    split at hstep <;> cases hstep
    exact .inl rfl
  | lose c =>
    change lose c s = some t at hstep
    unfold lose at hstep
    split at hstep <;> cases hstep <;> exact .inl rfl

/-! ### Grants -/

/-- What a call that returned `accepted=True` was granted in a lifetime. -/
def Call.granted (life : Nat) (call : Call) : Nat :=
  match call.phase with
  | .returned l true _ => if l = life then call.requested else 0
  | _ => 0

/-- What its script counted, whether or not the reply has arrived. -/
def Call.counted (life : Nat) (call : Call) : Nat :=
  match call.phase with
  | .applied l true _ | .returned l true _ => if l = life then call.requested else 0
  | _ => 0

/-- The sum of `requested` over the calls of a lifetime that returned accepted=True. -/
def State.granted (s : State) (life : Nat) : Nat := s.calls.total fun _ call => call.granted life

def State.counted (s : State) (life : Nat) : Nat := s.calls.total fun _ call => call.counted life

/-- Whether the script of `c` ran and refused. -/
def State.rejected (s : State) (c : Nat) : Prop :=
  ∃ requested ttl life usage, s.calls.get? c = some ⟨requested, ttl, .applied life false usage⟩

/-- Totals stay below 10^14. -/
def Below (maxShots : Nat) : Event → State → Prop :=
  fun e s => ∀ t, (replicas maxShots).step e s = some t → amount t.key < 10 ^ 14

theorem granted_le_counted (s : State) (life : Nat) : s.granted life ≤ s.counted life := by
  apply List.sum_le_sum
  rintro ⟨c, requested, ttl, phase⟩ _
  cases phase with
  | sent | raised => exact Nat.le_refl _
  | applied => exact Nat.zero_le _
  | returned _ accepted => cases accepted <;> exact Nat.le_refl _

/-! ### The invariant -/

/-- The stored total is within the maximum and covers the grants of its lifetime; earlier
lifetimes stayed within the maximum, and later ones have no grants yet. -/
structure Kept (maxShots : Nat) (s : State) : Prop where
  covered : ∃ q : Quota maxShots, q.used = amount s.key ∧ q.Covered (s.counted s.life)
  past : ∀ life < s.life, s.counted life ≤ maxShots
  future : ∀ life, s.life < life → s.counted life = 0

theorem Kept.within {maxShots : Nat} {s : State} (h : Kept maxShots s) (life : Nat) :
    s.counted life ≤ maxShots := by
  rcases Nat.lt_trichotomy life s.life with hl | rfl | hl
  · exact h.past life hl
  · obtain ⟨q, _, hq⟩ := h.covered
    exact hq.within
  · rw [h.future life hl]
    exact Nat.zero_le _

theorem counted_set {s : State} {c : Nat} {old : Call} (h : s.calls.get? c = some old) (call : Call)
    (life : Nat) : (s.setCall c call).counted life + old.counted life = s.counted life + call.counted life :=
  Dict.total_set_some h _ call

theorem counted_new {s : State} {c : Nat} (h : s.calls.get? c = none) (call : Call) (life : Nat) :
    (s.setCall c call).counted life = s.counted life + call.counted life :=
  Dict.total_set_none h _ call

/-- A step that leaves the key alone and counts nothing new keeps the invariant. -/
theorem Kept.settle {maxShots : Nat} {s t : State} (h : Kept maxShots s) (hkey : t.key = s.key)
    (hlife : t.life = s.life) (hle : ∀ life, t.counted life ≤ s.counted life) : Kept maxShots t := by
  refine ⟨?_, fun life hl => (hle life).trans (h.past life (hlife ▸ hl)), fun life hl => ?_⟩
  · obtain ⟨q, hused, hq⟩ := h.covered
    exact ⟨q, hkey ▸ hused, hlife ▸ (hle s.life).trans hq⟩
  · have := hle life
    rw [h.future life (hlife ▸ hl)] at this
    exact Nat.le_zero.mp this

theorem kept_init {maxShots : Nat} {s : State} (h : (replicas maxShots).init s) : Kept maxShots s := by
  obtain ⟨hkey, hlife, hcalls⟩ := h
  have hzero : ∀ life, s.counted life = 0 := by
    intro life
    rw [State.counted, hcalls, Dict.total_empty]
  refine ⟨⟨⟨0, Nat.zero_le _⟩, by rw [hkey]; rfl, (hzero _).le⟩, fun life _ => ?_, fun life _ => hzero life⟩
  rw [hzero]
  exact Nat.zero_le _

theorem kept_tick {maxShots : Nat} {s u : State} {t : Time} (h : Kept maxShots s)
    (hstep : tick t s = some u) : Kept maxShots u := by
  unfold tick at hstep
  split at hstep
  · split at hstep
    · cases hstep
      exact h.settle rfl rfl fun _ => Nat.le_refl _
    · -- the key expires, and a new lifetime starts with nothing used
      cases hstep
      refine ⟨⟨⟨0, Nat.zero_le _⟩, rfl, (h.future _ (Nat.lt_succ_self _)).le⟩, fun life _ => h.within life,
        fun life hl => h.future life ?_⟩
      exact Nat.lt_of_succ_lt hl
  · cases hstep

theorem kept_reserve {maxShots : Nat} {s t : State} {c : Nat} {requested ttl : Int}
    (h : Kept maxShots s) (hstep : reserve maxShots c requested ttl s = some t) : Kept maxShots t := by
  unfold reserve at hstep
  split at hstep
  · cases hstep
  · rename_i hc
    split at hstep <;> cases hstep <;>
      exact h.settle rfl rfl fun life => (counted_new hc _ life).le

theorem kept_script {maxShots : Nat} {s t : State} {c : Nat} (h : Kept maxShots s)
    (hbelow : amount t.key < 10 ^ 14) (hstep : script maxShots c s = some t) : Kept maxShots t := by
  obtain ⟨requested, ttl, hc, rfl⟩ := script_some hstep
  generalize hlua : luaReserve s.now s.key requested maxShots ttl = lua at hbelow ⊢
  -- the script counts the request once, in the current lifetime, when it accepts
  have hcount : ∀ life, ({s with key := lua.1}.setCall c
      ⟨requested, ttl, .applied s.life lua.2.1 lua.2.2⟩ : State).counted life =
      s.counted life + if lua.2.1 = true ∧ s.life = life then requested else 0 := by
    intro life
    have hset := counted_set (s := {s with key := lua.1}) hc
      ⟨requested, ttl, .applied s.life lua.2.1 lua.2.2⟩ life
    rw [show Call.counted life ⟨requested, ttl, .sent⟩ = 0 from rfl, Nat.add_zero] at hset
    rw [hset]
    cases lua.2.1 <;> simp [Call.counted, State.counted]
  refine ⟨?_, fun life hl => ?_, fun life hl => ?_⟩
  · obtain ⟨q, hused, hq⟩ := h.covered
    show ∃ r : Quota maxShots, r.used = amount lua.1 ∧ r.Covered (State.counted _ s.life)
    rw [hcount]
    cases hacc : lua.2.1 with
    | true =>
      subst hlua
      obtain ⟨r, htake, hr⟩ := luaReserve_take hacc hbelow q hused
      refine ⟨r, hr, ?_⟩
      simpa using hq.take htake
    | false =>
      subst hlua
      refine ⟨q, hused.trans (luaReserve_refused hacc).symm, ?_⟩
      simpa using hq
  · rw [hcount, if_neg fun hl' => Nat.ne_of_gt hl hl'.2]
    exact h.past life hl
  · rw [hcount, if_neg fun hl' => Nat.ne_of_lt hl hl'.2]
    exact h.future life hl

theorem kept_reply {maxShots : Nat} {s t : State} {c : Nat} (h : Kept maxShots s)
    (hstep : reply c s = some t) : Kept maxShots t := by
  unfold reply at hstep
  split at hstep
  · rename_i requested ttl life accepted usage hc
    cases hstep
    refine h.settle rfl rfl fun l => ?_
    have hset := counted_set hc ⟨requested, ttl, .returned life accepted usage⟩ l
    have hsame : Call.counted l ⟨requested, ttl, .returned life accepted usage⟩ =
        Call.counted l ⟨requested, ttl, .applied life accepted usage⟩ := by
      cases accepted <;> rfl
    rw [hsame] at hset
    exact (Nat.add_right_cancel hset).le
  · cases hstep

theorem kept_lose {maxShots : Nat} {s t : State} {c : Nat} (h : Kept maxShots s)
    (hstep : lose c s = some t) : Kept maxShots t := by
  unfold lose at hstep
  split at hstep
  · rename_i requested ttl hc
    cases hstep
    exact h.settle rfl rfl fun life => (Nat.le_add_right _ _).trans (counted_set hc _ life).le
  · rename_i requested ttl _ _ _ hc
    cases hstep
    exact h.settle rfl rfl fun life => (Nat.le_add_right _ _).trans (counted_set hc _ life).le
  · cases hstep

theorem kept_step {maxShots : Nat} (e : Event) (s t : State) (h : Kept maxShots s)
    (hrule : Below maxShots e s) (hstep : (replicas maxShots).step e s = some t) : Kept maxShots t := by
  cases e with
  | tick => exact kept_tick h hstep
  | reserve => exact kept_reserve h hstep
  | script => exact kept_script h (hrule t hstep) hstep
  | reply => exact kept_reply h hstep
  | lose => exact kept_lose h hstep

theorem kept_reachable {maxShots : Nat} {s : State}
    (h : (replicas maxShots).Reachable (Below maxShots) s) : Kept maxShots s :=
  Transition.System.reachable_invariant (fun _ => kept_init) kept_step h

/-- With a maximum below 10^14 every total stays below it, on every run. -/
theorem below_reachable {maxShots : Nat} (hmax : maxShots < 10 ^ 14) {s : State}
    (h : (replicas maxShots).Reachable Transition.anything s) :
    (replicas maxShots).Reachable (Below maxShots) s := by
  have hstep : ∀ (e : Event) (s t : State), amount s.key < 10 ^ 14 →
      (replicas maxShots).step e s = some t → amount t.key < 10 ^ 14 := by
    intro e s t hs hstep
    rcases step_key hstep with hsame | ⟨now, _, hnone⟩ | ⟨c, rfl⟩
    · rw [hsame]
      exact hs
    · rw [hnone]
      exact Nat.pow_pos (by decide)
    · obtain ⟨requested, ttl, _, rfl⟩ := script_some hstep
      exact luaReserve_below hmax hs
  refine h.strengthen (fun s hs => ?_) (fun e s t hs _ => hstep e s t hs) fun e s hs t => hstep e s t hs
  rw [hs.1]
  decide

/-! ### No overspend -/

/-- A script that refuses leaves the stored total as it was. -/
theorem script_refused {maxShots : Nat} {s t : State} {c : Nat} (hstep : script maxShots c s = some t)
    (hrej : t.rejected c) : amount t.key = amount s.key := by
  obtain ⟨requested, ttl, _, rfl⟩ := script_some hstep
  obtain ⟨_, _, _, _, hget⟩ := hrej
  rw [State.setCall, Dict.get?_set_self] at hget
  simp only [Option.some.injEq, Call.mk.injEq, Phase.applied.injEq] at hget
  exact luaReserve_refused hget.2.2.2.1

/-- Short of an expiry, only an accepting script moves the stored total. -/
theorem total_unchanged {maxShots : Nat} {e : Event} {s t : State}
    (hstep : (replicas maxShots).step e s = some t) (htick : ∀ now, e ≠ .tick now)
    (hrej : ∀ c, e = .script c → t.rejected c) : amount t.key = amount s.key := by
  rcases step_key hstep with hsame | ⟨now, he, _⟩ | ⟨c, rfl⟩
  · rw [hsame]
  · exact absurd he (htick now)
  · exact script_refused hstep (hrej c rfl)

/-- **However reserves interleave and whichever replies are lost, the accepted requests of
one lifetime of the key stay within the maximum, and so does the stored total; a step of a
call that is not accepted leaves the total alone.** -/
theorem no_overspend (maxShots : Nat) {s : State}
    (h : (replicas maxShots).Reachable (Below maxShots) s) :
    (∀ life, s.granted life ≤ maxShots) ∧ amount s.key ≤ maxShots ∧
      ∀ e t, (replicas maxShots).step e s = some t → (∀ now, e ≠ .tick now) →
        (∀ c, e = .script c → t.rejected c) → amount t.key = amount s.key := by
  have hkept := kept_reachable h
  obtain ⟨q, hused, _⟩ := hkept.covered
  exact ⟨fun life => (granted_le_counted s life).trans (hkept.within life), hused ▸ q.within,
    fun _ _ hstep htick hrej => total_unchanged hstep htick hrej⟩

/-- Two callers ask for three of five; one is refused, and the reply of the other is lost
after the script counted it. -/
def lostRace : List Event :=
  [.reserve 0 3 60, .reserve 1 3 60, .script 1, .script 0, .reply 0, .lose 1]

def emptyRedis : State := ⟨0, none, 0, Dict.empty⟩

theorem no_overspend_lostRace :
    ∃ s, (replicas 5).run emptyRedis lostRace = some s ∧ s.granted 0 ≤ 5 ∧ amount s.key ≤ 5 := by
  have hsome : ((replicas 5).run emptyRedis lostRace).isSome := by decide +kernel
  obtain ⟨s, hs⟩ := Option.isSome_iff_exists.mp hsome
  obtain ⟨hgranted, hstored, _⟩ := no_overspend 5 (below_reachable (by decide)
    (Transition.System.run_reachable ⟨rfl, rfl, rfl⟩ hs))
  exact ⟨s, hs, hgranted 0, hstored⟩

/-! ### A call on its own -/

/-- Undisturbed, the three steps of a call are `BudgetTracker.reserve` on the session's key. -/
theorem reserve_alone (t : BudgetTracker) (hredis : t.redisUrl = true) (keys : Keyspace)
    (session : SessionId) (s : State) (hkey : keys.find s.now session = s.key) (c : Nat)
    (hc : s.calls.get? c = none) (maxShots : Nat) (requested : Int)
    (hcheck : BudgetTracker.checkReserve requested maxShots = none) :
    ∃ u accepted usage,
      (replicas maxShots).run s [.reserve c requested t.sessionTtlSeconds, .script c, .reply c] = some u ∧
      u.calls.get? c = some ⟨requested.toNat, t.sessionTtlSeconds, .returned s.life accepted usage⟩ ∧
      t.reserve s.now keys .replies session requested maxShots =
        (.ok (accepted, (usage : Int)), t, keys.write session u.key) := by
  generalize hlua : luaReserve s.now s.key requested.toNat maxShots t.sessionTtlSeconds = lua
  obtain ⟨key, accepted, usage⟩ := lua
  let call : Phase → Call := fun phase => ⟨requested.toNat, t.sessionTtlSeconds, phase⟩
  let sent := s.setCall c (call .sent)
  let applied := {sent with key := key}.setCall c (call (.applied s.life accepted usage))
  let returned := applied.setCall c (call (.returned s.life accepted usage))
  have hsent : reserve maxShots c requested t.sessionTtlSeconds s = some sent := by
    simp only [reserve, hc, hcheck, sent, call]
  have happlied : script maxShots c sent = some applied := by
    simp only [script, sent, applied, call, State.setCall, Dict.get?_set_self, hlua]
  have hreturned : reply c applied = some returned := by
    simp only [reply, applied, returned, call, State.setCall, Dict.get?_set_self]
  refine ⟨returned, accepted, usage, ?_, Dict.get?_set_self _ _ _, ?_⟩
  · simp only [Transition.System.run, replicas, hsent, happlied, hreturned, Option.bind_some]
  · simp only [BudgetTracker.reserve, hcheck, hredis, if_true, hkey, Int.toNat_natCast, hlua]
    rfl

end SynQc.Budget.Replicas
