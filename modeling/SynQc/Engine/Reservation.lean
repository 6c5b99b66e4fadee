import SynQc.Budget.Tracker
import SynQc.Engine.Run

/-! What a run takes from the session's budget.

The guardrails reserve the effective shot budget before the provider is asked. Nothing in
the engine or the tracker gives a reservation back, so a run that gets past the guardrails
costs its effective budget however it ends: also where the target is unknown, the provider's
own limit is lower, or the backend raises. A run the guardrails refuse costs nothing
(`usage_after_run`). The tracker is the one in memory, and nothing else uses it meanwhile. -/
namespace SynQc.Engine.Reservation
open Budget

/-- The tracker's readings of `time.time()` during the guardrails. -/
structure Clock where
  look : Time
  reserve : Time

/-- How the two Redis calls of the guardrails end. -/
structure Calls where
  look : RedisCall := .replies
  reserve : RedisCall := .replies

section Run
variable (s : Settings) (keys : Keyspace) (calls : Calls) (clock : Clock) (session : SessionId)
  (req : RunExperimentRequest)

/-- `_apply_shot_guardrails` on a budget tracker. -/
def guardrails (t : BudgetTracker) : Except Exc (Int × Bool) × BudgetTracker × Keyspace :=
  match t.getUsage clock.look keys calls.look session with
  | (usage, t) =>
    match precheck s req usage with
    | .error exc => (.error exc, t, keys)
    | .ok effective =>
      match t.reserve clock.reserve keys calls.reserve session effective.1 s.maxShotsPerSession with
      | (reply, after) => (afterReserve s effective reply, after)

/-- `run_experiment` on a budget tracker. -/
def run (i : RunInputs) (runId : Option RunId) (t : BudgetTracker) :
    Except Exc RunExperimentResponse × BudgetTracker × Keyspace :=
  match guardrails s keys calls clock session req t with
  | (.error exc, after) => (.error exc, after)
  | (.ok effective, after) => (execute s i req runId effective, after)

end Run

/-! ### Usage in memory -/

/-- What the tracker has for a session at some time. -/
def heldAt (t : BudgetTracker) (now : Time) (session : SessionId) : Int := (t.evictExpired now).usage session

theorem getUsage_memory {t : BudgetTracker} (hmem : t.redisUrl = false) (now : Time) (keys : Keyspace) (call : RedisCall)
    (session : SessionId) : t.getUsage now keys call session = (heldAt t now session, t.evictExpired now) := by
  unfold BudgetTracker.getUsage
  rw [if_neg fun h => Bool.false_ne_true (hmem.symm.trans h.1)]
  rfl

theorem heldAt_young {t : BudgetTracker} {now : Time} {session : SessionId} {e : Int × Time}
    (h : t.inMemoryUsage.get? session = some e) (hyoung : now - e.2 < t.sessionTtlSeconds) : heldAt t now session = e.1 := by
  rw [heldAt, BudgetTracker.usage, BudgetTracker.evictExpired_young h hyoung]
  rfl

theorem heldAt_old {t : BudgetTracker} {now : Time} {session : SessionId} {e : Int × Time}
    (h : t.inMemoryUsage.get? session = some e) (hold : ¬now - e.2 < t.sessionTtlSeconds) : heldAt t now session = 0 := by
  rw [heldAt, BudgetTracker.usage, BudgetTracker.evictExpired_get?, h, Option.filter_some,
    if_neg fun hyoung => hold (of_decide_eq_true hyoung)]
  rfl

theorem heldAt_none {t : BudgetTracker} {session : SessionId} (now : Time) (h : t.inMemoryUsage.get? session = none) :
    heldAt t now session = 0 := by
  rw [heldAt, BudgetTracker.usage, BudgetTracker.evictExpired_get?, h]
  rfl

/-- The session's entry does not expire between two readings of the clock. -/
def Steady (t : BudgetTracker) (session : SessionId) (first last : Time) : Prop :=
  ∀ e, t.inMemoryUsage.get? session = some e → first - e.2 < t.sessionTtlSeconds → last - e.2 < t.sessionTtlSeconds

theorem heldAt_steady {t : BudgetTracker} {session : SessionId} {first mid last : Time}
    (h : Steady t session first last) (hfirst : first ≤ mid) (hlast : mid ≤ last) :
    heldAt t mid session = heldAt t first session := by
  cases hget : t.inMemoryUsage.get? session with
  | none => rw [heldAt_none mid hget, heldAt_none first hget]
  | some e =>
    by_cases hyoung : first - e.2 < t.sessionTtlSeconds
    · have hkept := h e hget hyoung
      have hmid : mid - e.2 < t.sessionTtlSeconds := by linarith
      rw [heldAt_young hget hmid, heldAt_young hget hyoung]
    · have hmid : ¬mid - e.2 < t.sessionTtlSeconds := by
        intro hmid
        exact hyoung (by linarith)
      rw [heldAt_old hget hmid, heldAt_old hget hyoung]

/-- Evicting earlier does not change what is there later. -/
theorem heldAt_evictExpired (t : BudgetTracker) {first last : Time} (hle : first ≤ last) (session : SessionId) :
    heldAt (t.evictExpired first) last session = heldAt t last session := by
  have hget := BudgetTracker.evictExpired_get? (t := t) first session
  cases hentry : t.inMemoryUsage.get? session with
  | none =>
    rw [hentry] at hget
    rw [heldAt_none last hentry, heldAt_none last hget]
  | some e =>
    rw [hentry, Option.filter_some] at hget
    by_cases hyoung : last - e.2 < t.sessionTtlSeconds
    · have hfirst : first - e.2 < t.sessionTtlSeconds := by linarith
      rw [if_pos (decide_eq_true hfirst)] at hget
      rw [heldAt_young hentry hyoung, heldAt_young hget hyoung]
    · rw [heldAt_old hentry hyoung]
      split at hget
      · exact heldAt_old hget hyoung
      · exact heldAt_none last hget

/-- A reserve that fits adds the request to what was there. -/
theorem heldAt_reserveMemory {t : BudgetTracker} {now last : Time} {session : SessionId} {requested maxShots : Int}
    (hfits : heldAt t now session + requested ≤ maxShots) (hfresh : last - now < t.sessionTtlSeconds) :
    (t.reserveMemory now session requested maxShots).1.1 = true ∧
      heldAt (t.reserveMemory now session requested maxShots).2 last session = heldAt t now session + requested := by
  obtain ⟨total, htracker, hcase⟩ := t.reserveMemory_total now session requested maxShots
  have hheld : heldAt (t.reserveMemory now session requested maxShots).2 last session = total := by
    rw [htracker]
    exact heldAt_young (e := (total, now)) (Dict.get?_set_self _ _ _) hfresh
  rcases hcase with ⟨haccepted, _, htotal⟩ | ⟨hrefused, _⟩
  · exact ⟨haccepted, hheld.trans htotal⟩
  · have hnot : ¬(t.evictExpired now).usage session + requested > maxShots := not_lt.mpr hfits
    rw [BudgetTracker.reserveMemory, if_neg hnot] at hrefused
    cases hrefused

/-! ### What the guardrails decide -/

/-- The guardrails refuse the request at this usage: more than the session may have or has
left, or no shots at all. -/
def Refused (s : Settings) (req : RunExperimentRequest) (usage : Int) : Prop :=
  requestedShots s req > s.maxShotsPerSession ∨ requestedShots s req > max 0 (s.maxShotsPerSession - usage) ∨
    requestedShots s req ≤ 0

theorem precheck_refused {s : Settings} {req : RunExperimentRequest} {usage : Int} (h : Refused s req usage) :
    ∃ exc, precheck s req usage = .error exc := by
  unfold precheck
  simp only
  by_cases hover : requestedShots s req > s.maxShotsPerSession ∨
      requestedShots s req > max 0 (s.maxShotsPerSession - usage)
  · exact ⟨_, if_pos hover⟩
  · have hnone : requestedShots s req ≤ 0 := by
      rcases h with h | h | h
      · exact absurd (.inl h) hover
      · exact absurd (.inr h) hover
      · exact h
    exact ⟨_, by rw [if_neg hover, if_pos hnone]⟩

theorem precheck_clear {s : Settings} {req : RunExperimentRequest} {usage : Int} (h : ¬Refused s req usage) :
    ∃ warning, precheck s req usage = .ok (effectiveShots s req, warning) := by
  have hover : ¬(requestedShots s req > s.maxShotsPerSession ∨
      requestedShots s req > max 0 (s.maxShotsPerSession - usage)) := by
    rintro (hover | hover)
    · exact h (.inl hover)
    · exact h (.inr (.inl hover))
  have hsome : ¬requestedShots s req ≤ 0 := fun hnone => h (.inr (.inr hnone))
  unfold precheck
  simp only
  rw [if_neg hover, if_neg hsome]
  exact ⟨_, rfl⟩

theorem effectiveShots_bounds {s : Settings} {req : RunExperimentRequest} {usage : Int} (h : ¬Refused s req usage) :
    1 ≤ effectiveShots s req ∧ effectiveShots s req ≤ s.maxShotsPerExperiment ∧
      usage + effectiveShots s req ≤ s.maxShotsPerSession := by
  have hcap := s.experiment_pos
  unfold Refused at h
  unfold effectiveShots
  omega

/-- No reading of the clock during a call lets the session expire. -/
structure NoExpiry (t : BudgetTracker) (session : SessionId) (before : Time) (clock : Clock) (after : Time) : Prop where
  starts : before ≤ clock.look
  reserves : clock.look ≤ clock.reserve
  ends : clock.reserve ≤ after
  steady : Steady t session before after
  fresh : after - clock.reserve < t.sessionTtlSeconds

section Run
variable {s : Settings} {t : BudgetTracker} {keys : Keyspace} {calls : Calls} {clock : Clock}
  {session : SessionId} {req : RunExperimentRequest} {before after : Time}

theorem held_look (hquiet : NoExpiry t session before clock after) :
    heldAt t clock.look session = heldAt t before session :=
  heldAt_steady hquiet.steady hquiet.starts (hquiet.reserves.trans hquiet.ends)

theorem guardrails_refused (hmem : t.redisUrl = false) (hquiet : NoExpiry t session before clock after)
    (h : Refused s req (heldAt t before session)) :
    ∃ exc, guardrails s keys calls clock session req t = (.error exc, t.evictExpired clock.look, keys) := by
  obtain ⟨exc, hexc⟩ := precheck_refused h
  refine ⟨exc, ?_⟩
  simp only [guardrails, getUsage_memory hmem, held_look hquiet, hexc]

/-- Guardrails that do not refuse reserve the effective budget. -/
theorem guardrails_clear (hmem : t.redisUrl = false) (hquiet : NoExpiry t session before clock after)
    (h : ¬Refused s req (heldAt t before session)) :
    ∃ warning tracker, guardrails s keys calls clock session req t = (.ok (effectiveShots s req, warning), tracker, keys) ∧
      tracker.redisUrl = false ∧
      heldAt tracker after session = heldAt t before session + effectiveShots s req := by
  obtain ⟨warning, hwarning⟩ := precheck_clear h
  obtain ⟨hpos, _, hfits⟩ := effectiveShots_bounds h
  have hheld : heldAt (t.evictExpired clock.look) clock.reserve session = heldAt t before session := by
    rw [heldAt_evictExpired t hquiet.reserves]
    exact heldAt_steady hquiet.steady (hquiet.starts.trans hquiet.reserves) hquiet.ends
  have hfits' : heldAt (t.evictExpired clock.look) clock.reserve session + effectiveShots s req ≤ s.maxShotsPerSession := by
    rw [hheld]
    exact hfits
  obtain ⟨haccepted, hafter⟩ := heldAt_reserveMemory hfits' hquiet.fresh
  have hcheck : BudgetTracker.checkReserve (effectiveShots s req) s.maxShotsPerSession = none := by
    have hsession := s.session_pos
    unfold BudgetTracker.checkReserve
    rw [if_neg (by omega), if_neg (by omega)]
  rcases hreserve : (t.evictExpired clock.look).reserve clock.reserve keys calls.reserve session (effectiveShots s req)
    s.maxShotsPerSession with ⟨reply, tracker, keys'⟩
  obtain ⟨hkeys, hreply, htracker⟩ := BudgetTracker.reserve_local (t := t.evictExpired clock.look) hmem hcheck hreserve
  rcases hmemory : (t.evictExpired clock.look).reserveMemory clock.reserve session (effectiveShots s req)
    s.maxShotsPerSession with ⟨⟨accepted, usage⟩, tracker'⟩
  rw [hmemory] at haccepted hreply htracker hafter
  cases haccepted
  refine ⟨warning, tracker, ?_, ?_, ?_⟩
  · simp only [guardrails, getUsage_memory hmem, held_look hquiet, hwarning, hreserve, hreply, afterReserve, hkeys]
  · rw [htracker]
    obtain ⟨total, hshape, _⟩ := (t.evictExpired clock.look).reserveMemory_total clock.reserve session
      (effectiveShots s req) s.maxShotsPerSession
    rw [hmemory] at hshape
    rw [hshape]
    exact hmem
  · rw [htracker, hafter, hheld]

/-- **What a run costs is decided by the guardrails alone.** Refused, it raises and costs nothing;
otherwise it costs its effective budget, whether it returns a run or raises. -/
theorem usage_after_run (hmem : t.redisUrl = false) (hquiet : NoExpiry t session before clock after) (i : RunInputs)
    (runId : Option RunId) (call : RedisCall) :
    let usage := (t.getUsage before keys call session).1
    let result := run s keys calls clock session req i runId t
    let usage' := (result.2.1.getUsage after keys call session).1
    (Refused s req usage → (∃ exc, result.1 = .error exc) ∧ usage' = usage) ∧
      (¬Refused s req usage →
        usage' = usage + effectiveShots s req ∧ 1 ≤ effectiveShots s req ∧ effectiveShots s req ≤ s.maxShotsPerExperiment ∧
          ∀ response, result.1 = .ok response → response.shots.map ShotUsage.requested = some (some (effectiveShots s req))) := by
  simp only [getUsage_memory hmem]
  constructor
  · intro hrefused
    obtain ⟨exc, hguard⟩ : ∃ exc, guardrails s keys calls clock session req t =
        (.error exc, t.evictExpired clock.look, keys) := guardrails_refused hmem hquiet hrefused
    simp only [run, hguard]
    refine ⟨⟨exc, rfl⟩, ?_⟩
    rw [getUsage_memory (t := t.evictExpired clock.look) hmem]
    rw [heldAt_evictExpired t (hquiet.reserves.trans hquiet.ends)]
    have hbefore : before ≤ after := hquiet.starts.trans (hquiet.reserves.trans hquiet.ends)
    exact heldAt_steady hquiet.steady hbefore (le_refl after)
  · intro hclear
    obtain ⟨warning, tracker, hguard, hlocal, hheld⟩ : ∃ warning tracker,
        guardrails s keys calls clock session req t = (.ok (effectiveShots s req, warning), tracker, keys) ∧
          tracker.redisUrl = false ∧ heldAt tracker after session = heldAt t before session + effectiveShots s req :=
      guardrails_clear hmem hquiet hclear
    obtain ⟨hpos, hcap, _⟩ := effectiveShots_bounds hclear
    simp only [run, hguard]
    refine ⟨?_, hpos, hcap, ?_⟩
    · rw [getUsage_memory hlocal]
      exact hheld
    · intro response hresponse
      exact execute_requested hresponse

end Run

/-! ### A run on an unknown target -/

/-- A tracker in memory that has seen nobody. -/
def freshTracker : BudgetTracker := { redisUrl := false, sessionTtlSeconds := 3600, failOpenOnRedisError := false }

def onTarget (target : HardwareTarget) : RunExperimentRequest :=
  { preset := .health, hardwareTarget := target, shotBudget := some 100 }

theorem freshTracker_noExpiry : NoExpiry freshTracker 1 0 ⟨1, 2⟩ 3 := by
  refine ⟨by decide, by decide, by decide, ?_, by decide +kernel⟩
  intro e h
  cases h

/-- What the law asks of a run: a failed one costs nothing, a successful one what it may use. -/
def CostsOnSuccess (s : Settings) (usage usage' : Int) : Except Exc RunExperimentResponse → Prop
  | .error _ => usage' = usage
  | .ok response => ∃ shots, response.shots.map ShotUsage.requested = some (some shots) ∧ 1 ≤ shots ∧
      shots ≤ s.maxShotsPerExperiment ∧ usage' = usage + shots

/-- A run on a target that does not exist raises and costs the session a hundred shots. -/
theorem unknown_target_costs :
    ¬∀ (s : Settings) (t : BudgetTracker) (keys : Keyspace) (calls : Calls) (clock : Clock) (session : SessionId)
      (req : RunExperimentRequest) (i : RunInputs) (runId : Option RunId) (before after : Time) (call : RedisCall),
      t.redisUrl = false → NoExpiry t session before clock after →
        CostsOnSuccess s (t.getUsage before keys call session).1
          ((run s keys calls clock session req i runId t).2.1.getUsage after keys call session).1
          (run s keys calls clock session req i runId t).1 := by
  intro hclaim
  have hcost := hclaim {} freshTracker Dict.empty {} ⟨1, 2⟩ 1 (onTarget (.unknown "nowhere")) (plainInputs none) none 0 3
    .replies rfl freshTracker_noExpiry
  have hraises : (run {} Dict.empty {} ⟨1, 2⟩ 1 (onTarget (.unknown "nowhere")) (plainInputs none) none freshTracker).1 =
      .error (.other "\"Unknown hardware_target 'nowhere'\"") := by rfl
  rw [hraises] at hcost
  have husage : ((run {} Dict.empty {} ⟨1, 2⟩ 1 (onTarget (.unknown "nowhere")) (plainInputs none) none
      freshTracker).2.1.getUsage 3 Dict.empty .replies 1).1 = 100 := by decide +kernel
  have hbefore : (freshTracker.getUsage 0 Dict.empty .replies 1).1 = 0 := by decide +kernel
  rw [CostsOnSuccess, husage, hbefore] at hcost
  cases hcost

/-- The same request costs the same where the run succeeds. -/
theorem usage_after_run_local :
    let usage := (freshTracker.getUsage 0 Dict.empty .replies 1).1
    let result := run {} Dict.empty {} ⟨1, 2⟩ 1 (onTarget .simLocal) (plainInputs none) none freshTracker
    let usage' := (result.2.1.getUsage 3 Dict.empty .replies 1).1
    (Refused {} (onTarget .simLocal) usage → (∃ exc, result.1 = .error exc) ∧ usage' = usage) ∧
      (¬Refused {} (onTarget .simLocal) usage →
        usage' = usage + effectiveShots {} (onTarget .simLocal) ∧ 1 ≤ effectiveShots {} (onTarget .simLocal) ∧
          effectiveShots {} (onTarget .simLocal) ≤ ({} : Settings).maxShotsPerExperiment ∧
          ∀ response, result.1 = .ok response →
            response.shots.map ShotUsage.requested = some (some (effectiveShots {} (onTarget .simLocal)))) :=
  usage_after_run rfl freshTracker_noExpiry (plainInputs none) none .replies

end SynQc.Engine.Reservation
