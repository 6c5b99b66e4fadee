import Mathlib.Data.Finset.Dedup
import Mathlib.Data.Finset.Order
import Mathlib.Data.List.Induction
import Mathlib.Data.Rat.Floor
import SynQc.Library.SlidingWindow
import SynQc.Models

/-! The rate limit in front of the agent chat.

Each session has a queue of the times its calls were accepted at. The limit is exact: no
interval of the window's length has more accepted calls of a session than the limit, a call
is rejected only where it would be one too many, and sessions do not meet
(`limit_exact`). A rejected call is told how many whole seconds to wait; that is rounded
down, and a call at the end of the window is still in it, so the wait is long enough only
where the oldest call has less than a second to go (`retry_honoured_iff`). -/
namespace SynQc.Chat
open SlidingWindow

/-! ### The limiter -/

/-- The settings of the agent chat, with the bounds the settings class enforces. -/
structure ChatSettings where
  agentChatLimitRequests : Nat := 10
  agentChatLimitWindowSeconds : Nat := 60
  requests_pos : 1 ≤ agentChatLimitRequests := by decide
  window_pos : 1 ≤ agentChatLimitWindowSeconds := by decide

/-- The `HTTPException` of a rejected call. -/
structure RateLimited where
  status : Nat := 429
  errorCode : ErrorCode := .rateLimited
  errorMessage : String := "Agent chat rate limit reached."
  retryAfterSeconds : Int
  limit : Nat
  windowSeconds : Nat
  actionHint : String
  /-- The `Retry-After` header. -/
  retryAfter : String
  deriving DecidableEq, Repr

/-- `int(x)` -/
def truncated (x : ℚ) : Int := if 0 ≤ x then ⌊x⌋ else ⌈x⌉

def rateLimited (settings : ChatSettings) (oldest now : Time) : RateLimited :=
  let retryAfter := max 1 (truncated (oldest + settings.agentChatLimitWindowSeconds - now))
  {
    retryAfterSeconds := retryAfter
    limit := settings.agentChatLimitRequests
    windowSeconds := settings.agentChatLimitWindowSeconds
    actionHint := "Wait " ++ toString retryAfter ++ " seconds before retrying."
    retryAfter := toString retryAfter }

abbrev ChatWindows := Dict String (List Time)

/-- `chat_rate_windows[session_id]` of a `defaultdict(deque)`. -/
def ChatWindows.of (windows : ChatWindows) (sessionId : String) : List Time := (windows.get? sessionId).getD []

/-- A call of the chat: its session and the reading of the clock. -/
structure Call where
  sessionId : String
  now : Time

def enforceChatRateLimit (settings : ChatSettings) (call : Call) (windows : ChatWindows) :
    Except RateLimited Unit × ChatWindows :=
  let window := prune (call.now - settings.agentChatLimitWindowSeconds) (windows.of call.sessionId)
  if window.length ≥ settings.agentChatLimitRequests then
    (.error (rateLimited settings (window.headD 0) call.now), windows.set call.sessionId window)
  else (.ok (), windows.set call.sessionId (window ++ [call.now]))

/-! ### Runs -/

section
variable {settings : ChatSettings}

/-- The queues after some calls. -/
def after (settings : ChatSettings) : ChatWindows → List Call → ChatWindows
  | windows, [] => windows
  | windows, call :: rest => after settings (enforceChatRateLimit settings call windows).2 rest

/-- Each call with what came of it. -/
def outcomes (settings : ChatSettings) : ChatWindows → List Call → List (Call × Except RateLimited Unit)
  | _, [] => []
  | windows, call :: rest =>
    (call, (enforceChatRateLimit settings call windows).1) ::
      outcomes settings (enforceChatRateLimit settings call windows).2 rest

/-- The times at which calls of a session were accepted. -/
def accepted (sessionId : String) (results : List (Call × Except RateLimited Unit)) : List Time :=
  (results.filter fun r => r.1.sessionId = sessionId ∧ r.2.toBool).map fun r => r.1.now

theorem after_append (windows : ChatWindows) (earlier later : List Call) :
    after settings windows (earlier ++ later) = after settings (after settings windows earlier) later := by
  induction earlier generalizing windows with
  | nil => rfl
  | cons call rest ih => exact ih _

theorem outcomes_append (windows : ChatWindows) (earlier later : List Call) :
    outcomes settings windows (earlier ++ later) =
      outcomes settings windows earlier ++ outcomes settings (after settings windows earlier) later := by
  induction earlier generalizing windows with
  | nil => rfl
  | cons call rest ih => exact congrArg (_ :: ·) (ih _)

theorem accepted_append (sessionId : String) (earlier later : List (Call × Except RateLimited Unit)) :
    accepted sessionId (earlier ++ later) = accepted sessionId earlier ++ accepted sessionId later := by
  rw [accepted, List.filter_append, List.map_append]
  rfl

/-! ### Sessions apart -/

theorem of_set_self (windows : ChatWindows) (sessionId : String) (window : List Time) :
    ChatWindows.of (windows.set sessionId window) sessionId = window := by
  rw [ChatWindows.of, Dict.get?_set_self]
  rfl

/-- A call touches the queue of its session only. -/
theorem enforce_of_ne {call : Call} {sessionId : String} (h : call.sessionId ≠ sessionId) (windows : ChatWindows) :
    (enforceChatRateLimit settings call windows).2.of sessionId = windows.of sessionId := by
  have hset : ∀ window, ChatWindows.of (windows.set call.sessionId window) sessionId = windows.of sessionId := by
    intro window
    rw [ChatWindows.of, Dict.get?_set_ne _ _ h]
    rfl
  simp only [enforceChatRateLimit]
  split
  · exact hset _
  · exact hset _

/-- What comes of a call, and of its queue, depends on its queue only. -/
theorem enforce_congr (settings : ChatSettings) {call : Call} {windows windows' : ChatWindows}
    (h : windows.of call.sessionId = windows'.of call.sessionId) :
    (enforceChatRateLimit settings call windows).1 = (enforceChatRateLimit settings call windows').1 ∧
      (enforceChatRateLimit settings call windows).2.of call.sessionId =
        (enforceChatRateLimit settings call windows').2.of call.sessionId := by
  simp only [enforceChatRateLimit, h]
  split
  · exact ⟨rfl, by rw [of_set_self, of_set_self]⟩
  · exact ⟨rfl, by rw [of_set_self, of_set_self]⟩

/-- What comes of the calls of a session does not depend on the others. -/
theorem outcomes_filter (sessionId : String) (calls : List Call) {windows windows' : ChatWindows}
    (h : windows.of sessionId = windows'.of sessionId) :
    (outcomes settings windows calls).filter (fun r => r.1.sessionId = sessionId) =
      outcomes settings windows' (calls.filter fun call => call.sessionId = sessionId) := by
  induction calls generalizing windows windows' with
  | nil => rfl
  | cons call rest ih =>
    rw [outcomes]
    by_cases hsession : call.sessionId = sessionId
    · subst hsession
      obtain ⟨houtcome, hqueue⟩ := enforce_congr settings h
      rw [List.filter_cons_of_pos (by simp), List.filter_cons_of_pos (by simp), outcomes, ih hqueue, houtcome]
    · rw [List.filter_cons_of_neg (by simpa using hsession), List.filter_cons_of_neg (by simpa using hsession)]
      exact ih ((enforce_of_ne hsession windows).trans h)

/-! ### The limit -/

theorem accepted_singleton_of_ne {call : Call} {sessionId : String} (h : call.sessionId ≠ sessionId)
    (outcome : Except RateLimited Unit) : accepted sessionId [(call, outcome)] = [] := by
  rw [accepted, List.filter_cons_of_neg (by simp [h]), List.filter_nil, List.map_nil]

theorem accepted_ok (call : Call) : accepted call.sessionId [(call, .ok ())] = [call.now] := by
  rw [accepted, List.filter_cons_of_pos (by simp [Except.toBool]), List.filter_nil, List.map_cons, List.map_nil]

theorem accepted_error (call : Call) (e : RateLimited) : accepted call.sessionId [(call, .error e)] = [] := by
  rw [accepted, List.filter_cons_of_neg (by simp [Except.toBool]), List.filter_nil, List.map_nil]

/-- A call keeps each queue. -/
theorem kept_step {sessionId : String} {times : List Time} {call : Call} {windows : ChatWindows}
    (h : Kept (settings.agentChatLimitWindowSeconds : ℚ) settings.agentChatLimitRequests times call.now
      (windows.of sessionId)) :
    Kept (settings.agentChatLimitWindowSeconds : ℚ) settings.agentChatLimitRequests
      (times ++ accepted sessionId [(call, (enforceChatRateLimit settings call windows).1)]) call.now
      ((enforceChatRateLimit settings call windows).2.of sessionId) := by
  by_cases hsession : call.sessionId = sessionId
  · subst hsession
    simp only [enforceChatRateLimit]
    split
    · rw [accepted_error, List.append_nil, of_set_self]
      exact h.pruned
    · next hroom =>
      rw [accepted_ok, of_set_self]
      exact h.accept (Nat.cast_nonneg _) (Nat.not_le.mp hroom)
  · rw [accepted_singleton_of_ne hsession, List.append_nil, enforce_of_ne hsession]
    exact h

theorem kept_after (settings : ChatSettings) (sessionId : String) {calls : List Call}
    (hclock : calls.Pairwise fun a b => a.now ≤ b.now) {now : Time} (hnow : ∀ call ∈ calls, call.now ≤ now) :
    Kept (settings.agentChatLimitWindowSeconds : ℚ) settings.agentChatLimitRequests
      (accepted sessionId (outcomes settings Dict.empty calls)) now ((after settings Dict.empty calls).of sessionId) := by
  induction calls using List.reverseRecOn generalizing now with
  | nil => exact kept_nil _ _ _
  | append_singleton earlier call ih =>
    obtain ⟨hearlier, -, hlast⟩ := List.pairwise_append.mp hclock
    rw [outcomes_append, after_append, accepted_append]
    refine (kept_step ?_).mono (hnow call (List.mem_append_right _ List.mem_cons_self))
    exact ih hearlier fun other hother => hlast other hother call List.mem_cons_self

/-- What a rejected call finds. -/
theorem rejected_spec {call : Call} {windows : ChatWindows} {e : RateLimited}
    (h : (enforceChatRateLimit settings call windows).1 = .error e) :
    let window := prune (call.now - settings.agentChatLimitWindowSeconds) (windows.of call.sessionId)
    ¬window.length < settings.agentChatLimitRequests ∧ e = rateLimited settings (window.headD 0) call.now ∧
      (enforceChatRateLimit settings call windows).2.of call.sessionId = window := by
  simp only [enforceChatRateLimit] at h ⊢
  split at h
  · next hfull =>
    cases h
    rw [if_pos hfull, of_set_self]
    exact ⟨Nat.not_lt.mpr hfull, rfl, rfl⟩
  · cases h

theorem accepted_iff (call : Call) (windows : ChatWindows) :
    (enforceChatRateLimit settings call windows).1 = .ok () ↔
      (prune (call.now - settings.agentChatLimitWindowSeconds) (windows.of call.sessionId)).length <
        settings.agentChatLimitRequests := by
  simp only [enforceChatRateLimit]
  split
  · next hfull => simpa using hfull
  · next hroom => simpa using hroom

/-- **The limit is exact.** No interval of the window's length has more accepted calls of a
session than the limit; a call is rejected only where the window up to it has as many; and what
comes of the calls of a session is what came of them without the others. -/
theorem limit_exact (settings : ChatSettings) (sessionId : String) {calls : List Call}
    (hclock : calls.Pairwise fun a b => a.now ≤ b.now) :
    (∀ a : Time, within a (a + settings.agentChatLimitWindowSeconds)
        (accepted sessionId (outcomes settings Dict.empty calls)) ≤ settings.agentChatLimitRequests) ∧
      (∀ earlier call later e, calls = earlier ++ call :: later → call.sessionId = sessionId →
        (enforceChatRateLimit settings call (after settings Dict.empty earlier)).1 = .error e →
        within (call.now - settings.agentChatLimitWindowSeconds) call.now
          (accepted sessionId (outcomes settings Dict.empty earlier)) = settings.agentChatLimitRequests) ∧
      (outcomes settings Dict.empty calls).filter (fun r => r.1.sessionId = sessionId) =
        outcomes settings Dict.empty (calls.filter fun call => call.sessionId = sessionId) := by
  refine ⟨?_, ?_, outcomes_filter sessionId calls rfl⟩
  · obtain ⟨now, hnow⟩ : ∃ now, ∀ call ∈ calls, call.now ≤ now := by
      obtain ⟨now, hnow⟩ := Finset.exists_le (calls.map Call.now).toFinset
      exact ⟨now, fun call hcall => hnow _ (List.mem_toFinset.mpr (List.mem_map_of_mem hcall))⟩
    exact (kept_after settings sessionId hclock hnow).bounded
  · rintro earlier call later e rfl rfl hrejected
    obtain ⟨hearlier, -, hlater⟩ := List.pairwise_append.mp hclock
    have hkept := kept_after settings call.sessionId hearlier
      fun other hother => hlater other hother call List.mem_cons_self
    exact hkept.full (rejected_spec hrejected).1

theorem limit_exact_three :
    within 0 (0 + ((60 : Nat) : Time))
        (accepted "a" (outcomes { agentChatLimitRequests := 1 } Dict.empty [⟨"a", 0⟩, ⟨"b", 5⟩, ⟨"a", 60⟩])) ≤ 1 ∧
      (outcomes { agentChatLimitRequests := 1 } Dict.empty [⟨"a", 0⟩, ⟨"b", 5⟩, ⟨"a", 60⟩]).filter
          (fun r => r.1.sessionId = "a") =
        outcomes { agentChatLimitRequests := 1 } Dict.empty [⟨"a", 0⟩, ⟨"a", 60⟩] := by
  have hclock : ([⟨"a", 0⟩, ⟨"b", 5⟩, ⟨"a", 60⟩] : List Call).Pairwise fun a b => a.now ≤ b.now := by decide +kernel
  obtain ⟨hbounded, -, happart⟩ := limit_exact { agentChatLimitRequests := 1 } "a" hclock
  exact ⟨hbounded 0, happart⟩

/-! ### The advertised wait -/

theorem after_of_others {sessionId : String} {others : List Call} (h : ∀ other ∈ others, other.sessionId ≠ sessionId)
    (windows : ChatWindows) : (after settings windows others).of sessionId = windows.of sessionId := by
  induction others generalizing windows with
  | nil => rfl
  | cons other rest ih =>
    rw [after, ih fun o ho => h o (List.mem_cons_of_mem _ ho), enforce_of_ne (h other List.mem_cons_self)]

/-- A call that is still in the window leaves it within the advertised wait exactly if it had less
than a second to go. -/
theorem leaves_within_wait {times : List Time} {now a : Time} (hsorted : times.Pairwise (· ≤ ·))
    (hin : ∀ b ∈ times, now - settings.agentChatLimitWindowSeconds ≤ b) (ha : a ∈ times) :
    a < now + (rateLimited settings (times.headD 0) now).retryAfterSeconds - settings.agentChatLimitWindowSeconds →
      a < now - settings.agentChatLimitWindowSeconds + 1 := by
  obtain ⟨oldest, rest, rfl⟩ := List.exists_cons_of_ne_nil (List.ne_nil_of_mem ha)
  have holdest : oldest ≤ a := by
    rcases List.mem_cons.mp ha with rfl | ha
    · exact le_refl _
    · exact (List.pairwise_cons.mp hsorted).1 a ha
  have hwait : 0 ≤ oldest + settings.agentChatLimitWindowSeconds - now := by
    have := hin oldest List.mem_cons_self
    linarith
  intro hleaves
  rw [List.headD_cons, rateLimited, truncated, if_pos hwait] at hleaves
  have hfloor := Int.floor_le (oldest + settings.agentChatLimitWindowSeconds - now)
  rcases le_total ⌊oldest + settings.agentChatLimitWindowSeconds - now⌋ 1 with hle | hle
  · rw [max_eq_left hle, Int.cast_one] at hleaves
    linarith
  · rw [max_eq_right hle] at hleaves
    linarith

theorem one_le_retryAfter (settings : ChatSettings) (oldest now : Time) :
    (1 : ℚ) ≤ (rateLimited settings oldest now).retryAfterSeconds := by
  have hle : (1 : Int) ≤ (rateLimited settings oldest now).retryAfterSeconds := le_max_left _ _
  exact_mod_cast hle

/-- **A call that waits as told is accepted exactly when the oldest accepted call in the window of
the rejected one had less than a second to go.** -/
theorem retry_honoured_iff (settings : ChatSettings) {history others : List Call} {call : Call} {e : RateLimited}
    (hclock : (history ++ [call]).Pairwise fun a b => a.now ≤ b.now)
    (hothers : ∀ other ∈ others, other.sessionId ≠ call.sessionId)
    (hrejected : (enforceChatRateLimit settings call (after settings Dict.empty history)).1 = .error e) :
    (enforceChatRateLimit settings ⟨call.sessionId, call.now + e.retryAfterSeconds⟩
        (after settings Dict.empty (history ++ call :: others))).1 = .ok () ↔
      ∃ a ∈ accepted call.sessionId (outcomes settings Dict.empty history),
        call.now - settings.agentChatLimitWindowSeconds ≤ a ∧ a < call.now - settings.agentChatLimitWindowSeconds + 1 := by
  obtain ⟨hhistory, -, hlast⟩ := List.pairwise_append.mp hclock
  have hkept := kept_after settings call.sessionId hhistory
    fun other hother => hlast other hother call List.mem_cons_self
  obtain ⟨hfull, he, hqueue⟩ := rejected_spec hrejected
  have hwait := one_le_retryAfter settings
    ((prune (call.now - settings.agentChatLimitWindowSeconds) ((after settings Dict.empty history).of call.sessionId)).headD 0)
    call.now
  have hleaves : ∀ a ∈ accepted call.sessionId (outcomes settings Dict.empty history),
      call.now - settings.agentChatLimitWindowSeconds ≤ a →
      a < call.now + e.retryAfterSeconds - settings.agentChatLimitWindowSeconds →
      a < call.now - settings.agentChatLimitWindowSeconds + 1 := by
    intro a ha hin hlt
    rw [he, hkept.prune] at hlt
    refine leaves_within_wait (hkept.sorted.filter _) ?_ (List.mem_filter.mpr ⟨ha, decide_eq_true hin⟩) hlt
    exact fun b hb => of_decide_eq_true (List.mem_filter.mp hb).2
  rw [accepted_iff, after_append, after, after_of_others hothers, hqueue, hkept.room_iff hfull]
  constructor
  · rintro ⟨a, ha, hin, hlt⟩
    exact ⟨a, ha, hin, hleaves a ha hin hlt⟩
  · rintro ⟨a, ha, hin, hlt⟩
    refine ⟨a, ha, hin, ?_⟩
    rw [he]
    linarith

/-- Half a second to go, and a second to wait. -/
theorem retry_honoured_half :
    let settings : ChatSettings := { agentChatLimitRequests := 1 }
    (enforceChatRateLimit settings ⟨"a", 119 / 2 + (rateLimited settings 0 (119 / 2)).retryAfterSeconds⟩
      (after settings Dict.empty ([⟨"a", 0⟩] ++ ⟨"a", 119 / 2⟩ :: [⟨"b", 60⟩]))).1 = .ok () := by
  intro settings
  have hrejected : (enforceChatRateLimit settings ⟨"a", 119 / 2⟩ (after settings Dict.empty [⟨"a", 0⟩])).1 =
      .error (rateLimited settings 0 (119 / 2)) := by decide +kernel
  have holdest : ∃ a ∈ accepted "a" (outcomes settings Dict.empty [⟨"a", 0⟩]),
      119 / 2 - (settings.agentChatLimitWindowSeconds : ℚ) ≤ a ∧
        a < 119 / 2 - (settings.agentChatLimitWindowSeconds : ℚ) + 1 := ⟨0, by decide +kernel⟩
  exact (retry_honoured_iff settings (by decide +kernel) (by decide) hrejected).mpr holdest

/-- Fifty seconds to go, and fifty to wait: the call comes at the end of the window, not after
it. -/
theorem retry_rejected : ¬∀ (settings : ChatSettings) (history others : List Call) (call : Call) (e : RateLimited),
    (history ++ [call]).Pairwise (fun a b => a.now ≤ b.now) →
    (∀ other ∈ others, other.sessionId ≠ call.sessionId) →
    (enforceChatRateLimit settings call (after settings Dict.empty history)).1 = .error e →
    (enforceChatRateLimit settings ⟨call.sessionId, call.now + e.retryAfterSeconds⟩
      (after settings Dict.empty (history ++ call :: others))).1 = .ok () := by
  intro hclaim
  have haccepted := hclaim { agentChatLimitRequests := 1 } [⟨"a", 0⟩] [] ⟨"a", 10⟩
    (rateLimited { agentChatLimitRequests := 1 } 0 10) (by decide +kernel) (by decide) (by decide +kernel)
  exact absurd haccepted (by decide +kernel)

end

end SynQc.Chat
