import Mathlib.Data.Rat.Floor
import SynQc.Auth.Layers
import SynQc.Library.Buckets

/-! The request limit in front of the API-key check.

`add_default_middlewares` adds the limiter after the key check, and what is added last
runs first. The limiter counts requests in Redis, per clock minute and per identity; the
identity is the `X-API-Key` header when there is one, and nothing has looked at that
header yet. So the limit binds an identity, and a client has as many identities as it
sends header values (`limit_binds_iff`). Of the middlewares in front of the limiter only
the size limit can answer a request, and such a request is not counted. -/
namespace SynQc.Auth.RateLimit

/-! ### Redis counters -/

structure Counter where
  value : Nat
  expiresAt : Option Time := none

abbrev Redis := Dict String Counter

/-- A key past its expiry is gone. -/
def Counter.live (c : Counter) (now : Time) : Bool := c.expiresAt.all fun t => decide (now < t)

def live? (redis : Redis) (key : String) (now : Time) : Option Counter :=
  (redis.get? key).filter fun c => c.live now

def incr (redis : Redis) (key : String) (now : Time) : Nat × Redis :=
  match live? redis key now with
  | some c => (c.value + 1, redis.set key {c with value := c.value + 1})
  | none => (1, redis.set key { value := 1 })

def expire (redis : Redis) (key : String) (seconds : Time) (now : Time) : Redis :=
  match live? redis key now with
  | some c => redis.set key {c with expiresAt := some (now + seconds)}
  | none => redis

/-! ### The limiter -/

/-- The Redis command that raises. -/
inductive Fault where
  | incr
  | expire
  deriving DecidableEq

/-- A request as it comes to the limiter: its headers, `request.client.host` and the time. -/
structure Arrival where
  request : HttpRequest
  host : Option String
  time : Time
  fault : Option Fault := none

/-- `request.headers.get("X-API-Key") or (request.client.host if request.client else "unknown")` -/
def Arrival.ident (r : Arrival) : String := (nonempty? r.request.xApiKey).getD (r.host.getD "unknown")

/-- `int(time.time() // 60)` -/
def window (t : Time) : Int := ⌊t / 60⌋

def counterKey (ident : String) (w : Int) : String := "synqc:ratelimit:" ++ ident ++ ":" ++ toString w

def rateLimited : Failure :=
  .http { status := 429, code := "rate_limited", message := some "Too many requests. Slow down." }

/-- `RateLimitMiddleware.dispatch` up to `call_next`. A Redis failure lets the request through. -/
def dispatch (limit : Nat) (r : Arrival) (redis : Redis) : Except Failure Unit × Redis :=
  if limit = 0 then (.ok (), redis)
  else if r.fault = some .incr then (.ok (), redis)
  else
    match incr redis (counterKey r.ident (window r.time)) r.time with
    | (n, counted) =>
      if n = 1 ∧ r.fault = some .expire then (.ok (), counted)
      else
        (if n > limit then .error rateLimited else .ok (),
          if n = 1 then expire counted (counterKey r.ident (window r.time)) 90 r.time else counted)

/-- The limiter, and the key check behind it. -/
def throughKeyCheck (settings : Settings) (limit : Nat) (r : Arrival) (redis : Redis) : Except Failure Unit × Redis :=
  match dispatch limit r redis with
  | (.ok (), after) => (apiKeyMiddleware settings r.request, after)
  | (.error failure, after) => (.error failure, after)

/-- The requests of a sequence that the limiter passes on. -/
def passedOn (limit : Nat) : Redis → List Arrival → List Arrival
  | _, [] => []
  | redis, r :: rest =>
    match dispatch limit r redis with
    | (.ok (), after) => r :: passedOn limit after rest
    | (.error _, after) => passedOn limit after rest

/-- Without the configured key, being passed on and being told so are the same: the key check
answers 401 to every request that the limiter lets through. -/
theorem throughKeyCheck_unauthorized {settings : Settings} {key : String} (hkey : settings.key? = some key)
    {r : Arrival} (hr : r.request.xApiKey ≠ some key) (limit : Nat) (redis : Redis) :
    (throughKeyCheck settings limit r redis).1 =
      match (dispatch limit r redis).1 with
      | .ok () => .error (.http { status := 401, code := "unauthorized", message := some "Missing or invalid API key." })
      | .error failure => .error failure := by
  have hne : r.request.xApiKey.getD "" ≠ key := by
    intro heq
    cases hheader : r.request.xApiKey with
    | none =>
      rw [hheader] at heq
      exact (nonempty?_some hkey).2 heq.symm
    | some value =>
      rw [hheader] at heq hr
      exact hr (congrArg some heq)
  rcases hdispatch : dispatch limit r redis with ⟨verdict, after⟩
  cases verdict with
  | error failure => simp only [throughKeyCheck, hdispatch]
  | ok => simp only [throughKeyCheck, hdispatch, apiKeyMiddleware, hkey, ne_eq, hne, not_false_eq_true, if_true]

/-! ### Counting within a minute -/

/-- Nothing has been counted in this minute. -/
def Unused (w : Int) (redis : Redis) : Prop := ∀ ident, redis.get? (counterKey ident w) = none

/-- Requests of one clock minute whose Redis calls succeed. -/
structure Minute (w : Int) (rs : List Arrival) : Prop where
  inWindow : ∀ r ∈ rs, window r.time = w
  noFault : ∀ r ∈ rs, r.fault = none

/-- Requests of one client host, none with the configured key. -/
structure Client (key host : String) (rs : List Arrival) : Prop where
  sameHost : ∀ r ∈ rs, r.host = some host
  noKey : ∀ r ∈ rs, r.request.xApiKey ≠ some key

abbrev seenOf (ident : String) (seen : List Arrival) : Nat := Buckets.count Arrival.ident ident seen

/-- The counters of a minute count its requests, and stay to its end. -/
structure Counts (w : Int) (redis : Redis) (seen : List Arrival) : Prop where
  absent : ∀ ident, redis.get? (counterKey ident w) = none → seenOf ident seen = 0
  present : ∀ ident c, redis.get? (counterKey ident w) = some c →
    c.value = seenOf ident seen ∧ 0 < c.value ∧ ∀ t, window t = w → c.live t = true

theorem counts_unused {w : Int} {redis : Redis} (h : Unused w redis) : Counts w redis [] := by
  refine ⟨fun ident _ => rfl, ?_⟩
  intro ident c hget
  rw [h ident] at hget
  cases hget

theorem Minute.head {w : Int} {r : Arrival} {rest : List Arrival} (h : Minute w (r :: rest)) :
    window r.time = w ∧ r.fault = none := ⟨h.inWindow r List.mem_cons_self, h.noFault r List.mem_cons_self⟩

theorem Minute.tail {w : Int} {r : Arrival} {rest : List Arrival} (h : Minute w (r :: rest)) : Minute w rest :=
  ⟨fun other hother => h.inWindow other (List.mem_cons_of_mem r hother),
    fun other hother => h.noFault other (List.mem_cons_of_mem r hother)⟩

theorem counterKey_inj {ident other : String} {w : Int} (h : counterKey ident w = counterKey other w) : ident = other := by
  have hcolon := String.append_left_inj (toString w) |>.mp h
  have hprefix := String.append_left_inj ":" |>.mp hcolon
  exact String.append_right_inj "synqc:ratelimit:" |>.mp hprefix

theorem colon_not_mem (w : Int) : ':' ∉ (toString w).toList := by
  intro h
  cases w with
  | ofNat n =>
    rw [show toString (Int.ofNat n) = Nat.repr n from rfl, Nat.toList_repr] at h
    exact absurd (Nat.isDigit_of_mem_toDigits (by decide) (by decide) h) (by decide)
  | negSucc n =>
    rw [show toString (Int.negSucc n) = "-" ++ Nat.repr (n + 1) from rfl, String.toList_append, Nat.toList_repr] at h
    rcases List.mem_append.mp h with h | h
    · exact absurd h (by decide)
    · exact absurd (Nat.isDigit_of_mem_toDigits (by decide) (by decide) h) (by decide)

/-- What follows the last of some character is the same on both sides of an equation. -/
theorem after_last {c : Char} {front front' back back' : List Char} (hback : c ∉ back) (hback' : c ∉ back')
    (h : front ++ c :: back = front' ++ c :: back') : back = back' := by
  rcases List.append_eq_append_iff.mp h with ⟨between, _, hrest⟩ | ⟨between, _, hrest⟩
  · cases between with
    | nil => exact (List.cons.inj hrest).2
    | cons first more =>
      have heq : back = more ++ c :: back' := (List.cons.inj hrest).2
      rw [heq] at hback
      exact absurd (List.mem_append_right more List.mem_cons_self) hback
  · cases between with
    | nil => exact (List.cons.inj hrest).2.symm
    | cons first more =>
      have heq : back' = more ++ c :: back := (List.cons.inj hrest).2
      rw [heq] at hback'
      exact absurd (List.mem_append_right more List.mem_cons_self) hback'

theorem toString_nat_inj {m n : Nat} (h : (Nat.repr m).toList = (Nat.repr n).toList) : m = n := by
  have hvalue := congrArg (fun digits => Nat.ofDigitChars 10 digits 0) h
  simpa [Nat.toList_repr] using hvalue

theorem minus_not_mem (n : Nat) : '-' ∉ (Nat.repr n).toList := by
  intro h
  rw [Nat.toList_repr] at h
  exact absurd (Nat.isDigit_of_mem_toDigits (by decide) (by decide) h) (by decide)

theorem toString_int_inj {w w' : Int} (h : (toString w).toList = (toString w').toList) : w = w' := by
  have hneg : ∀ n, (toString (Int.negSucc n)).toList = '-' :: (Nat.repr (n + 1)).toList := fun n =>
    String.toList_append
  cases w with
  | ofNat m =>
    cases w' with
    | ofNat n => rw [toString_nat_inj h]
    | negSucc n =>
      rw [hneg n] at h
      have hmem : '-' ∈ (toString (Int.ofNat m)).toList := by
        rw [h]
        exact List.mem_cons_self
      exact absurd hmem (minus_not_mem m)
  | negSucc m =>
    cases w' with
    | ofNat n =>
      rw [hneg m] at h
      have hmem : '-' ∈ (toString (Int.ofNat n)).toList := by
        rw [← h]
        exact List.mem_cons_self
      exact absurd hmem (minus_not_mem n)
    | negSucc n =>
      rw [hneg m, hneg n] at h
      have hsucc := toString_nat_inj (List.cons.inj h).2
      rw [Nat.succ.inj hsucc]

theorem toList_colon (front back : String) : (front ++ ":" ++ back).toList = front.toList ++ ':' :: back.toList := by
  have hcolon : (":" : String).toList = [':'] := by decide
  rw [String.toList_append, String.toList_append, List.append_assoc, hcolon, List.singleton_append]

/-- Counters of different minutes have different keys, whatever the identities. -/
theorem counterKey_window {ident other : String} {w w' : Int} (h : counterKey ident w = counterKey other w') : w = w' := by
  unfold counterKey at h
  have hlist := congrArg String.toList h
  rw [toList_colon, toList_colon] at hlist
  exact toString_int_inj (after_last (colon_not_mem w) (colon_not_mem w') hlist)

/-- A request touches no counter of another minute. -/
theorem dispatch_unused (limit : Nat) {r : Arrival} {redis : Redis} {w : Int} (hw : window r.time ≠ w)
    (h : Unused w redis) : Unused w (dispatch limit r redis).2 := by
  have hset : ∀ (redis : Redis) (c : Counter), Unused w redis →
      Unused w (redis.set (counterKey r.ident (window r.time)) c) := by
    intro redis c h ident
    rw [Dict.get?_set, if_neg fun hkey => hw (counterKey_window hkey)]
    exact h ident
  have hincr : Unused w (incr redis (counterKey r.ident (window r.time)) r.time).2 := by
    unfold incr
    split
    · exact hset redis _ h
    · exact hset redis _ h
  have hexpire : ∀ redis, Unused w redis → Unused w (expire redis (counterKey r.ident (window r.time)) 90 r.time) := by
    intro redis h
    unfold expire
    split
    · exact hset redis _ h
    · exact h
  unfold dispatch
  split
  · exact h
  · split
    · exact h
    · split
      rename_i n counted hcounted
      have hcounts : Unused w counted := by
        rw [hcounted] at hincr
        exact hincr
      split
      · exact hcounts
      · show Unused w (if n = 1 then _ else counted)
        split
        · exact hexpire counted hcounts
        · exact hcounts

/-- Redis after a sequence of requests. -/
def served (limit : Nat) (redis : Redis) (rs : List Arrival) : Redis :=
  rs.foldl (fun redis r => (dispatch limit r redis).2) redis

/-- Every minute begins with nothing counted, whatever came in other minutes. -/
theorem unused_served (limit : Nat) {w : Int} {rs : List Arrival} (hother : ∀ r ∈ rs, window r.time ≠ w) {redis : Redis}
    (h : Unused w redis) : Unused w (served limit redis rs) := by
  induction rs generalizing redis with
  | nil => exact h
  | cons r rest ih =>
    rw [served, List.foldl_cons]
    apply ih
    · exact fun other hmem => hother other (List.mem_cons_of_mem r hmem)
    · exact dispatch_unused limit (hother r List.mem_cons_self) h

/-- A key that expires after 90 seconds outlives the minute it was made in. -/
theorem outlives {w : Int} {t t' : Time} (h : window t = w) (h' : window t' = w) : t' < t + 90 := by
  have hle := (Int.floor_eq_iff.mp h).1
  have hlt := (Int.floor_eq_iff.mp h').2
  have hbound : t' / 60 < t / 60 + 1 := by linarith
  linarith

/-- What counting one more request means for the counters, given the counter it gets. -/
theorem Counts.snoc {w : Int} {redis after : Redis} {seen : List Arrival} (h : Counts w redis seen) (r : Arrival)
    {c : Counter} (hafter : ∀ k, after.get? k = if counterKey r.ident w = k then some c else redis.get? k)
    (hvalue : c.value = seenOf r.ident seen + 1) (hlive : ∀ t, window t = w → c.live t = true) :
    Counts w after (seen ++ [r]) := by
  constructor
  · intro ident hget
    rw [hafter] at hget
    split at hget
    · cases hget
    · rename_i hkey
      rw [seenOf, Buckets.count_snoc, if_neg fun hid => hkey (congrArg (counterKey · w) hid)]
      exact h.absent ident hget
  · intro ident c' hget
    rw [seenOf, Buckets.count_snoc]
    rw [hafter] at hget
    split at hget
    · rename_i hkey
      cases hget
      have hid := counterKey_inj hkey
      rw [if_pos hid, ← hid]
      exact ⟨hvalue, by omega, hlive⟩
    · rename_i hkey
      rw [if_neg fun hid => hkey (congrArg (counterKey · w) hid)]
      exact h.present ident c' hget

/-- **The limiter passes a request on when fewer than the limit of its identity came before it.** -/
theorem dispatch_counts {limit : Nat} (hlimit : 1 ≤ limit) {w : Int} {redis : Redis} {seen : List Arrival}
    (h : Counts w redis seen) {r : Arrival} (hw : window r.time = w) (hfault : r.fault = none) :
    ∃ after, dispatch limit r redis =
        (if seenOf r.ident seen < limit then .ok () else .error rateLimited, after) ∧
      Counts w after (seen ++ [r]) := by
  have hpos : limit ≠ 0 := by omega
  have hok : ¬r.fault = some .incr := by
    rw [hfault]
    exact nofun
  have hnotExpire : ¬r.fault = some .expire := by
    rw [hfault]
    exact nofun
  cases hget : redis.get? (counterKey r.ident w) with
  | none =>
    have hzero := h.absent r.ident hget
    have hincr : incr redis (counterKey r.ident w) r.time = (1, redis.set (counterKey r.ident w) { value := 1 }) := by
      simp only [incr, live?, hget, Option.filter_none]
    have hexpire : expire (redis.set (counterKey r.ident w) { value := 1 }) (counterKey r.ident w) 90 r.time =
        (redis.set (counterKey r.ident w) { value := 1 }).set (counterKey r.ident w)
          { value := 1, expiresAt := some (r.time + 90) } := by
      simp only [expire, live?, Dict.get?_set_self, Counter.live, Option.all_none, Option.filter_some, if_true]
    refine ⟨(redis.set (counterKey r.ident w) { value := 1 }).set (counterKey r.ident w)
      { value := 1, expiresAt := some (r.time + 90) }, ?_, ?_⟩
    · simp only [dispatch, if_neg hpos, if_neg hok, hw, hincr, hexpire, if_true]
      rw [if_neg fun hboth => hnotExpire hboth.2, if_neg (by omega : ¬1 > limit), if_pos (by omega : seenOf r.ident seen < limit)]
    · have hlive : ∀ t, window t = w → Counter.live { value := 1, expiresAt := some (r.time + 90) } t = true :=
        fun t ht => decide_eq_true (outlives hw ht)
      refine h.snoc r ?_ (by show 1 = _; omega) hlive
      intro k
      rw [Dict.get?_set, Dict.get?_set]
      split
      · rfl
      · rfl
  | some c =>
    obtain ⟨hvalue, hcpos, hlive⟩ := h.present r.ident c hget
    have hincr : incr redis (counterKey r.ident w) r.time =
        (c.value + 1, redis.set (counterKey r.ident w) {c with value := c.value + 1}) := by
      simp only [incr, live?, hget, Option.filter_some, hlive r.time hw, if_true]
    refine ⟨redis.set (counterKey r.ident w) {c with value := c.value + 1}, ?_, ?_⟩
    · simp only [dispatch, if_neg hpos, if_neg hok, hw, hincr]
      rw [if_neg fun hboth => hnotExpire hboth.2, if_neg (by omega : ¬c.value + 1 = 1)]
      by_cases hroom : seenOf r.ident seen < limit
      · rw [if_pos hroom, if_neg (by omega : ¬c.value + 1 > limit)]
      · rw [if_neg hroom, if_pos (by omega : c.value + 1 > limit)]
    · exact h.snoc r (fun k => Dict.get?_set _ _ k _) (congrArg (· + 1) hvalue) hlive

/-- The requests passed on are the first of each identity, up to the limit. -/
theorem passedOn_eq_granted {limit : Nat} (hlimit : 1 ≤ limit) {w : Int} {redis : Redis} {seen rs : List Arrival}
    (h : Counts w redis seen) (hrs : Minute w rs) :
    passedOn limit redis rs = Buckets.granted Arrival.ident limit seen rs := by
  induction rs generalizing redis seen with
  | nil => rfl
  | cons r rest ih =>
    obtain ⟨hw, hfault⟩ := hrs.head
    obtain ⟨after, hdispatch, hcounts⟩ := dispatch_counts hlimit h hw hfault
    have hrest := ih hcounts hrs.tail
    by_cases hroom : seenOf r.ident seen < limit
    · rw [if_pos hroom] at hdispatch
      simp only [Buckets.granted, passedOn, hdispatch]
      rw [if_pos hroom, hrest]
    · rw [if_neg hroom] at hdispatch
      simp only [Buckets.granted, passedOn, hdispatch]
      rw [if_neg hroom, hrest]

/-- **Within a minute the limit binds an identity**, whatever other requests come in between. -/
theorem identity_within_limit {limit : Nat} (hlimit : 1 ≤ limit) {w : Int} {redis : Redis} (hnew : Unused w redis)
    {rs : List Arrival} (hrs : Minute w rs) {p : Arrival → Bool} {ident : String}
    (hone : ∀ r ∈ rs, p r = true → r.ident = ident) : (passedOn limit redis rs).countP p ≤ limit := by
  rw [passedOn_eq_granted hlimit (counts_unused hnew) hrs]
  exact Buckets.countP_granted_le Arrival.ident limit hone []

/-- **Requests of a minute stay within the limit exactly when no more than the limit came, or
all have one identity.** -/
theorem limit_binds_iff {limit : Nat} (hlimit : 1 ≤ limit) {w : Int} {redis : Redis} (hnew : Unused w redis)
    {rs : List Arrival} (hrs : Minute w rs) :
    (passedOn limit redis rs).length ≤ limit ↔
      rs.length ≤ limit ∨ ∀ r ∈ rs, ∀ other ∈ rs, r.ident = other.ident := by
  rw [passedOn_eq_granted hlimit (counts_unused hnew) hrs]
  exact Buckets.length_granted_le_iff Arrival.ident limit hlimit rs

/-! ### A client that guesses keys -/

/-- A guess of the API key, from one host. -/
def guess (value : String) (time : Time) : Arrival :=
  { request := { xApiKey := some value }, host := some "203.0.113.7", time := time }

theorem guesses_minute (first second : String) : Minute 0 [guess first 10, guess second 11] := by
  constructor
  · intro r hr
    rcases List.mem_pair.mp hr with rfl | rfl
    · show window 10 = 0
      decide +kernel
    · show window 11 = 0
      decide +kernel
  · intro r hr
    rcases List.mem_pair.mp hr with rfl | rfl
    · rfl
    · rfl

theorem unused_empty (w : Int) : Unused w Dict.empty := fun _ => rfl

theorem limit_binds_same_guess :
    (passedOn 1 Dict.empty [guess "guess-1" 10, guess "guess-1" 11]).length ≤ 1 ↔
      [guess "guess-1" 10, guess "guess-1" 11].length ≤ 1 ∨
        ∀ r ∈ [guess "guess-1" 10, guess "guess-1" 11], ∀ other ∈ [guess "guess-1" 10, guess "guess-1" 11],
          r.ident = other.ident :=
  limit_binds_iff (Nat.le_refl 1) (unused_empty 0) (guesses_minute "guess-1" "guess-1")

/-- Two guesses of the key in one minute both come to the key check under a limit of one. -/
theorem guesses_pass :
    ¬∀ (limit : Nat), 1 ≤ limit → ∀ (key host : String) (w : Int) (redis : Redis), Unused w redis →
      ∀ rs : List Arrival, Minute w rs → Client key host rs → (passedOn limit redis rs).length ≤ limit := by
  intro hclaim
  have hclient : Client "secret" "203.0.113.7" [guess "guess-1" 10, guess "guess-2" 11] := by
    constructor
    · intro r hr
      rcases List.mem_pair.mp hr with rfl | rfl
      · rfl
      · rfl
    · intro r hr
      rcases List.mem_pair.mp hr with rfl | rfl
      · exact fun heq => absurd (Option.some.inj heq) (by decide)
      · exact fun heq => absurd (Option.some.inj heq) (by decide)
  have hle := hclaim 1 (Nat.le_refl 1) "secret" "203.0.113.7" 0 Dict.empty (unused_empty 0) _
    (guesses_minute "guess-1" "guess-2") hclient
  have htwo : (passedOn 1 Dict.empty [guess "guess-1" 10, guess "guess-2" 11]).length = 2 := by decide +kernel
  omega

end SynQc.Auth.RateLimit
