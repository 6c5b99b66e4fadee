import SynQc.Auth.Deps
import SynQc.Auth.Passwords
import SynQc.Auth.Tokens

/-! Session cookies, over the pool of the store.

A login looks its user up and creates the session in two calls of the store, a request with
a cookie looks up the session and then its user, and the calls of other requests come in
between, each on the connection that has been free longest. A `Web` keeps beside the store a log of the logins
whose session was created, and of the requests a cookie admitted.

A session is nowhere but with the connection that has the write transaction, so on the other
connections a cookie is not known; but nobody gets in who should not: whoever a
cookie admits had logged in with the password of that user, and the session had not
expired and no logout had succeeded (`cookies_sound`). -/
namespace SynQc.Auth
open Sql Transition

/-- A user that `verify_credentials` returned. -/
structure Verified where
  userId : Int
  email : String
  password : PyString

/-- A session, and who created it. -/
structure Login where
  verified : Verified
  id : String
  csrfToken : String
  expiresAt : Time
  /-- When a logout first succeeded. -/
  revokedAt : Option Time := none

/-- A cookie that `get_session` found a session for. -/
structure Lookup where
  cookie : String
  userId : Int
  checked : Time

structure Web where
  store : Pool Tables × Cache
  /-- The last clock reading. -/
  now : Time
  /-- Logins that are yet to create their session. -/
  verified : List Verified := []
  logins : List Login := []
  /-- Requests that are yet to look up their user. -/
  lookups : List Lookup := []
  admitted : List (Lookup × Principal) := []

inductive WebEvent where
  | verifyCredentials (email : String) (password : PyString)
  | createSession (index : Nat) (id csrfId : Uuid) (secret csrfSecret : String) (now : Time)
  | getSession (cookie : String) (checked seen : Time)
  | getUser (index : Nat)
  /-- Any call but those of the cookie: a logout, a registration, tokens, and what else looks up users. -/
  | call (request : Request)

section Routes
variable (rt : Runtime) (pbkdf2 : Pbkdf2)

/-- The user, if it is active and has the password. -/
def verifyCredentials (email : String) (password : PyString) (store : Pool Tables × Cache) :
    Option (Int × UserRow) × (Pool Tables × Cache) :=
  match pooledCall rt (.getUserByEmail email) store with
  | (.user (some (id, user)), store) =>
    (if user.isActive ≠ 0 ∧ verifyPassword pbkdf2 password user.passwordHash = true then some (id, user) else none,
      store)
  | (_, store) => (none, store)

/-- The first call of the cookie. -/
def findSession (cookie : String) (checked seen : Time) (store : Pool Tables × Cache) :
    Option (String × SessionRow) × (Pool Tables × Cache) :=
  match pooledCall rt (.getSession cookie checked seen) store with
  | (.session row, store) => (row, store)
  | (_, store) => (none, store)

/-- The second call of the cookie. -/
def userPrincipal (userId : Int) (store : Pool Tables × Cache) : Option Principal × (Pool Tables × Cache) :=
  match pooledCall rt (.getUserById userId) store with
  | (.user (some (id, user)), store) => (some ⟨.userSession, some id, some user.email, user.isAdmin ≠ 0, ["*"]⟩, store)
  | (_, store) => (none, store)

/-- What `create_session` adds to the log. -/
def issued (verified : Verified) (outcome : Outcome) (logins : List Login) : List Login :=
  match outcome with
  | .newSession id csrfToken expiresAt => ⟨verified, id, csrfToken, expiresAt, none⟩ :: logins
  | _ => logins

/-- What a logout makes of the log. -/
def loggedOut (request : Request) (outcome : Outcome) (logins : List Login) : List Login :=
  match request, outcome with
  | .revokeSession id now, .done =>
    logins.map fun k => if k.id = id then {k with revokedAt := some (k.revokedAt.getD now)} else k
  | _, _ => logins

namespace Web

def verifyCredentials (email : String) (password : PyString) (s : Web) : Web :=
  let (user, store) := Auth.verifyCredentials rt pbkdf2 email password s.store
  {s with store := store, verified := user.toList.map (fun user => ⟨user.1, email, password⟩) ++ s.verified}

def createSession (ttlSeconds : Int) (index : Nat) (id csrfId : Uuid) (secret csrfSecret : String) (now : Time)
    (s : Web) :
    Option Web :=
  match s.verified[index]? with
  | none => none
  | some verified =>
    if s.now ≤ now then
      let request := .createSession verified.userId ttlSeconds id csrfId secret csrfSecret now
      let (outcome, store) := pooledCall rt request s.store
      some {s with
        store := store
        now := now
        verified := s.verified.eraseIdx index
        logins := issued verified outcome s.logins }
    else none

def getSession (cookie : String) (checked seen : Time) (s : Web) : Option Web :=
  if s.now ≤ checked ∧ checked ≤ seen then
    let (row, store) := findSession rt cookie checked seen s.store
    some {s with
      store := store
      now := seen
      lookups := row.toList.map (fun row => ⟨cookie, row.2.userId, checked⟩) ++ s.lookups }
  else none

def getUser (index : Nat) (s : Web) : Option Web :=
  match s.lookups[index]? with
  | none => none
  | some lookup =>
    let (principal, store) := userPrincipal rt lookup.userId s.store
    some {s with
      store := store
      lookups := s.lookups.eraseIdx index
      admitted := principal.toList.map (fun principal => (lookup, principal)) ++ s.admitted }

/-- `create_session` and `get_session` are only called as above. -/
def call (request : Request) (s : Web) : Option Web :=
  match request with
  | .createSession .. | .getSession .. => none
  | request => (clock s.now request.readings).map fun now =>
    let (outcome, store) := pooledCall rt request s.store
    {s with store := store, now := now, logins := loggedOut request outcome s.logins}

end Web

/-- A process on a database. Sessions are not committed, so there are none at first. -/
def web (ttlSeconds : Int) (t : Tables) : System Web WebEvent where
  init s := t.sessions = Dict.empty ∧ ∃ start, 0 < start ∧ s = { store := (opened t, Dict.empty), now := start }
  step
    | .verifyCredentials email password => fun s => some (s.verifyCredentials rt pbkdf2 email password)
    | .createSession index id csrfId secret csrfSecret now => Web.createSession rt ttlSeconds index id csrfId secret csrfSecret now
    | .getSession cookie checked seen => Web.getSession rt cookie checked seen
    | .getUser index => Web.getUser rt index
    | .call request => Web.call rt request

/-- Without calls in between, the two calls of a cookie are those of `get_principal`. -/
theorem sessionPrincipal_iff (clk : Readings) (r : HttpRequest) (store : Pool Tables × Cache) (principal : Principal) :
    (sessionPrincipal (pooledCall rt) clk r store).1 = .ok (some principal) ↔
      ∃ cookie row, nonempty? r.sessionCookie = some cookie ∧
        (findSession rt cookie clk.sessionChecked clk.sessionSeen store).1 = some row ∧
        (userPrincipal rt row.2.userId (findSession rt cookie clk.sessionChecked clk.sessionSeen store).2).1 =
          some principal := by
  unfold sessionPrincipal findSession userPrincipal
  cases nonempty? r.sessionCookie with
  | none => simp
  | some cookie =>
    simp only [Option.some.injEq, exists_and_left, exists_eq_left']
    generalize pooledCall rt (.getSession cookie clk.sessionChecked clk.sessionSeen) store = first
    obtain ⟨outcome, store⟩ := first
    cases outcome with
    | session row =>
      cases row with
      | none => simp
      | some row =>
        simp only [Option.some.injEq, exists_eq_left']
        generalize pooledCall rt (.getUserById row.2.userId) store = second
        obtain ⟨outcome, store⟩ := second
        cases outcome with
        | user user => cases user <;> simp
        | _ => simp
    | _ => simp

end Routes

/-! ### Calls over the pool -/

section Calls
variable {rt : Runtime} {request : Request} {cache : Cache} {script : Script Tables Outcome} {p : Pool Tables}

/-- On the connection with the write transaction, or before there is one. -/
theorem pooledCall_clear (h : authStore rt request cache = keeping cache script) (hclear : p.Clear p.next) :
    (pooledCall rt request (p, cache)).1 = (script.run p.latest).1 ∧
      (pooledCall rt request (p, cache)).2.1.latest = (script.run p.latest).2 := by
  have hexec : ((script.map fun outcome => (outcome, cache)).exec (.raised .locked, cache) p.next p).1 = _ ∧
      ((script.map fun outcome => (outcome, cache)).exec (.raised .locked, cache) p.next p).2.latest = _ :=
    Script.exec_of_clear _ hclear
  simp only [pooledCall, h, keeping, Plan.call, Pool.call, Pool.latest_rotate]
  rw [hexec.1, hexec.2, Script.run_map]
  exact ⟨rfl, rfl⟩

/-- On another one. -/
theorem pooledCall_blocked (h : authStore rt request cache = keeping cache script) (hclear : ¬p.Clear p.next) :
    (pooledCall rt request (p, cache)).2.1.latest = p.latest ∧
      ((pooledCall rt request (p, cache)).1 = .raised .locked ∨
        (script.Reads p.committed p.committed ∧
          (pooledCall rt request (p, cache)).1 = (script.run p.committed).1)) := by
  simp only [pooledCall, h, keeping, Plan.call, Pool.call, Pool.latest_rotate]
  have hexec := (script.map fun outcome => (outcome, cache)).exec_blocked (.raised .locked, cache) hclear
  rcases hexec with hfailed | ⟨hreads, hread⟩
  · rw [hfailed]
    exact ⟨rfl, .inl rfl⟩
  · rw [hread, Script.run_map]
    exact ⟨rfl, .inr ⟨(Script.reads_map _ _ _ _).mp hreads, rfl⟩⟩

theorem committed_pooledCall (store : Pool Tables × Cache) :
    (pooledCall rt request store).2.1.committed = store.1.committed :=
  (Plan.call_cases _ _).1

end Calls

/-! ### What calls leave of sessions and users -/

/-- No user is changed. -/
def Tables.UsersKept (t t' : Tables) : Prop := ∀ id user, t.users.get? id = some user → t'.users.get? id = some user

/-- The same sessions, and no user is changed. -/
def Tables.SessionsKept (t t' : Tables) : Prop := t'.sessions = t.sessions ∧ t.UsersKept t'

theorem Tables.SessionsKept.refl (t : Tables) : t.SessionsKept t := ⟨rfl, fun _ _ hget => hget⟩

theorem Tables.SessionsKept.trans {t t' t'' : Tables} (h : t.SessionsKept t') (h' : t'.SessionsKept t'') :
    t.SessionsKept t'' :=
  ⟨h'.1.trans h.1, fun id user hget => h'.2 id user (h.2 id user hget)⟩

/-- The methods that write sessions. -/
def Request.onSessions : Request → Bool
  | .createSession .. | .getSession .. | .revokeSession .. => true
  | _ => false

section Kept
variable {rt : Runtime} {cache : Cache} {t : Tables}

theorem sessionsKept_insertUser (row : UserRow) (t : Tables) : t.SessionsKept (t.insertUser row).2 := by
  refine ⟨?_, (Tables.tokensKept_insertUser row t).2⟩
  rw [Tables.insertUser]
  split <;> rfl

theorem sessionsKept_insertToken (id : String) (row : TokenRow) (t : Tables) :
    t.SessionsKept (t.insertToken id row).2 := by
  refine ⟨Tables.sessions_insertToken id row t, fun id' user hget => ?_⟩
  rcases Tables.insertToken_cases id row t with ⟨message, hfailed⟩ | ⟨-, -, -, husers⟩
  · rw [hfailed]
    exact hget
  · rw [husers]
    exact hget

theorem sessionsKept_updateToken (id : String) (meets : TokenRow → Bool) (change : TokenRow → TokenRow)
    (hchange : ∀ row, (change row).userId = row.userId) (t : Tables) :
    t.SessionsKept (t.updateToken id meets change hchange).2 := by
  refine ⟨Tables.sessions_updateToken _ _ _ _ _, fun id' user hget => ?_⟩
  rw [Tables.users_updateToken]
  exact hget

theorem sessionsKept_lookup (token : String) (now checked used : Time) (cache : Cache) :
    (lookupApiToken rt token now checked used cache).Keeps Tables.SessionsKept := by
  intro found
  cases found with
  | none => exact trivial
  | some entry =>
    simp only
    split
    · exact trivial
    · split
      · exact trivial
      · split
        · exact trivial
        · refine ⟨fun t => sessionsKept_updateToken _ _ _ _ t, fun ok user => ?_⟩
          cases user with
          | none => exact trivial
          | some user =>
            simp only
            split <;> exact trivial

/-- A script that keeps sessions, run as a call. -/
theorem sessionsKept_run {script : Script Tables Outcome} (h : script.Keeps Tables.SessionsKept) :
    t.SessionsKept (script.run t).2 :=
  Script.run_keeps Tables.SessionsKept.refl (fun _ _ _ => Tables.SessionsKept.trans) h t

theorem sessionsKept_call (request : Request) (hother : request.onSessions = false) :
    t.SessionsKept ((authStore rt request cache).run t).2 := by
  have hkeeping : ∀ script : Script Tables Outcome, script.Keeps Tables.SessionsKept →
      t.SessionsKept ((keeping cache script).run t).2 := by
    intro script hkeeps
    rw [keeping, Plan.run, Script.run_map]
    exact sessionsKept_run hkeeps
  cases request with
  | createUser email passwordHash isAdmin now =>
    refine hkeeping _ ⟨fun t => sessionsKept_insertUser _ t, fun answer => ?_⟩
    cases answer with
    | error message => exact trivial
    | ok _ => exact fun user => by cases user <;> exact trivial
  | getUserByEmail email => exact hkeeping _ fun _ => trivial
  | getUserById id => exact hkeeping _ fun _ => trivial
  | userCount => exact hkeeping _ fun _ => trivial
  | createSession => cases hother
  | getSession => cases hother
  | revokeSession => cases hother
  | createApiToken userId scopes label expiresAt id secret now =>
    refine hkeeping _ ⟨fun t => sessionsKept_insertToken _ _ t, fun answer => ?_⟩
    cases answer with
    | error message => exact trivial
    | ok _ => exact fun row => by cases row <;> exact trivial
  | revokeApiToken tokenId userId now =>
    exact hkeeping _ ⟨fun t => sessionsKept_updateToken _ _ _ _ t, fun _ => trivial⟩
  | listApiTokens userId => exact hkeeping _ fun _ => trivial
  | verifyApiToken token now checked used =>
    have hlookup : ∀ rest : Cache,
      t.SessionsKept ((lookupApiToken rt token now checked used rest).run t).2 := fun rest =>
      Script.run_keeps Tables.SessionsKept.refl (fun _ _ _ => Tables.SessionsKept.trans)
        (sessionsKept_lookup token now checked used rest) t
    simp only [authStore, verifyApiToken]
    split
    · exact .refl t
    · split
      · exact hlookup cache
      · split
        · exact .refl t
        · exact hlookup _

theorem users_updateSession (id : String) (change : SessionRow → SessionRow)
    (hchange : ∀ row, (change row).userId = row.userId) (t : Tables) :
    t.UsersKept (t.updateSession id change hchange).2 :=
  (Tables.tokensKept_updateSession id change hchange t).2

theorem get?_updateSession (id id' : String) (change : SessionRow → SessionRow)
    (hchange : ∀ row, (change row).userId = row.userId) (t : Tables) :
    (t.updateSession id change hchange).2.sessions.get? id' =
      (t.sessions.get? id').map fun row => if id = id' then change row else row := by
  rw [Tables.updateSession]
  split
  · rename_i row hrow
    show (t.sessions.set id (change row)).get? id' = _
    by_cases hid : id = id'
    · subst hid
      rw [Dict.get?_set, if_pos rfl, hrow, Option.map_some, if_pos rfl]
    · simp only [Dict.get?_set_ne _ _ hid, hid, if_false, Option.map_id']
  · rename_i hnone
    by_cases hid : id = id'
    · subst hid
      rw [hnone]
      rfl
    · simp only [hid, if_false, Option.map_id']

/-- A new session is in the table or there was an error. -/
theorem createSession_run (userId ttlSeconds : Int) (id csrfId : Uuid) (secret csrfSecret : String) (now : Time)
    (t : Tables) :
    (∃ error, (createSession userId ttlSeconds id csrfId secret csrfSecret now).run t = (.raised error, t)) ∨
    ∃ row : SessionRow, t.sessions.get? id.hex = none ∧ row.userId = userId ∧ row.expiresAt = now + ttlSeconds ∧
      row.revokedAt = none ∧
      ((createSession userId ttlSeconds id csrfId secret csrfSecret now).run t).1 =
        .newSession id.hex row.csrfToken (now + ttlSeconds) ∧
      ((createSession userId ttlSeconds id csrfId secret csrfSecret now).run t).2.sessions = t.sessions.set id.hex row ∧
      ((createSession userId ttlSeconds id csrfId secret csrfSecret now).run t).2.users = t.users := by
  generalize hrow : (⟨userId, (makePrefixedToken "synqc_csrf_" csrfId csrfSecret).1, now, now, now + ttlSeconds, none⟩ :
    SessionRow) = row
  have hcases : (∃ message, t.insertSession id.hex row = (.error message, t)) ∨
      (t.sessions.get? id.hex = none ∧ (t.insertSession id.hex row).1 = .ok () ∧
        (t.insertSession id.hex row).2.sessions = t.sessions.set id.hex row ∧
        (t.insertSession id.hex row).2.users = t.users) := by
    rw [Tables.insertSession]
    split
    · exact .inl ⟨_, rfl⟩
    · exact .inl ⟨_, rfl⟩
    · rename_i hnone huser
      exact .inr ⟨hnone, rfl, rfl, rfl⟩
  have hid : (makePrefixedToken "synqc_sess_" id secret).2 = id.hex := rfl
  simp only [createSession, Script.run, hid, hrow]
  rcases hcases with ⟨message, hfailed⟩ | ⟨hnone, hok, hsessions, husers⟩
  · left
    rw [hfailed]
    exact ⟨.integrity message, rfl⟩
  · right
    refine ⟨row, hnone, ?_, ?_, ?_, ?_, ?_, ?_⟩
    · rw [← hrow]
    · rw [← hrow]
    · rw [← hrow]
    · rw [hok, ← hrow]
      rfl
    · rw [hok]
      exact hsessions
    · rw [hok]
      exact husers

theorem sessionsKept_pooledCall (rt : Runtime) {request : Request} (hother : request.onSessions = false)
    (store : Pool Tables × Cache) : store.1.latest.SessionsKept (pooledCall rt request store).2.1.latest := by
  rcases (Plan.call_cases (authStore rt request store.2) store.1).2 with ⟨-, hlatest⟩ | ⟨hsame, -⟩
  · simp only [pooledCall, hlatest]
    exact sessionsKept_call request hother
  · simp only [pooledCall, hsame]
    exact .refl _

/-- A row that was looked at. -/
structure Seen (row row' : SessionRow) : Prop where
  userId : row'.userId = row.userId
  expiresAt : row'.expiresAt = row.expiresAt
  revokedAt : row'.revokedAt = row.revokedAt

/-- A lookup finds a session that is neither revoked nor expired, and deletes one that is
expired. -/
theorem getSession_run (id : String) (checked seen : Time) (t : Tables) :
    let after := (getSession id checked seen).run t
    (∀ row, after.1 = .session (some row) ↔ t.sessions.get? id = some row.2 ∧ row.1 = id ∧
      isRevoked row.2.revokedAt = false ∧ checked < row.2.expiresAt) ∧
    t.UsersKept after.2 ∧
    (∀ id' row', after.2.sessions.get? id' = some row' → ∃ row, t.sessions.get? id' = some row ∧ Seen row row') ∧
    ∀ id' row, t.sessions.get? id' = some row → checked < row.expiresAt →
      ∃ row', after.2.sessions.get? id' = some row' ∧ Seen row row' := by
  intro after
  have hafter : after = (getSession id checked seen).run t := rfl
  have hsame : ∀ outcome, after = (outcome, t) → t.UsersKept after.2 ∧
      (∀ id' row', after.2.sessions.get? id' = some row' → ∃ row, t.sessions.get? id' = some row ∧ Seen row row') ∧
      ∀ id' row, t.sessions.get? id' = some row → checked < row.expiresAt →
        ∃ row', after.2.sessions.get? id' = some row' ∧ Seen row row' := by
    intro outcome heq
    rw [heq]
    exact ⟨fun _ _ hget => hget, fun id' row hget => ⟨row, hget, rfl, rfl, rfl⟩,
      fun id' row hget _ => ⟨row, hget, rfl, rfl, rfl⟩⟩
  simp only [getSession, Script.run, Tables.sessionById] at hafter
  cases hget : t.sessions.get? id with
  | none =>
    simp only [hget, Option.map_none, Script.run] at hafter
    refine ⟨fun row => ?_, hsame _ hafter⟩
    simp [hafter]
  | some row =>
    simp only [hget, Option.map_some] at hafter
    by_cases hrevoked : isRevoked row.revokedAt = true
    · simp only [if_pos hrevoked, Script.run] at hafter
      refine ⟨fun row' => ?_, hsame _ hafter⟩
      simp only [hafter, Outcome.session.injEq, reduceCtorEq, false_iff, not_and, Option.some.injEq]
      intro heq _ hnot
      rw [heq] at hrevoked
      cases hrevoked.symm.trans hnot
    · by_cases hexpired : row.expiresAt ≤ checked
      · simp only [if_neg hrevoked, if_pos hexpired, Script.run, Tables.deleteSession] at hafter
        refine ⟨fun row' => ?_, fun _ _ huser => ?_, fun id' row' hrow' => ?_, fun id' row' hrow' hlive => ?_⟩
        · simp only [hafter, Outcome.session.injEq, reduceCtorEq, false_iff, not_and, Option.some.injEq]
          intro heq _ _
          rw [← heq]
          exact not_lt.mpr hexpired
        · rw [hafter]
          exact huser
        · rw [hafter] at hrow'
          change (t.sessions.erase id).get? id' = _ at hrow'
          rw [Dict.get?_erase] at hrow'
          split at hrow'
          · cases hrow'
          · exact ⟨row', hrow', rfl, rfl, rfl⟩
        · rw [hafter]
          refine ⟨row', ?_, rfl, rfl, rfl⟩
          change (t.sessions.erase id).get? id' = _
          rw [Dict.get?_erase, if_neg]
          · exact hrow'
          · intro hid
            rw [← hid, hget] at hrow'
            cases hrow'
            exact absurd hlive (not_lt.mpr hexpired)
      · simp only [if_neg hrevoked, if_neg hexpired, Script.run] at hafter
        refine ⟨fun row' => ?_, ?_, fun id' row' hrow' => ?_, fun id' row' hrow' _ => ?_⟩
        · simp only [hafter, Outcome.session.injEq, Option.some.injEq]
          constructor
          · intro heq
            rw [← heq]
            exact ⟨rfl, rfl, Bool.eq_false_iff.mpr hrevoked, not_le.mp hexpired⟩
          · intro hall
            exact Prod.ext hall.2.1.symm hall.1
        · rw [hafter]
          exact users_updateSession _ _ _ _
        · rw [hafter, get?_updateSession] at hrow'
          obtain ⟨old, hold, rfl⟩ := Option.map_eq_some_iff.mp hrow'
          refine ⟨old, hold, ?_⟩
          split <;> exact ⟨rfl, rfl, rfl⟩
        · rw [hafter, get?_updateSession, hrow']
          refine ⟨_, rfl, ?_⟩
          split <;> exact ⟨rfl, rfl, rfl⟩

end Kept

/-! ### The store and the log -/

/-- The row of a session says what its login does. -/
structure Matches (k : Login) (row : SessionRow) : Prop where
  userId : k.verified.userId = row.userId
  expiresAt : k.expiresAt = row.expiresAt
  revoked : k.revokedAt.isSome = isRevoked row.revokedAt

theorem Matches.seen {k : Login} {row row' : SessionRow} (h : Matches k row) (hseen : Seen row row') : Matches k row' :=
  ⟨h.userId.trans hseen.userId.symm, h.expiresAt.trans hseen.expiresAt.symm, by rw [hseen.revokedAt]; exact h.revoked⟩

/-- The rows are of logins, and the logins that count have their rows. `t` is what is committed. -/
structure Stored (t : Tables) (p : Pool Tables) (now : Time) (logins : List Login) : Prop where
  committed : p.committed = t
  fresh : t.sessions = Dict.empty
  positive : 0 < now
  users : t.UsersKept p.latest
  rows : ∀ id row, p.latest.sessions.get? id = some row → ∃ k ∈ logins, k.id = id ∧ Matches k row
  live : ∀ k ∈ logins, k.revokedAt = none → now < k.expiresAt →
    ∃ row, p.latest.sessions.get? k.id = some row ∧ Matches k row

namespace Stored
variable {rt : Runtime} {t : Tables} {store : Pool Tables × Cache} {p' : Pool Tables} {now later : Time}
  {logins : List Login}

/-- With the same sessions. -/
theorem keep (h : Stored t store.1 now logins) (hcommitted : p'.committed = store.1.committed)
    (hkept : store.1.latest.SessionsKept p'.latest) (hle : now ≤ later) : Stored t p' later logins := by
  refine ⟨hcommitted.trans h.committed, h.fresh, h.positive.trans_le hle, fun id user hget => ?_, ?_,
    fun k hk hnot hlive => ?_⟩
  · exact hkept.2 id user (h.users id user hget)
  · rw [hkept.1]
    exact h.rows
  · rw [hkept.1]
    exact h.live k hk hnot (hle.trans_lt hlive)

theorem call (h : Stored t store.1 now logins) {request : Request} (hother : request.onSessions = false)
    (hle : now ≤ later) : Stored t (pooledCall rt request store).2.1 later logins :=
  h.keep (committed_pooledCall store) (sessionsKept_pooledCall rt hother store) hle

/-- A call that had not the write transaction. -/
theorem blocked (h : Stored t store.1 now logins) {request : Request}
    (hlatest : (pooledCall rt request store).2.1.latest = store.1.latest) (hle : now ≤ later) :
    Stored t (pooledCall rt request store).2.1 later logins ∧
      store.1.latest.UsersKept (pooledCall rt request store).2.1.latest := by
  rw [hlatest]
  refine ⟨h.keep (committed_pooledCall store) ?_ hle, fun _ _ hget => hget⟩
  rw [hlatest]
  exact .refl _

theorem create (h : Stored t store.1 now logins) (rt : Runtime) (verified : Verified) (ttlSeconds : Int)
    (id csrfId : Uuid)
    (secret csrfSecret : String) (hle : now ≤ later) :
    let after := pooledCall rt (.createSession verified.userId ttlSeconds id csrfId secret csrfSecret later) store
    Stored t after.2.1 later (issued verified after.1 logins) ∧ store.1.latest.UsersKept after.2.1.latest := by
  intro after
  have hplan : authStore rt (.createSession verified.userId ttlSeconds id csrfId secret csrfSecret later) store.2 =
    keeping store.2 (createSession verified.userId ttlSeconds id csrfId secret csrfSecret later) := rfl
  by_cases hclear : store.1.Clear store.1.next
  · obtain ⟨houtcome, hlatest⟩ := pooledCall_clear hplan hclear
    rcases createSession_run verified.userId ttlSeconds id csrfId secret csrfSecret later store.1.latest with
      ⟨error, hrun⟩ | ⟨row, hnone, huser, hexpires, hnot, hnew, hsessions, husers⟩
    · rw [hrun] at houtcome hlatest
      have hissued : issued verified after.1 logins = logins := by
        rw [show after.1 = .raised error from houtcome]
        rfl
      rw [hissued]
      exact h.blocked hlatest hle
    · rw [hnew] at houtcome
      rw [← hlatest] at hsessions husers
      have hissued : issued verified after.1 logins =
          ⟨verified, id.hex, row.csrfToken, later + ttlSeconds, none⟩ :: logins := by
        rw [show after.1 = _ from houtcome]
        rfl
      have hmatches : Matches ⟨verified, id.hex, row.csrfToken, later + ttlSeconds, none⟩ row :=
        ⟨huser.symm, hexpires.symm, by rw [hnot]; rfl⟩
      rw [hissued]
      refine ⟨⟨(committed_pooledCall store).trans h.committed, h.fresh, h.positive.trans_le hle,
        fun id' user hget => ?_,
        fun id' row' hget => ?_, fun k hk hunrevoked hlive => ?_⟩, fun id' user hget => ?_⟩
      · rw [husers]
        exact h.users id' user hget
      · rw [hsessions, Dict.get?_set] at hget
        split at hget
        · rename_i hid
          cases hget
          exact ⟨_, List.mem_cons_self, hid, hmatches⟩
        · obtain ⟨k, hk, hid, hsame⟩ := h.rows id' row' hget
          exact ⟨k, List.mem_cons_of_mem _ hk, hid, hsame⟩
      · rw [hsessions]
        rcases List.mem_cons.mp hk with rfl | hk
        · exact ⟨row, by rw [Dict.get?_set, if_pos rfl], hmatches⟩
        · obtain ⟨old, hold, hsame⟩ := h.live k hk hunrevoked (hle.trans_lt hlive)
          refine ⟨old, ?_, hsame⟩
          rw [Dict.get?_set, if_neg]
          · exact hold
          · intro hid
            rw [hid, hold] at hnone
            cases hnone
      · rw [husers]
        exact hget
  · obtain ⟨hlatest, hfailed | ⟨hreads, -⟩⟩ := pooledCall_blocked (p := store.1) hplan hclear
    · have hissued : issued verified after.1 logins = logins := by
        rw [show after.1 = _ from hfailed]
        rfl
      rw [hissued]
      exact h.blocked hlatest hle
    · exact hreads.elim

/-- What a lookup of a session finds, and what it leaves. -/
theorem get (h : Stored t store.1 now logins) (rt : Runtime) (cookie : String) {checked seen : Time}
    (hle : now ≤ checked)
    (hseen : checked ≤ seen) :
    let after := pooledCall rt (.getSession cookie checked seen) store
    (∀ row, after.1 = .session (some row) ↔ store.1.Clear store.1.next ∧
      store.1.latest.sessions.get? cookie = some row.2 ∧ row.1 = cookie ∧ isRevoked row.2.revokedAt = false ∧
        checked < row.2.expiresAt) ∧
    Stored t after.2.1 seen logins ∧ store.1.latest.UsersKept after.2.1.latest := by
  intro after
  have hplan : authStore rt (.getSession cookie checked seen) store.2 =
    keeping store.2 (getSession cookie checked seen) := rfl
  by_cases hclear : store.1.Clear store.1.next
  · obtain ⟨houtcome, hlatest⟩ := pooledCall_clear hplan hclear
    obtain ⟨hfinds, hkept, hback, hforth⟩ := getSession_run cookie checked seen store.1.latest
    rw [← hlatest] at hkept hback hforth
    refine ⟨fun row => ?_, ⟨(committed_pooledCall store).trans h.committed, h.fresh,
      h.positive.trans_le (hle.trans hseen), fun id' user hget => hkept id' user (h.users id' user hget),
      fun id' row' hrow' => ?_, fun k hk hnot hlive => ?_⟩, hkept⟩
    · rw [show after.1 = _ from houtcome, hfinds]
      exact (and_iff_right hclear).symm
    · obtain ⟨row, hrow, hseen⟩ := hback id' row' hrow'
      obtain ⟨k, hk, hid, hmatches⟩ := h.rows id' row hrow
      exact ⟨k, hk, hid, hmatches.seen hseen⟩
    · obtain ⟨row, hrow, hmatches⟩ := h.live k hk hnot ((hle.trans hseen).trans_lt hlive)
      have hearly : checked < row.expiresAt := by
        rw [← hmatches.expiresAt]
        exact hseen.trans_lt hlive
      obtain ⟨row', hrow', hseen⟩ := hforth k.id row hrow hearly
      exact ⟨row', hrow', hmatches.seen hseen⟩
  · obtain ⟨hlatest, hfailed | ⟨hreads, hread⟩⟩ := pooledCall_blocked (p := store.1) hplan hclear
    · refine ⟨fun row => ?_, h.blocked hlatest (hle.trans hseen)⟩
      rw [show after.1 = _ from hfailed]
      simp [hclear]
    · refine ⟨fun row => ?_, h.blocked hlatest (hle.trans hseen)⟩
      have hnone : ((getSession cookie checked seen).run store.1.committed).1 = .session none := by
        simp only [getSession, Script.run, Tables.sessionById, h.committed, h.fresh]
        rfl
      rw [show after.1 = _ from hread, hnone]
      simp [hclear]

/-- A logout that succeeds revokes the logins of its session. -/
theorem logout (h : Stored t store.1 now logins) (rt : Runtime) (id : String) (hle : now ≤ later) :
    let after := pooledCall rt (.revokeSession id later) store
    Stored t after.2.1 later (loggedOut (.revokeSession id later) after.1 logins) ∧
      store.1.latest.UsersKept after.2.1.latest := by
  intro after
  have hplan : authStore rt (.revokeSession id later) store.2 = keeping store.2 (revokeSession id later) := rfl
  by_cases hclear : store.1.Clear store.1.next
  · obtain ⟨houtcome, hlatest⟩ := pooledCall_clear hplan hclear
    simp only [revokeSession, Script.run] at houtcome hlatest
    have hkept : store.1.latest.UsersKept after.2.1.latest := by
      rw [show after.2.1.latest = _ from hlatest]
      exact users_updateSession _ _ _ _
    have hrevoked : isRevoked (some later) = true := decide_eq_true (h.positive.trans_le hle).ne'
    have hmatches : ∀ {k : Login} {row : SessionRow}, Matches k row →
        Matches (if k.id = id then {k with revokedAt := some (k.revokedAt.getD later)} else k)
          (if id = k.id then {row with revokedAt := some later} else row) := by
      intro k row hsame
      by_cases hid : k.id = id
      · rw [if_pos hid, if_pos hid.symm]
        exact ⟨hsame.userId, hsame.expiresAt, hrevoked.symm⟩
      · rw [if_neg hid, if_neg (Ne.symm hid)]
        exact hsame
    have hkeepsId : ∀ k : Login,
        (if k.id = id then {k with revokedAt := some (k.revokedAt.getD later)} else k).id = k.id := by
      intro k
      split <;> rfl
    rw [show after.1 = .done from houtcome, loggedOut]
    refine ⟨⟨(committed_pooledCall store).trans h.committed, h.fresh, h.positive.trans_le hle,
      fun id' user hget => hkept id' user (h.users id' user hget), fun id' row' hrow' => ?_,
        fun k' hk' hnot hlive => ?_⟩, hkept⟩
    · rw [hlatest, get?_updateSession] at hrow'
      obtain ⟨row, hrow, rfl⟩ := Option.map_eq_some_iff.mp hrow'
      obtain ⟨k, hk, rfl, hsame⟩ := h.rows id' row hrow
      exact ⟨_, List.mem_map_of_mem hk, hkeepsId k, hmatches hsame⟩
    · obtain ⟨k, hk, rfl⟩ := List.mem_map.mp hk'
      by_cases hid : k.id = id
      · rw [if_pos hid] at hnot
        cases hnot
      · rw [if_neg hid] at hnot hlive ⊢
        obtain ⟨row, hrow, hsame⟩ := h.live k hk hnot (hle.trans_lt hlive)
        refine ⟨row, ?_, hsame⟩
        rw [hlatest, get?_updateSession, hrow, Option.map_some, if_neg (Ne.symm hid)]
  · obtain ⟨hlatest, hfailed | ⟨hreads, -⟩⟩ := pooledCall_blocked (p := store.1) hplan hclear
    · rw [show after.1 = _ from hfailed, loggedOut]
      · exact h.blocked hlatest hle
      · intro _ _ _ hdone
        cases hdone
    · exact hreads.elim

end Stored

/-! ### Who is let in -/

/-- The password is that of the user. -/
def Proven (rt : Runtime) (pbkdf2 : Pbkdf2) (t : Tables) (v : Verified) : Prop :=
  ∃ user, t.users.get? v.userId = some user ∧ user.email = normalizeEmail rt v.email ∧ user.isActive ≠ 0 ∧
    verifyPassword pbkdf2 v.password user.passwordHash = true

/-- A login made the session; at the lookup it had not expired, and no logout had succeeded. -/
def Found (logins : List Login) (l : Lookup) : Prop :=
  ∃ k ∈ logins, k.id = l.cookie ∧ k.verified.userId = l.userId ∧ l.checked < k.expiresAt ∧
    ∀ r ∈ k.revokedAt, l.checked ≤ r

/-- What a cookie makes of a user. -/
def cookiePrincipal (id : Int) (user : UserRow) : Principal :=
  ⟨.userSession, some id, some user.email, user.isAdmin ≠ 0, ["*"]⟩

/-- Logins are added, or revoked from now on. -/
structure Later (now : Time) (logins logins' : List Login) : Prop where
  kept : ∀ k ∈ logins, ∃ k' ∈ logins', k'.id = k.id ∧ k'.verified = k.verified ∧ k'.expiresAt = k.expiresAt ∧
    ∀ r ∈ k'.revokedAt, r ∈ k.revokedAt ∨ now ≤ r

theorem Later.refl (now : Time) (logins : List Login) : Later now logins logins :=
  ⟨fun k hk => ⟨k, hk, rfl, rfl, rfl, fun _ hr => .inl hr⟩⟩

theorem later_issued (now : Time) (verified : Verified) (outcome : Outcome) (logins : List Login) :
    Later now logins (issued verified outcome logins) := by
  refine ⟨fun k hk => ⟨k, ?_, rfl, rfl, rfl, fun _ hr => .inl hr⟩⟩
  unfold issued
  split
  · exact List.mem_cons_of_mem _ hk
  · exact hk

theorem later_logout {now later : Time} (hle : now ≤ later) (id : String) (outcome : Outcome) (logins : List Login) :
    Later now logins (loggedOut (.revokeSession id later) outcome logins) := by
  cases outcome with
  | done =>
    refine ⟨fun k hk => ⟨_, List.mem_map_of_mem hk, ?_⟩⟩
    by_cases hid : k.id = id
    · rw [if_pos hid]
      refine ⟨rfl, rfl, rfl, fun r hr => ?_⟩
      obtain rfl := Option.some.inj hr
      cases k.revokedAt with
      | none => exact .inr hle
      | some first => exact .inl rfl
    · rw [if_neg hid]
      exact ⟨rfl, rfl, rfl, fun _ hr => .inl hr⟩
  | _ => exact .refl now logins

theorem Found.later {now : Time} {logins logins' : List Login} {l : Lookup} (h : Found logins l) (hle : l.checked ≤ now)
    (hlater : Later now logins logins') : Found logins' l := by
  obtain ⟨k, hk, hid, huser, hearly, hnot⟩ := h
  obtain ⟨k', hk', hid', hverified, hexpires, hrevoked⟩ := hlater.kept k hk
  refine ⟨k', hk', hid'.trans hid, hverified ▸ huser, hexpires ▸ hearly, fun r hr => ?_⟩
  rcases hrevoked r hr with hold | hnew
  · exact hnot r hold
  · exact hle.trans hnew

structure Follows (rt : Runtime) (pbkdf2 : Pbkdf2) (t : Tables) (s : Web) : Prop where
  stored : Stored t s.store.1 s.now s.logins
  verified : ∀ v ∈ s.verified, Proven rt pbkdf2 s.store.1.latest v
  logins : ∀ k ∈ s.logins, Proven rt pbkdf2 s.store.1.latest k.verified
  lookups : ∀ l ∈ s.lookups, l.checked ≤ s.now ∧ Found s.logins l
  admitted : ∀ a ∈ s.admitted, a.1.checked ≤ s.now ∧ Found s.logins a.1 ∧
    ∃ user, s.store.1.latest.users.get? a.1.userId = some user ∧ a.2 = cookiePrincipal a.1.userId user

section Steps
variable {rt : Runtime} {pbkdf2 : Pbkdf2} {t : Tables} {s s' : Web} {ttlSeconds : Int}

theorem Proven.kept {t t' : Tables} {v : Verified} (h : Proven rt pbkdf2 t v) (hkept : t.UsersKept t') :
    Proven rt pbkdf2 t' v := by
  obtain ⟨user, hget, hrest⟩ := h
  exact ⟨user, hkept _ _ hget, hrest⟩

/-- A step of the store, with what it adds to the log of logins. -/
theorem Follows.advance (h : Follows rt pbkdf2 t s) {store : Pool Tables × Cache} {now : Time} {logins : List Login}
    (hstored : Stored t store.1 now logins) (hkept : s.store.1.latest.UsersKept store.1.latest) (hle : s.now ≤ now)
    (hlater : Later s.now s.logins logins) (hlogins : ∀ k ∈ logins, Proven rt pbkdf2 store.1.latest k.verified) :
    Follows rt pbkdf2 t {s with store := store, now := now, logins := logins} := by
  refine ⟨hstored, fun v hv => (h.verified v hv).kept hkept, hlogins, fun l hl => ?_, fun a ha => ?_⟩
  · obtain ⟨hchecked, hfound⟩ := h.lookups l hl
    exact ⟨hchecked.trans hle, hfound.later hchecked hlater⟩
  · obtain ⟨hchecked, hfound, user, huser, hprincipal⟩ := h.admitted a ha
    exact ⟨hchecked.trans hle, hfound.later hchecked hlater, user, hkept _ _ huser, hprincipal⟩

/-- A call with the same logins. -/
theorem Follows.quiet (h : Follows rt pbkdf2 t s) {request : Request} (hother : request.onSessions = false) {now : Time}
    (hle : s.now ≤ now) : Follows rt pbkdf2 t {s with store := (pooledCall rt request s.store).2, now := now} := by
  have hkept := (sessionsKept_pooledCall rt hother s.store).2
  exact h.advance (h.stored.call hother hle) hkept hle (.refl _ _) fun k hk => (h.logins k hk).kept hkept

/-! ### One step -/

theorem findSession_call (rt : Runtime) (cookie : String) (checked seen : Time) (store : Pool Tables × Cache) :
    (findSession rt cookie checked seen store).2 = (pooledCall rt (.getSession cookie checked seen) store).2 ∧
      ∀ row, (findSession rt cookie checked seen store).1 = some row ↔
        (pooledCall rt (.getSession cookie checked seen) store).1 = .session (some row) := by
  unfold findSession
  generalize pooledCall rt (.getSession cookie checked seen) store = after
  obtain ⟨outcome, after⟩ := after
  cases outcome <;> simp

theorem userPrincipal_call (rt : Runtime) (userId : Int) (store : Pool Tables × Cache) :
    (userPrincipal rt userId store).2 = (pooledCall rt (.getUserById userId) store).2 ∧
      ∀ principal, (userPrincipal rt userId store).1 = some principal → ∃ id user,
        (pooledCall rt (.getUserById userId) store).1 = .user (some (id, user)) ∧
          principal = cookiePrincipal id user := by
  unfold userPrincipal
  generalize pooledCall rt (.getUserById userId) store = after
  obtain ⟨outcome, after⟩ := after
  cases outcome with
  | user row =>
    cases row with
    | none => exact ⟨rfl, fun _ h => by cases h⟩
    | some row => exact ⟨rfl, fun principal h => ⟨row.1, row.2, rfl, (Option.some.inj h).symm⟩⟩
  | _ => exact ⟨rfl, fun _ h => by cases h⟩

theorem verifyCredentials_call (rt : Runtime) (pbkdf2 : Pbkdf2) (email : String) (password : PyString)
    (store : Pool Tables × Cache) :
    (verifyCredentials rt pbkdf2 email password store).2 = (pooledCall rt (.getUserByEmail email) store).2 ∧
      ∀ row, (verifyCredentials rt pbkdf2 email password store).1 = some row →
        (pooledCall rt (.getUserByEmail email) store).1 = .user (some row) ∧ row.2.isActive ≠ 0 ∧
          verifyPassword pbkdf2 password row.2.passwordHash = true := by
  unfold verifyCredentials
  generalize pooledCall rt (.getUserByEmail email) store = after
  obtain ⟨outcome, after⟩ := after
  cases outcome with
  | user row =>
    cases row with
    | none => exact ⟨rfl, fun _ h => by cases h⟩
    | some row =>
      refine ⟨rfl, fun row' h => ?_⟩
      obtain ⟨hpassed, hsame⟩ := Option.ite_none_right_eq_some.mp h
      cases hsame
      exact ⟨rfl, hpassed⟩
  | _ => exact ⟨rfl, fun _ h => by cases h⟩

/-- A query for a user is answered from a table all of whose users are in the one with all writes. -/
theorem Stored.asked {store : Pool Tables × Cache} {now : Time} {logins : List Login} (h : Stored t store.1 now logins)
    {request : Request} {ask : Tables → Option (Int × UserRow)}
    (hplan : authStore rt request store.2 = keeping store.2 (.query ask fun row => .done (.user row)))
    {row : Int × UserRow} (hfound : (pooledCall rt request store).1 = .user (some row)) :
    ∃ view : Tables, view.UsersKept store.1.latest ∧ ask view = some row := by
  by_cases hclear : store.1.Clear store.1.next
  · have hread := (pooledCall_clear hplan hclear).1
    exact ⟨store.1.latest, fun _ _ hget => hget, Outcome.user.inj (hread.symm.trans hfound)⟩
  · obtain ⟨-, hfailed | ⟨-, hread⟩⟩ := pooledCall_blocked (p := store.1) hplan hclear
    · cases hfailed.symm.trans hfound
    · exact ⟨store.1.committed, h.committed ▸ h.users, Outcome.user.inj (hread.symm.trans hfound)⟩

theorem Follows.verifyCredentials (h : Follows rt pbkdf2 t s) (email : String) (password : PyString) :
    Follows rt pbkdf2 t (s.verifyCredentials rt pbkdf2 email password) := by
  obtain ⟨hstore, hfound⟩ := verifyCredentials_call rt pbkdf2 email password s.store
  have hother : (Request.getUserByEmail email).onSessions = false := rfl
  have hkept := (sessionsKept_pooledCall rt hother s.store).2
  have hquiet := h.quiet hother (le_refl s.now)
  rw [← hstore] at hquiet hkept
  refine ⟨hquiet.stored, fun v hv => ?_, hquiet.logins, hquiet.lookups, hquiet.admitted⟩
  rcases List.mem_append.mp hv with hnew | hold
  · obtain ⟨row, hrow, rfl⟩ := List.mem_map.mp hnew
    obtain ⟨hcall, hactive, hpassword⟩ := hfound row (Option.mem_toList.mp hrow)
    obtain ⟨view, hview, hask⟩ := h.stored.asked rfl hcall
    have hmem := Dict.mem_entries.mp (List.mem_of_find?_eq_some hask)
    have hemail : decide (row.2.email = normalizeEmail rt email) = true :=
      List.find?_some (p := fun entry : Int × UserRow => decide (entry.2.email = normalizeEmail rt email)) hask
    exact ⟨row.2, hkept _ _ (hview _ _ hmem), of_decide_eq_true hemail, hactive, hpassword⟩
  · exact hquiet.verified v hold

theorem Follows.createSession (h : Follows rt pbkdf2 t s) {index : Nat} {id csrfId : Uuid} {secret csrfSecret : String}
    {now : Time} (hstep : s.createSession rt ttlSeconds index id csrfId secret csrfSecret now = some s') :
    Follows rt pbkdf2 t s' := by
  unfold Web.createSession at hstep
  split at hstep
  · cases hstep
  · rename_i verified hverified
    obtain ⟨hle, hsame⟩ := Option.ite_none_right_eq_some.mp hstep
    cases hsame
    obtain ⟨hstored, hkept⟩ := h.stored.create rt verified ttlSeconds id csrfId secret csrfSecret hle
    have hproven := h.verified verified (List.mem_of_getElem? hverified)
    have hnext := h.advance hstored hkept hle (later_issued _ _ _ _) fun k hk => by
      unfold issued at hk
      split at hk
      · rcases List.mem_cons.mp hk with rfl | hk
        · exact hproven.kept hkept
        · exact (h.logins k hk).kept hkept
      · exact (h.logins k hk).kept hkept
    exact ⟨hnext.stored, fun v hv => hnext.verified v (List.mem_of_mem_eraseIdx hv), hnext.logins, hnext.lookups,
      hnext.admitted⟩

theorem Follows.getSession (h : Follows rt pbkdf2 t s) {cookie : String} {checked seen : Time}
    (hstep : s.getSession rt cookie checked seen = some s') : Follows rt pbkdf2 t s' := by
  obtain ⟨⟨hle, hseen⟩, hsame⟩ := Option.ite_none_right_eq_some.mp hstep
  cases hsame
  obtain ⟨hstore, hfound⟩ := findSession_call rt cookie checked seen s.store
  obtain ⟨hfinds, hstored, hkept⟩ := h.stored.get rt cookie hle hseen
  have hnext := h.advance hstored hkept (hle.trans hseen) (.refl _ _) fun k hk => (h.logins k hk).kept hkept
  rw [← hstore] at hnext
  refine ⟨hnext.stored, hnext.verified, hnext.logins, fun l hl => ?_, hnext.admitted⟩
  rcases List.mem_append.mp hl with hnew | hold
  · obtain ⟨row, hrow, rfl⟩ := List.mem_map.mp hnew
    obtain ⟨-, hget, -, hnot, hearly⟩ := (hfinds row).mp ((hfound row).mp (Option.mem_toList.mp hrow))
    obtain ⟨k, hk, hid, hmatches⟩ := h.stored.rows cookie row.2 hget
    refine ⟨hseen, k, hk, hid, hmatches.userId, hmatches.expiresAt ▸ hearly, fun r hr => ?_⟩
    have hrevoked := hmatches.revoked
    rw [hnot, Option.mem_def.mp hr] at hrevoked
    cases hrevoked
  · exact hnext.lookups l hold

theorem Follows.getUser (h : Follows rt pbkdf2 t s) {index : Nat} (hstep : s.getUser rt index = some s') :
    Follows rt pbkdf2 t s' := by
  unfold Web.getUser at hstep
  split at hstep
  · cases hstep
  · rename_i lookup hlookup
    cases hstep
    obtain ⟨hstore, hfound⟩ := userPrincipal_call rt lookup.userId s.store
    have hother : (Request.getUserById lookup.userId).onSessions = false := rfl
    have hkept := (sessionsKept_pooledCall rt hother s.store).2
    have hnext := h.quiet hother (le_refl s.now)
    rw [← hstore] at hnext hkept
    refine ⟨hnext.stored, hnext.verified, hnext.logins, fun l hl => hnext.lookups l (List.mem_of_mem_eraseIdx hl),
      fun a ha => ?_⟩
    rcases List.mem_append.mp ha with hnew | hold
    · obtain ⟨principal, hprincipal, rfl⟩ := List.mem_map.mp hnew
      obtain ⟨id, user, hcall, rfl⟩ := hfound principal (Option.mem_toList.mp hprincipal)
      obtain ⟨view, hview, hask⟩ := h.stored.asked rfl hcall
      obtain ⟨row, hrow, heq⟩ := Option.map_eq_some_iff.mp hask
      cases heq
      obtain ⟨hchecked, hsession⟩ := h.lookups lookup (List.mem_of_getElem? hlookup)
      exact ⟨hchecked, hsession, user, hkept _ _ (hview _ _ hrow), rfl⟩
    · exact hnext.admitted a hold

theorem Follows.call (h : Follows rt pbkdf2 t s) {request : Request} (hstep : s.call rt request = some s') :
    Follows rt pbkdf2 t s' := by
  cases request with
  | createSession => cases hstep
  | getSession => cases hstep
  | revokeSession id now =>
    obtain ⟨now', hclock, rfl⟩ := Option.map_eq_some_iff.mp hstep
    obtain ⟨hle, hsame⟩ := Option.ite_none_right_eq_some.mp hclock
    cases hsame
    obtain ⟨hstored, hkept⟩ := h.stored.logout rt id hle
    refine h.advance hstored hkept hle (later_logout hle _ _ _) fun k hk => ?_
    have hverified : ∃ k' ∈ s.logins, k.verified = k'.verified := by
      unfold loggedOut at hk
      split at hk
      · obtain ⟨k', hk', rfl⟩ := List.mem_map.mp hk
        refine ⟨k', hk', ?_⟩
        split <;> rfl
      · exact ⟨k, hk, rfl⟩
    obtain ⟨k', hk', hsame⟩ := hverified
    rw [hsame]
    exact (h.logins k' hk').kept hkept
  | _ =>
    simp only [Web.call, Option.map_eq_some_iff] at hstep
    obtain ⟨now, hclock, rfl⟩ := hstep
    exact h.quiet rfl (clock_le hclock)

theorem Follows.step (h : Follows rt pbkdf2 t s) {e : WebEvent}
    (hstep : (web rt pbkdf2 ttlSeconds t).step e s = some s') :
    Follows rt pbkdf2 t s' := by
  cases e with
  | verifyCredentials email password =>
    cases hstep
    exact h.verifyCredentials email password
  | createSession index id csrfId secret csrfSecret now => exact h.createSession hstep
  | getSession cookie checked seen => exact h.getSession hstep
  | getUser index => exact h.getUser hstep
  | call request => exact h.call hstep

theorem follows_reachable (h : (web rt pbkdf2 ttlSeconds t).Reachable anything s) : Follows rt pbkdf2 t s := by
  refine System.reachable_invariant (fun s hs => ?_) (fun _ _ _ hs _ hstep => hs.step hstep) h
  obtain ⟨hfresh, start, hpositive, rfl⟩ := hs
  refine ⟨⟨rfl, hfresh, hpositive, fun _ _ hget => hget, fun id row hget => ?_, fun k hk => absurd hk List.not_mem_nil⟩,
    fun v hv => absurd hv List.not_mem_nil, fun k hk => absurd hk List.not_mem_nil,
      fun l hl => absurd hl List.not_mem_nil,
    fun a ha => absurd ha List.not_mem_nil⟩
  have hnone : t.sessions.get? id = none := by
    rw [hfresh]
    rfl
  cases hnone.symm.trans hget

/-- **A cookie lets in whoever logged in, and nobody else.** Whatever calls come in between: who was let in is
the user of a login that created the session with that user's password, the session had not expired at the lookup, and
no logout of it had succeeded. A lookup finds exactly the sessions of such logins if it runs on the connection with the
write transaction, and none on another. -/
theorem cookies_sound (h : (web rt pbkdf2 ttlSeconds t).Reachable anything s) :
    (∀ a ∈ s.admitted, ∃ k ∈ s.logins, ∃ user, k.id = a.1.cookie ∧ a.1.checked < k.expiresAt ∧
      (∀ r ∈ k.revokedAt, a.1.checked ≤ r) ∧ a.2 = cookiePrincipal k.verified.userId user ∧
      s.store.1.latest.users.get? k.verified.userId = some user ∧ user.email = normalizeEmail rt k.verified.email ∧
      user.isActive ≠ 0 ∧ verifyPassword pbkdf2 k.verified.password user.passwordHash = true) ∧
    ∀ cookie checked seen, s.now ≤ checked → checked ≤ seen →
      ((∃ row, (findSession rt cookie checked seen s.store).1 = some row) ↔ s.store.1.Clear s.store.1.next ∧
        ∃ k ∈ s.logins, k.id = cookie ∧ k.revokedAt = none ∧ checked < k.expiresAt) := by
  have hfollows := follows_reachable h
  refine ⟨fun a ha => ?_, fun cookie checked seen hle hseen => ?_⟩
  · obtain ⟨-, hfound, user, huser, hprincipal⟩ := hfollows.admitted a ha
    obtain ⟨k, hk, hid, howner, hearly, hnot⟩ := hfound
    obtain ⟨user', huser', hemail, hactive, hpassword⟩ := hfollows.logins k hk
    rw [← howner] at huser hprincipal
    cases huser.symm.trans huser'
    exact ⟨k, hk, user, hid, hearly, hnot, hprincipal, huser, hemail, hactive, hpassword⟩
  · obtain ⟨-, hfound⟩ := findSession_call rt cookie checked seen s.store
    obtain ⟨hfinds, -, -⟩ := hfollows.stored.get rt cookie hle hseen
    constructor
    · intro hsome
      obtain ⟨row, hrow⟩ := hsome
      obtain ⟨hclear, hget, -, hnot, hearly⟩ := (hfinds row).mp ((hfound row).mp hrow)
      obtain ⟨k, hk, hid, hmatches⟩ := hfollows.stored.rows cookie row.2 hget
      refine ⟨hclear, k, hk, hid, ?_, hmatches.expiresAt ▸ hearly⟩
      rw [← Option.not_isSome_iff_eq_none, hmatches.revoked, hnot]
      exact Bool.false_ne_true
    · intro hall
      obtain ⟨hclear, k, hk, rfl, hnot, hearly⟩ := hall
      obtain ⟨row, hget, hmatches⟩ := hfollows.stored.live k hk hnot (hle.trans_lt hearly)
      have hunrevoked : isRevoked row.revokedAt = false := by
        rw [← hmatches.revoked, hnot]
        rfl
      exact ⟨(k.id, row), (hfound _).mpr ((hfinds _).mpr
        ⟨hclear, hget, rfl, hunrevoked, hmatches.expiresAt ▸ hearly⟩)⟩

end Steps

/-- A derivation that does not look at the password. -/
def zeros : Pbkdf2 := fun _ _ _ dklen => some ⟨List.replicate dklen 0, List.length_replicate⟩

/-- On a database without users, where every other call is three calls later on the connection that wrote first. -/
def firstCookie : List WebEvent :=
  let others : List WebEvent := List.replicate 3 (.call .userCount)
  [.call (.createUser "ada@example.org" "pbkdf2_sha256$1$AA$AA" true 1)] ++ others ++
    [.verifyCredentials "ada@example.org" []] ++ others ++ [.createSession 0 uuid uuid "s" "c" 2] ++ others ++
    [.getSession uuid.hex 3 3] ++ others ++ [.getUser 0, .call (.revokeSession uuid.hex 4)]

theorem cookies_sound_first : ∃ s a, (web plainRuntime zeros 3600 Tables.empty).Reachable anything s ∧
    s.admitted = [a] ∧
    ∃ k ∈ s.logins, k.id = a.1.cookie ∧ a.1.checked < k.expiresAt ∧ a.2.userId = some k.verified.userId := by
  have hrun : ((web plainRuntime zeros 3600 Tables.empty).run { store := (opened Tables.empty, Dict.empty), now := 1 }
      firstCookie).map (fun s => s.admitted.map fun a => (a.1.cookie, a.1.checked, a.2.email)) =
        some [(uuid.hex, 3, some "ada@example.org")] := by decide +kernel
  obtain ⟨s, hs, hadmitted⟩ := Option.map_eq_some_iff.mp hrun
  obtain ⟨a, rest, hlist, -, hrest⟩ := List.map_eq_cons_iff.mp hadmitted
  rw [List.map_eq_nil_iff] at hrest
  subst hrest
  have hreachable := System.run_reachable (S := web plainRuntime zeros 3600 Tables.empty)
    ⟨rfl, 1, by decide +kernel, rfl⟩ hs
  obtain ⟨k, hk, user, hid, hearly, -, hprincipal, -⟩ := (cookies_sound hreachable).1 a (hlist ▸ List.mem_cons_self)
  refine ⟨s, a, hreachable, hlist, k, hk, hid, hearly, ?_⟩
  rw [hprincipal]
  rfl

end SynQc.Auth
