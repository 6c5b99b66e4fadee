import SynQc.Auth.Store

/-! Who a request is from: `get_principal`, `require_scopes` and `require_csrf`.

The dependencies read headers and cookies, and ask the auth store. What the store is does
not matter to them, so it is a function here that answers one call at a time. -/
namespace SynQc.Auth

inductive PrincipalKind where
  | anonymous
  | apiKeyAdmin
  | userSession
  | apiToken
  deriving DecidableEq

/-- `scopes` is a set in the source. -/
structure Principal where
  kind : PrincipalKind
  userId : Option Int
  email : Option String
  isAdmin : Bool
  scopes : List String
  deriving DecidableEq

/-- The settings that authentication reads. -/
structure Settings where
  apiKey : Option String := none
  requireApiKey : Bool := true
  authRequired : Bool := false

/-- A string that is a condition, where it is true. -/
def nonempty? (text : Option String) : Option String :=
  match text with
  | some text => if text = "" then none else some text
  | none => none

theorem nonempty?_some {text : Option String} {s : String} (h : nonempty? text = some s) : text = some s ∧ s ≠ "" := by
  cases text with
  | none => cases h
  | some text =>
    simp only [nonempty?] at h
    split at h
    · cases h
    · rename_i hne
      cases h
      exact ⟨rfl, hne⟩

theorem nonempty?_of_ne {s : String} (h : s ≠ "") : nonempty? (some s) = some s := if_neg h

def Settings.key? (settings : Settings) : Option String := nonempty? settings.apiKey

/-- Headers and cookies. -/
structure HttpRequest where
  authorization : Option String := none
  xApiKey : Option String := none
  sessionCookie : Option String := none
  csrfCookie : Option String := none
  csrfHeader : Option String := none

structure HttpError where
  status : Nat
  code : String
  message : Option String := none
  missing : List String := []
  deriving DecidableEq

/-- How a request fails: with a response, or with an exception that nothing handles. -/
inductive Failure where
  | http (error : HttpError)
  | server (text : String)
  deriving DecidableEq

def unauthorized : Failure := .http { status := 401, code := "unauthorized", message := some "Authentication required" }

def missingScope (missing : List String) : Failure := .http { status := 403, code := "missing_scope", missing := missing }

def csrfFailed : Failure := .http { status := 403, code := "csrf_failed", message := some "Missing/invalid CSRF token" }

/-- `_parse_bearer` -/
def parseBearer (rt : Runtime) (authorization : Option String) : Option String :=
  match nonempty? authorization with
  | none => none
  | some text =>
    if ' ' ∉ text.toList then none
    else if rt.lower (String.ofList (text.toList.takeWhile (· ≠ ' '))) ≠ "bearer" then none
    else nonempty? (some (rt.strip (String.ofList ((text.toList.dropWhile (· ≠ ' ')).drop 1))))

def authRequired (settings : Settings) : Bool := settings.key?.isSome || settings.authRequired

/-- The clock readings of the store's calls. -/
structure Readings where
  sessionChecked : Time
  sessionSeen : Time
  now : Time
  checked : Time
  used : Time

section Store
variable {τ : Type} (call : Request → τ → Outcome × τ) (rt : Runtime) (settings : Settings) (clock : Readings)
  (r : HttpRequest)

def apiKeyAdmin : Principal := ⟨.apiKeyAdmin, none, none, true, ["*"]⟩

def anonymous : Principal := ⟨.anonymous, none, none, false, []⟩

/-- Whether one of the two headers has the API key. -/
def presentsKey : Bool :=
  match settings.key? with
  | some key => r.xApiKey = some key || parseBearer rt r.authorization = some key
  | none => false

/-- The principal of the session cookie. -/
def sessionPrincipal (store : τ) : Except Failure (Option Principal) × τ :=
  match nonempty? r.sessionCookie with
  | none => (.ok none, store)
  | some sessionId =>
    match call (.getSession sessionId clock.sessionChecked clock.sessionSeen) store with
    | (.session (some (_, sess)), store) =>
      match call (.getUserById sess.userId) store with
      | (.user (some (id, user)), store) =>
        (.ok (some ⟨.userSession, some id, some user.email, user.isAdmin ≠ 0, ["*"]⟩), store)
      | (.raised error, store) => (.error (.server error.text), store)
      | (_, store) => (.ok none, store)
    | (.raised error, store) => (.error (.server error.text), store)
    | (_, store) => (.ok none, store)

/-- The principal of an accepted token. -/
def Payload.principal (info : Payload) : Principal where
  kind := .apiToken
  userId := some info.userId
  email := some info.email
  isAdmin := info.isAdmin
  scopes := if info.isAdmin then "*" :: info.scopes else info.scopes

/-- The principal of the bearer token. -/
def tokenPrincipal (store : τ) : Except Failure (Option Principal) × τ :=
  match parseBearer rt r.authorization with
  | none => (.ok none, store)
  | some bearer =>
    match call (.verifyApiToken bearer clock.now clock.checked clock.used) store with
    | (.principal (some info), store) => (.ok (some info.principal), store)
    | (.raised error, store) => (.error (.server error.text), store)
    | (_, store) => (.ok none, store)

def getPrincipal (store : τ) : Except Failure Principal × τ :=
  if presentsKey rt settings r then (.ok apiKeyAdmin, store)
  else
    match sessionPrincipal call clock r store with
    | (.error failure, store) => (.error failure, store)
    | (.ok (some principal), store) => (.ok principal, store)
    | (.ok none, store) =>
      match tokenPrincipal call rt clock r store with
      | (.error failure, store) => (.error failure, store)
      | (.ok (some principal), store) => (.ok principal, store)
      | (.ok none, store) =>
        if ¬authRequired settings then (.ok anonymous, store) else (.error unauthorized, store)

end Store

def requireScopes (settings : Settings) (required : List String) (principal : Principal) : Except Failure Principal :=
  if ¬authRequired settings then .ok principal
  else if principal.kind = .anonymous then .error unauthorized
  else if "*" ∈ principal.scopes then .ok principal
  else
    let missing := required.filter fun scope => scope ∉ principal.scopes
    if missing ≠ [] then .error (missingScope missing) else .ok principal

section Store
variable {τ : Type} (call : Request → τ → Outcome × τ) (rt : Runtime) (settings : Settings) (clock : Readings)
  (r : HttpRequest)

/-- `Depends(require_scopes(scope))` -/
def principalLayer (scope : String) (store : τ) : Except Failure Principal × τ :=
  match getPrincipal call rt settings clock r store with
  | (.error failure, store) => (.error failure, store)
  | (.ok principal, store) => (requireScopes settings [scope] principal, store)

end Store

/-- The store of a process: its pool and its token cache. -/
def pooledCall (rt : Runtime) (request : Request) (store : Sql.Pool Tables × Cache) :
    Outcome × (Sql.Pool Tables × Cache) :=
  let after := (authStore rt request store.2).call store.1
  (after.1.1, (after.2, after.1.2))

/-- `require_csrf`, of a request with an unsafe method. -/
def requireCsrf (r : HttpRequest) : Except Failure Unit :=
  match nonempty? r.sessionCookie with
  | none => .ok ()
  | some _ =>
    match nonempty? r.csrfCookie, nonempty? r.csrfHeader with
    | some cookie, some header => if cookie ≠ header then .error csrfFailed else .ok ()
    | _, _ => .error csrfFailed

/-- With authentication on, one scope is enough if the principal has it, or all. -/
theorem requireScopes_ok (settings : Settings) (principal : Principal) (scope : String) :
    requireScopes settings [scope] principal = .ok principal ↔
      authRequired settings = false ∨
        (principal.kind ≠ .anonymous ∧ ("*" ∈ principal.scopes ∨ scope ∈ principal.scopes)) := by
  rw [requireScopes]
  cases authRequired settings with
  | false => simp
  | true =>
    by_cases hkind : principal.kind = .anonymous
    · simp [hkind]
    · by_cases hall : "*" ∈ principal.scopes
      · simp [hkind, hall]
      · by_cases hscope : scope ∈ principal.scopes
        · simp [hkind, hall, hscope]
        · simp [hkind, hall, hscope]

theorem requireScopes_cases (settings : Settings) (required : List String) (principal : Principal) :
    requireScopes settings required principal = .ok principal ∨
      ∃ failure, requireScopes settings required principal = .error failure := by
  simp only [requireScopes]
  split
  · exact .inl rfl
  · split
    · exact .inr ⟨_, rfl⟩
    · split
      · exact .inl rfl
      · split
        · exact .inr ⟨_, rfl⟩
        · exact .inl rfl

end SynQc.Auth
