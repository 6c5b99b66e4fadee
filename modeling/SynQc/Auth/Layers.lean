import SynQc.Auth.Credentials

/-! The layers in front of `POST /experiments/run`.

`ApiKeyAuthMiddleware` and `require_api_key` read settings and headers only, so a request
passes them on a condition of these (`Opened`): with an API key configured, `X-Api-Key`
has it; without one, authentication is off. The principal layer takes more: the key as a
bearer token, a session, an API token with the scope (`Holds`). What it takes is a matter of
headers, of rows, and of the connections that the store's calls come to. -/
namespace SynQc.Auth
open Sql

/-- `ApiKeyAuthMiddleware.dispatch`. Without a key the middleware is not added. -/
def apiKeyMiddleware (settings : Settings) (r : HttpRequest) : Except Failure Unit :=
  match settings.key? with
  | none => .ok ()
  | some key =>
    if r.xApiKey.getD "" ≠ key then
      .error (.http { status := 401, code := "unauthorized", message := some "Missing or invalid API key." })
    else .ok ()

/-- `secrets.compare_digest`, which compares ASCII strings only. -/
def compareDigest (a b : String) : Except Failure Bool :=
  if (a.toList ++ b.toList).all (fun c => c.toNat < 128) then .ok (a = b)
  else .error (.server "comparing strings with non-ASCII characters is not supported")

/-- `_extract_bearer_token`: `partition` is `split` with an empty token where there is no blank. -/
def extractBearerToken (rt : Runtime) (authorization : Option String) : Option String :=
  match nonempty? authorization with
  | none => none
  | some text =>
    if rt.lower (String.ofList (text.toList.takeWhile (· ≠ ' '))) ≠ "bearer" then none
    else nonempty? (some (rt.strip (String.ofList ((text.toList.dropWhile (· ≠ ' ')).drop 1))))

def authRequiredError (message : String) : Failure := .http { status := 401, code := "AUTH_REQUIRED", message := some message }

def matchesKey (expected : String) : Option String → Except Failure Bool
  | some presented => compareDigest presented expected
  | none => .ok false

def requireApiKey (rt : Runtime) (settings : Settings) (r : HttpRequest) : Except Failure Unit :=
  if !settings.requireApiKey && !settings.authRequired then .ok ()
  else
    match settings.key? with
    | none =>
      if settings.authRequired then
        .error (authRequiredError "Authentication required. Configure JWT or set SYNQC_API_KEY.")
      else .ok ()
    | some expected =>
      match matchesKey expected (nonempty? r.xApiKey) with
      | .error failure => .error failure
      | .ok true => .ok ()
      | .ok false =>
        match matchesKey expected (extractBearerToken rt r.authorization) with
        | .error failure => .error failure
        | .ok true => .ok ()
        | .ok false =>
          .error (authRequiredError
            "Missing or invalid API credentials. Use X-Api-Key or Authorization: Bearer <token>.")

section Store
variable {τ : Type} (call : Request → τ → Outcome × τ) (rt : Runtime) (settings : Settings) (clock : Readings)
  (r : HttpRequest)

/-- All layers of the route, in order. -/
def runExperimentAuth (store : τ) : Except Failure Principal × τ :=
  match apiKeyMiddleware settings r, requireApiKey rt settings r with
  | .error failure, _ => (.error failure, store)
  | .ok (), .error failure => (.error failure, store)
  | .ok (), .ok () => principalLayer call rt settings clock r "experiments:run" store

end Store

/-! ### The outer layers -/

def ascii (text : String) : Bool := text.toList.all fun c => c.toNat < 128

/-- The request passes the outer layers. -/
def Opened (settings : Settings) (r : HttpRequest) : Prop :=
  match settings.key? with
  | none => settings.authRequired = false
  | some key => r.xApiKey = some key ∧ (ascii key = true ∨ (settings.requireApiKey = false ∧ settings.authRequired = false))

theorem compareDigest_self (key : String) :
    compareDigest key key = if ascii key then .ok true else .error
      (.server "comparing strings with non-ASCII characters is not supported") := by
  have hall : (key.toList ++ key.toList).all (fun c => c.toNat < 128) = ascii key := by
    rw [List.all_append, ascii, Bool.and_self]
  simp only [compareDigest, hall, decide_true]

theorem apiKeyMiddleware_ok (settings : Settings) (r : HttpRequest) :
    apiKeyMiddleware settings r = .ok () ↔ ∀ key, settings.key? = some key → r.xApiKey = some key := by
  rw [apiKeyMiddleware]
  split
  · rename_i hnone
    simp [hnone]
  · rename_i key hkey
    obtain ⟨_, hne⟩ := nonempty?_some hkey
    simp only [hkey, Option.some.injEq, forall_eq']
    cases hx : r.xApiKey with
    | none => simp [hne.symm]
    | some x =>
      by_cases hsame : x = key
      · simp [hsame]
      · simp [hsame]

/-- Past the middleware, the dependency compares the key with itself. -/
theorem requireApiKey_self (rt : Runtime) {settings : Settings} {r : HttpRequest} {key : String}
    (hkey : settings.key? = some key) (hx : r.xApiKey = some key) : requireApiKey rt settings r = .ok () ↔
      (ascii key = true ∨ (settings.requireApiKey = false ∧ settings.authRequired = false)) := by
  obtain ⟨_, hne⟩ := nonempty?_some hkey
  rw [requireApiKey]
  by_cases hoff : settings.requireApiKey = false ∧ settings.authRequired = false
  · simp [hoff]
  · rw [if_neg (by simpa using hoff), hkey, hx, nonempty?_of_ne hne]
    simp only [matchesKey, compareDigest_self, hoff, or_false]
    cases ascii key with
    | true => exact ⟨fun _ => rfl, fun _ => rfl⟩
    | false => exact ⟨nofun, nofun⟩

theorem outer_iff (rt : Runtime) (settings : Settings) (r : HttpRequest) :
    (apiKeyMiddleware settings r = .ok () ∧ requireApiKey rt settings r = .ok ()) ↔ Opened settings r := by
  rw [apiKeyMiddleware_ok, Opened]
  cases hkey : settings.key? with
  | none =>
    simp only [reduceCtorEq, false_imp_iff, implies_true, true_and, requireApiKey, hkey]
    cases settings.requireApiKey <;> cases settings.authRequired <;> simp
  | some key =>
    simp only [Option.some.injEq, forall_eq']
    exact and_congr_right fun hx => requireApiKey_self rt hkey hx

/-! ### The principal layer -/

section Store
variable {τ : Type} (call : Request → τ → Outcome × τ) (rt : Runtime) (settings : Settings) (clock : Readings)
  (r : HttpRequest) (store : τ)

/-- The layer finds the API key, the principal of a session, or that of an API token with the scope. -/
def Identified (scope : String) : Prop :=
  presentsKey rt settings r = true ∨
  (∃ principal, (sessionPrincipal call clock r store).1 = .ok (some principal)) ∨
  ((sessionPrincipal call clock r store).1 = .ok none ∧ ∃ principal,
    (tokenPrincipal call rt clock r (sessionPrincipal call clock r store).2).1 = .ok (some principal) ∧
      ("*" ∈ principal.scopes ∨ scope ∈ principal.scopes))

theorem session_scopes {principal : Principal}
    (h : (sessionPrincipal call clock r store).1 = .ok (some principal)) :
    principal.kind ≠ .anonymous ∧ "*" ∈ principal.scopes := by
  simp only [sessionPrincipal] at h
  split at h
  · cases h
  · split at h
    · split at h
      · cases h
        refine ⟨fun hkind => ?_, List.mem_singleton_self _⟩
        cases hkind
      · cases h
      · cases h
    · cases h
    · cases h

theorem token_kind {principal : Principal}
    (h : (tokenPrincipal call rt clock r store).1 = .ok (some principal)) : principal.kind ≠ .anonymous := by
  simp only [tokenPrincipal] at h
  split at h
  · cases h
  · split at h
    · cases h
      intro hkind
      cases hkind
    · cases h
    · cases h

variable {call rt settings clock r store} in
/-- With authentication on, a principal is admitted for its scopes. -/
theorem requireScopes_admits (hrequired : authRequired settings = true) (principal : Principal) (scope : String) :
    (∃ admitted, requireScopes settings [scope] principal = .ok admitted) ↔
      (principal.kind ≠ .anonymous ∧ ("*" ∈ principal.scopes ∨ scope ∈ principal.scopes)) := by
  have hok := requireScopes_ok settings principal scope
  rw [hrequired] at hok
  rcases requireScopes_cases settings [scope] principal with hsame | ⟨failure, hfailure⟩
  · exact ⟨fun _ => (hok.mp hsame).resolve_left nofun, fun _ => ⟨principal, hsame⟩⟩
  · refine ⟨fun ⟨admitted, hadmitted⟩ => ?_, fun hscopes => ⟨principal, hok.mpr (.inr hscopes)⟩⟩
    cases hfailure.symm.trans hadmitted

/-- With authentication on, the principal layer admits exactly whom it identifies. -/
theorem principalLayer_iff (hrequired : authRequired settings = true) (scope : String) :
    (∃ principal, (principalLayer call rt settings clock r scope store).1 = .ok principal) ↔
      Identified call rt settings clock r store scope := by
  have hsession : ∀ principal, (sessionPrincipal call clock r store).1 = .ok (some principal) →
      principal.kind ≠ .anonymous ∧ "*" ∈ principal.scopes := fun _ => session_scopes call clock r store
  have htoken : ∀ after principal, (tokenPrincipal call rt clock r after).1 = .ok (some principal) →
      principal.kind ≠ .anonymous := fun after _ => token_kind call rt clock r after
  rw [principalLayer, getPrincipal, Identified]
  by_cases hkey : presentsKey rt settings r = true
  · rw [if_pos hkey]
    show (∃ admitted, requireScopes settings [scope] apiKeyAdmin = .ok admitted) ↔ _
    rw [requireScopes_admits hrequired]
    exact ⟨fun _ => .inl hkey, fun _ => ⟨nofun, .inl (List.mem_singleton_self _)⟩⟩
  · rw [if_neg hkey]
    generalize sessionPrincipal call clock r store = result at hsession
    obtain ⟨outcome, after⟩ := result
    cases outcome with
    | error failure => simp [hkey]
    | ok found =>
      cases found with
      | some principal =>
        obtain ⟨hkind, hall⟩ := hsession principal rfl
        show (∃ admitted, requireScopes settings [scope] principal = .ok admitted) ↔ _
        rw [requireScopes_admits hrequired]
        exact ⟨fun _ => .inr (.inl ⟨principal, rfl⟩), fun _ => ⟨hkind, .inl hall⟩⟩
      | none =>
        specialize htoken after
        simp only [hkey, Bool.false_eq_true, false_or]
        generalize tokenPrincipal call rt clock r after = result' at htoken
        obtain ⟨outcome', after'⟩ := result'
        cases outcome' with
        | error failure => simp
        | ok found' =>
          cases found' with
          | some principal =>
            have hkind := htoken principal rfl
            have hadmits := requireScopes_admits hrequired principal scope
            simpa [hkind] using hadmits
          | none => simp [hrequired]

end Store

/-- What the layer identifies is what the request holds. -/
theorem identified_iff (rt : Runtime) (settings : Settings) (clock : Readings) (r : HttpRequest) (p : Pool Tables)
    (cache : Cache) (scope : String) :
    Identified (pooledCall rt) rt settings clock r (p, cache) scope ↔ Holds rt settings clock r p cache scope := by
  rw [Identified, Holds, presentsKey_iff]
  refine or_congr_right ?_
  obtain ⟨hsession, principal, hfound⟩ | ⟨hsession, hblocked, failure, hfailed⟩ |
      ⟨hsession, hfree, q, hnone, hturns, husers, htokens⟩ := @sessionPrincipal_cases rt clock r p cache
  · exact ⟨fun _ => .inl hsession, fun _ => .inl ⟨principal, hfound⟩⟩
  · rw [hfailed]
    constructor
    · rintro (⟨_, ⟨⟩⟩ | ⟨⟨⟩, _⟩)
    · rintro (hsession' | ⟨hfree, -⟩)
      · exact absurd hsession' hsession
      · exact absurd hblocked hfree
  · rw [hnone, tokenPrincipal_iff hturns husers htokens]
    constructor
    · rintro (⟨_, ⟨⟩⟩ | ⟨-, htoken⟩)
      exact .inr ⟨hfree, htoken⟩
    · rintro (hsession' | ⟨-, htoken⟩)
      · exact absurd hsession' hsession
      · exact .inr ⟨rfl, htoken⟩

theorem runExperimentAuth_opened {τ : Type} (call : Request → τ → Outcome × τ) {rt : Runtime} {settings : Settings}
    (clock : Readings) {r : HttpRequest} (store : τ) (h : Opened settings r) :
    runExperimentAuth call rt settings clock r store =
      principalLayer call rt settings clock r "experiments:run" store := by
  obtain ⟨hmiddleware, hdependency⟩ := (outer_iff rt settings r).mpr h
  rw [runExperimentAuth, hmiddleware, hdependency]

theorem runExperimentAuth_closed {τ : Type} (call : Request → τ → Outcome × τ) (rt : Runtime) {settings : Settings}
    (clock : Readings) {r : HttpRequest} (store : τ) (h : ¬Opened settings r) :
    ∃ failure, (runExperimentAuth call rt settings clock r store).1 = .error failure := by
  rw [← outer_iff rt] at h
  rw [runExperimentAuth]
  cases hmiddleware : apiKeyMiddleware settings r with
  | error failure => exact ⟨failure, rfl⟩
  | ok _ =>
    cases hdependency : requireApiKey rt settings r with
    | error failure => exact ⟨failure, rfl⟩
    | ok _ => exact absurd ⟨hmiddleware, hdependency⟩ h

/-- The outer layers are closed only with authentication on. -/
theorem authRequired_of_closed {settings : Settings} {r : HttpRequest} (h : ¬Opened settings r) :
    authRequired settings = true := by
  rw [Opened] at h
  rw [authRequired]
  cases hkey : settings.key? with
  | some key => rfl
  | none =>
    rw [hkey] at h
    exact Bool.of_not_eq_false h

/-- **All layers agree with the principal layer if and only if the outer layers are open to the request, or it carries
nothing that the principal layer accepts**, on the process's own connections and cache whatever is in them. -/
theorem layers_agree (rt : Runtime) (settings : Settings) (clock : Readings) (r : HttpRequest) (p : Pool Tables)
    (cache : Cache) :
    ((∃ principal, (runExperimentAuth (pooledCall rt) rt settings clock r (p, cache)).1 = .ok principal) ↔
      ∃ principal,
        (principalLayer (pooledCall rt) rt settings clock r "experiments:run" (p, cache)).1 = .ok principal) ↔
    (Opened settings r ∨ ¬Holds rt settings clock r p cache "experiments:run") := by
  by_cases hopened : Opened settings r
  · rw [runExperimentAuth_opened (pooledCall rt) clock (p, cache) hopened]
    exact ⟨fun _ => .inl hopened, fun _ => Iff.rfl⟩
  · obtain ⟨failure, hclosed⟩ := runExperimentAuth_closed (pooledCall rt) rt clock (p, cache) hopened
    rw [principalLayer_iff (pooledCall rt) rt settings clock r (p, cache) (authRequired_of_closed hopened),
      identified_iff, hclosed]
    have hnone : ¬∃ principal, (Except.error failure : Except Failure Principal) = .ok principal := nofun
    rw [iff_false_left hnone]
    exact ⟨.inr, fun h => h.resolve_left hopened⟩

/-- The API key as a bearer token: the principal layer takes it, the middleware does not look at it. -/
theorem bearer_key_refused : ∃ settings r,
    (∃ principal, (principalLayer (pooledCall plainRuntime) plainRuntime settings ⟨1, 1, 1, 1, 1⟩ r "experiments:run"
      (opened Tables.empty, Dict.empty)).1 = .ok principal) ∧
    (runExperimentAuth (pooledCall plainRuntime) plainRuntime settings ⟨1, 1, 1, 1, 1⟩ r
      (opened Tables.empty, Dict.empty)).1 =
        .error (.http { status := 401, code := "unauthorized", message := some "Missing or invalid API key." }) :=
  ⟨{ apiKey := some "k3y" }, { authorization := some "bearer k3y" }, ⟨apiKeyAdmin, by decide +kernel⟩,
    by decide +kernel⟩

end SynQc.Auth
