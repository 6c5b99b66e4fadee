import SynQc.Auth.Deps
import SynQc.Auth.Tokens

/-! Minting: `POST /auth/tokens`, and what its tokens can be used for.

The route asks for the scope `tokens:write` and stores the scopes of the body as they are,
so a token's scopes have nothing to do with those of the token that was presented. The
system here is one holder: its requests present the first token and what they minted so
far, to this route or another, over the process's pool and cache. -/
namespace SynQc.Auth.Minting
open Sql Transition

/-- A body of the route. Scopes that are left out are `["*"]`. -/
structure Body where
  label : Option String := none
  scopes : Option (List String) := none
  expiresInSeconds : Option Int := none

/-- A body that passed `TokenCreateRequest`. -/
structure TokenCreateRequest where
  label : Option String
  scopes : List String
  expiresInSeconds : Option Int

/-- The `_scopes` validator. -/
def cleanScopes (rt : Runtime) (v : List String) : List String :=
  let out := (v.filter fun s => s ≠ "" ∧ rt.strip s ≠ "").map rt.strip
  if out = [] then ["*"] else out

def Body.cleaned (rt : Runtime) (body : Body) : List String :=
  match body.scopes with
  | some v => cleanScopes rt v
  | none => ["*"]

/-- The fields of a body, checked; nothing where FastAPI answers 422. -/
def tokenCreateRequest (rt : Runtime) (body : Body) : Option TokenCreateRequest :=
  if body.label.any (fun label => 80 < label.length) then none
  else if body.expiresInSeconds.any (· < 60) then none
  else some ⟨body.label, body.cleaned rt, body.expiresInSeconds⟩

structure Config where
  rt : Runtime
  settings : Settings

abbrev Store := Pool Tables × Cache

def unprocessable : Failure := .http { status := 422, code := "validation_error" }

/-- The draws and clock readings of one `create_token`. -/
structure Draws where
  id : Uuid
  secret : String
  asked : Time
  now : Time

def createToken (cfg : Config) (clock : Readings) (r : HttpRequest) (body : Body) (draws : Draws) (store : Store) :
    Except Failure String × Store :=
  match requireCsrf r with
  | .error failure => (.error failure, store)
  | .ok () =>
    match principalLayer (pooledCall cfg.rt) cfg.rt cfg.settings clock r "tokens:write" store with
    | (.error failure, store) => (.error failure, store)
    | (.ok principal, store) =>
      match tokenCreateRequest cfg.rt body, principal.userId with
      | none, _ => (.error unprocessable, store)
      | some _, none => (.error (.http { status := 401, code := "unauthorized" }), store)
      | some req, some userId =>
        let expiresAt := req.expiresInSeconds.map fun (seconds : Int) => draws.asked + seconds
        match pooledCall cfg.rt (.createApiToken userId req.scopes req.label expiresAt draws.id draws.secret draws.now)
            store with
        | (.newToken token _, store) => (.ok token, store)
        | (.raised error, store) => (.error (.server error.text), store)
        | (_, store) => (.error (.server ""), store)

/-! ### The routes beside it -/

structure UserOut where
  id : Int
  email : String
  isAdmin : Bool
  createdAt : Time
  deriving DecidableEq

/-- `_user_out` -/
def userOut (id : Int) (user : UserRow) : UserOut := ⟨id, user.email, user.isAdmin ≠ 0, user.createdAt⟩

structure MeResponse where
  kind : PrincipalKind
  user : Option UserOut
  scopes : List String
  deriving DecidableEq

/-- `sorted` of a set. -/
def sorted (scopes : List String) : List String := scopes.dedup.mergeSort

def me (cfg : Config) (clock : Readings) (r : HttpRequest) (store : Store) : Except Failure MeResponse × Store :=
  match getPrincipal (pooledCall cfg.rt) cfg.rt cfg.settings clock r store with
  | (.error failure, store) => (.error failure, store)
  | (.ok principal, store) =>
    if principal.kind = .anonymous then (.ok ⟨.anonymous, none, []⟩, store)
    else
      match principal.userId with
      | none => (.ok ⟨principal.kind, none, sorted principal.scopes⟩, store)
      | some userId =>
        match pooledCall cfg.rt (.getUserById userId) store with
        | (.user (some (id, user)), store) =>
          (.ok ⟨principal.kind, some (userOut id user), sorted principal.scopes⟩, store)
        | (.raised error, store) => (.error (.server error.text), store)
        | (_, store) =>
          (.error (.http { status := 401, code := "unauthorized", message := some "Invalid user" }), store)

/-- `session_logout`, less the cookies it deletes from the browser. -/
def sessionLogout (cfg : Config) (r : HttpRequest) (now : Time) (store : Store) : Except Failure Unit × Store :=
  match nonempty? r.sessionCookie with
  | none => (.ok (), store)
  | some sid =>
    match pooledCall cfg.rt (.revokeSession sid now) store with
    | (.raised error, store) => (.error (.server error.text), store)
    | (_, store) => (.ok (), store)

/-- A route that asks for a scope, and then calls the store for the user. -/
def forUser (cfg : Config) (clock : Readings) (r : HttpRequest) (scope : String) (request : Int → Request)
    (store : Store) : Except Failure Outcome × Store :=
  match principalLayer (pooledCall cfg.rt) cfg.rt cfg.settings clock r scope store with
  | (.error failure, store) => (.error failure, store)
  | (.ok principal, store) =>
    match principal.userId with
    | none => (.error (.http { status := 401, code := "unauthorized" }), store)
    | some userId =>
      match pooledCall cfg.rt (request userId) store with
      | (.raised error, store) => (.error (.server error.text), store)
      | (outcome, store) => (.ok outcome, store)

/-- The answer is `tokens`. -/
def listTokens (cfg : Config) (clock : Readings) (r : HttpRequest) (store : Store) : Except Failure Outcome × Store :=
  forUser cfg clock r "tokens:read" .listApiTokens store

/-- The answer is `revoked`. -/
def revokeToken (cfg : Config) (clock : Readings) (r : HttpRequest) (tokenId : String) (now : Time) (store : Store) :
    Except Failure Outcome × Store :=
  match requireCsrf r with
  | .error failure => (.error failure, store)
  | .ok () => forUser cfg clock r "tokens:write" (fun userId => .revokeApiToken tokenId (some userId) now) store

/-! ### The holder -/

/-- `held` are the tokens in hand, with the scopes they were issued with. -/
structure State where
  store : Store
  held : List (String × List String)

/-- The strings of a request that could be credentials. -/
def credentials (rt : Runtime) (r : HttpRequest) : List String :=
  (nonempty? r.xApiKey).toList ++ (nonempty? r.sessionCookie).toList ++ (parseBearer rt r.authorization).toList

/-- `present` is a route of another router: it asks who the request is from, and no more of the auth store.
`register` and `session_login` read no credential of the request. -/
inductive Event where
  | present (r : HttpRequest) (clock : Readings)
  | me (r : HttpRequest) (clock : Readings)
  | logout (r : HttpRequest) (now : Time)
  | list (r : HttpRequest) (clock : Readings)
  | revoke (r : HttpRequest) (clock : Readings) (tokenId : String) (now : Time)
  | mint (r : HttpRequest) (clock : Readings) (body : Body) (draws : Draws)

def Event.request : Event → HttpRequest
  | .present r _ | .me r _ | .logout r _ | .list r _ | .revoke r _ _ _ | .mint r _ _ _ => r

namespace State

/-- The request presents only tokens in hand. -/
def Presents (s : State) (rt : Runtime) (r : HttpRequest) : Prop :=
  ∀ credential ∈ credentials rt r, credential ∈ s.held.map Prod.fst

instance (s : State) (rt : Runtime) (r : HttpRequest) : Decidable (s.Presents rt r) :=
  inferInstanceAs (Decidable (∀ _ ∈ _, _))

/-- A route that hands out no token. -/
def after {α : Type} (route : Store → α × Store) (s : State) : State := {s with store := (route s.store).2}

def mint (cfg : Config) (r : HttpRequest) (clock : Readings) (body : Body) (draws : Draws) (s : State) : State :=
  match createToken cfg clock r body draws s.store with
  | (.ok token, store) => ⟨store, (token, body.cleaned cfg.rt) :: s.held⟩
  | (.error _, store) => {s with store := store}

end State

/-- Scopes within others, where `*` stands for everything. -/
def Within (scopes among : List String) : Prop := "*" ∈ among ∨ ∀ scope ∈ scopes, scope ∈ among

/-- Whether `require_scopes("tokens:write")` admits a token with these scopes. -/
def MayMint (settings : Settings) (scopes : List String) : Prop :=
  authRequired settings = false ∨ "*" ∈ scopes ∨ "tokens:write" ∈ scopes

/-- Who is not an admin holds a token, on a store that knows it. Both what is committed and what the writing
connection sees are meant; the cache was read from the latter. -/
structure Held (rt : Runtime) (strings : Set String) (owner : Int) (s : State) : Prop where
  token : ∀ h ∈ s.held, h.1 ∈ strings ∧ apiTokenPrefix.toList <+: h.1.toList
  row : ∀ h ∈ s.held, ∃ g, s.store.1.latest.grant (idPart h.1) = some g ∧ g.userId = owner ∧ g.scopes = some h.2
  committed : ∀ h ∈ s.held, ∀ g, s.store.1.committed.grant (idPart h.1) = some g →
    g.userId = owner ∧ g.scopes = some h.2
  kept : ∀ id, s.store.1.latest.grant id = none → s.store.1.committed.grant id = none
  plain : ∀ t ∈ [s.store.1.latest, s.store.1.committed], ∀ user, t.users.get? owner = some user → user.isAdmin = 0
  sessions : ∀ t ∈ [s.store.1.latest, s.store.1.committed], ∀ id row, t.sessions.get? id = some row →
    ¬apiTokenPrefix.toList <+: id.toList
  cached : ∀ hash entry, s.store.2.get? hash = some entry → ∃ token ∈ strings, rt.sha256Hex token = hash ∧
    ∃ g, s.store.1.latest.grant (idPart token) = some g ∧ entry.2.userId = g.userId ∧
      entry.2.scopes = g.scopes.getD [] ∧ (entry.2.userId = owner → entry.2.isAdmin = false)

/-- The requests of a holder of one token, which was issued with some scopes. -/
def minting (cfg : Config) (strings : Set String) (owner : Int) (scopes : List String) : System State Event where
  init s := Held cfg.rt strings owner s ∧ ∃ token, s.held = [(token, scopes)]
  step e s :=
    if s.Presents cfg.rt e.request then
      match e with
      | .present r clock => some (s.after (getPrincipal (pooledCall cfg.rt) cfg.rt cfg.settings clock r))
      | .me r clock => some (s.after (Minting.me cfg clock r))
      | .logout r now => some (s.after (sessionLogout cfg r now))
      | .list r clock => some (s.after (listTokens cfg clock r))
      | .revoke r clock tokenId now => some (s.after (revokeToken cfg clock r tokenId now))
      | .mint r clock body draws => some (s.mint cfg r clock body draws)
    else none

/-- The API key is not a token in hand, what is minted is one of the strings, and a token that may mint asks for
scopes within those of the first. -/
def inScope (cfg : Config) (strings : Set String) (scopes : List String) (e : Event) (s : State) : Prop :=
  (∀ key, cfg.settings.key? = some key → ∀ h ∈ s.held, h.1 ≠ key) ∧
  match e with
  | .present .. | .me .. | .logout .. | .list .. | .revoke .. => True
  | .mint r _ body draws => (makePrefixedToken apiTokenPrefix draws.id draws.secret).1 ∈ strings ∧
    ∀ h ∈ s.held, parseBearer cfg.rt r.authorization = some h.1 → MayMint cfg.settings h.2 →
      Within (body.cleaned cfg.rt) scopes

/-! ### What a holder's request is answered with -/

section Holder
variable {cfg : Config} {strings : Set String} {owner : Int} {scopes : List String} {s u : State}

/-- Users and sessions stay. -/
def Aside (t t' : Tables) : Prop := t'.users = t.users ∧ t'.sessions = t.sessions

theorem latest_mem (store : Store) : store.1.latest ∈ [store.1.latest, store.1.committed] := List.mem_cons_self

theorem committed_mem (store : Store) : store.1.committed ∈ [store.1.latest, store.1.committed] :=
  List.mem_cons_of_mem _ (List.mem_singleton_self _)

/-- Where users and sessions stay, the owner is no admin and no session is named like a token. -/
theorem Held.aside {rt : Runtime} (h : Held rt strings owner s) {pool : Pool Tables}
    (hcommitted : pool.committed = s.store.1.committed) (hlatest : Aside s.store.1.latest pool.latest) :
    (∀ t ∈ [pool.latest, pool.committed], ∀ user, t.users.get? owner = some user → user.isAdmin = 0) ∧
    ∀ t ∈ [pool.latest, pool.committed], ∀ id row, t.sessions.get? id = some row →
      ¬apiTokenPrefix.toList <+: id.toList := by
  have hview : ∀ t ∈ [pool.latest, pool.committed],
      ∃ t' ∈ [s.store.1.latest, s.store.1.committed], Aside t' t := by
    intro t ht
    rcases List.mem_cons.mp ht with rfl | ht
    · exact ⟨_, latest_mem s.store, hlatest⟩
    · rw [List.mem_singleton.mp ht, hcommitted]
      exact ⟨_, committed_mem s.store, rfl, rfl⟩
  refine ⟨fun t ht => ?_, fun t ht => ?_⟩
  · obtain ⟨t', ht', husers, _⟩ := hview t ht
    rw [husers]
    exact h.plain t' ht'
  · obtain ⟨t', ht', _, hsessions⟩ := hview t ht
    rw [hsessions]
    exact h.sessions t' ht'

/-- Whose a token is, and its scopes. -/
def terms (g : Grant) : Int × Option (List String) := (g.userId, g.scopes)

/-- A call of the store that issues nothing. -/
structure Unissued (s : State) (store : Store) : Prop where
  committed : store.1.committed = s.store.1.committed
  grants : ∀ id, (store.1.latest.grant id).map terms = (s.store.1.latest.grant id).map terms
  users : store.1.latest.users = s.store.1.latest.users
  sessions : store.1.latest.sessions = s.store.1.latest.sessions

theorem Unissued.of_latest {store : Store} (hcommitted : store.1.committed = s.store.1.committed)
    (hlatest : store.1.latest = s.store.1.latest) : Unissued s store :=
  ⟨hcommitted, fun _ => by rw [hlatest], by rw [hlatest], by rw [hlatest]⟩

theorem Unissued.grant {store : Store} (h : Unissued s store) {id : String} {g : Grant}
    (hg : s.store.1.latest.grant id = some g) :
    ∃ g', store.1.latest.grant id = some g' ∧ g'.userId = g.userId ∧ g'.scopes = g.scopes := by
  have hterms := h.grants id
  rw [hg, Option.map_some] at hterms
  obtain ⟨g', hg', hsame⟩ := Option.map_eq_some_iff.mp hterms
  obtain ⟨huser, hscopes⟩ := Prod.mk.inj hsame
  exact ⟨g', hg', huser, hscopes⟩

theorem Held.unissued {rt : Runtime} (h : Held rt strings owner s) {store : Store} (hstore : Unissued s store)
    (hcache : ∀ hash entry, store.2.get? hash = some entry → s.store.2.get? hash = some entry ∨
      ∃ token ∈ strings, rt.sha256Hex token = hash ∧ ∃ g, s.store.1.latest.grant (idPart token) = some g ∧
        entry.2.userId = g.userId ∧ entry.2.scopes = g.scopes.getD [] ∧
          (entry.2.userId = owner → entry.2.isAdmin = false)) : Held rt strings owner {s with store := store} := by
  obtain ⟨hplain, hsessions⟩ := h.aside hstore.committed ⟨hstore.users, hstore.sessions⟩
  refine ⟨h.token, fun k hk => ?_, fun k hk => ?_, fun id hid => ?_, hplain, hsessions, fun hash entry hget => ?_⟩
  · obtain ⟨g, hg, howner, hscopes⟩ := h.row k hk
    obtain ⟨g', hg', huser, hsame⟩ := hstore.grant hg
    exact ⟨g', hg', huser.trans howner, hsame.trans hscopes⟩
  · rw [hstore.committed]
    exact h.committed k hk
  · rw [hstore.committed]
    refine h.kept id ?_
    rw [← Option.map_eq_none_iff (f := terms), ← hstore.grants, hid, Option.map_none]
  · have hread : ∃ token ∈ strings, rt.sha256Hex token = hash ∧ ∃ g, s.store.1.latest.grant (idPart token) = some g ∧
        entry.2.userId = g.userId ∧ entry.2.scopes = g.scopes.getD [] ∧
          (entry.2.userId = owner → entry.2.isAdmin = false) := (hcache hash entry hget).elim (h.cached hash entry) id
    obtain ⟨token, htoken, hhash, g, hg, huser, hscopes, hplain⟩ := hread
    obtain ⟨g', hg', huser', hscopes'⟩ := hstore.grant hg
    exact ⟨token, htoken, hhash, g', hg', huser.trans huser'.symm, by rw [hscopes, hscopes'], hplain⟩

/-- A token is no session's id. -/
theorem pooled_getSession {rt : Runtime} (h : Held rt strings owner s) {id : String}
    (hid : apiTokenPrefix.toList <+: id.toList) (checked seen : Time) :
    Unissued s (pooledCall rt (.getSession id checked seen) s.store).2 ∧
    (pooledCall rt (.getSession id checked seen) s.store).2.2 = s.store.2 ∧
    ((pooledCall rt (.getSession id checked seen) s.store).1 = .session none ∨
      ∃ error, (pooledCall rt (.getSession id checked seen) s.store).1 = .raised error) := by
  have hrun : ∀ t ∈ [s.store.1.latest, s.store.1.committed],
      (authStore rt (.getSession id checked seen) s.store.2).run t = ((.session none, s.store.2), t) := by
    intro t ht
    have hnone : t.sessionById id = none := by
      cases hget : t.sessions.get? id with
      | none => rw [Tables.sessionById, hget]; rfl
      | some row => exact absurd hid (h.sessions t ht id row hget)
    simp only [authStore, keeping, Plan.run, Script.run_map, getSession, Script.run]
    rw [hnone]
    rfl
  obtain ⟨hcommitted, hcases⟩ := (authStore rt (.getSession id checked seen) s.store.2).call_cases s.store.1
  simp only [pooledCall]
  rcases hcases with ⟨hresult, hlatest⟩ | ⟨hlatest, hresult⟩
  · rw [hrun _ (latest_mem s.store)] at hresult hlatest
    rw [hresult]
    exact ⟨.of_latest hcommitted hlatest, rfl, .inl rfl⟩
  · have hunissued : Unissued s (((authStore rt (.getSession id checked seen) s.store.2).call s.store.1).2,
        ((authStore rt (.getSession id checked seen) s.store.2).call s.store.1).1.2) :=
      .of_latest hcommitted hlatest
    rcases hresult with hlocked | ⟨_, hread⟩
    · have hpair := Option.some.inj hlocked
      refine ⟨hunissued, ?_, .inr ⟨.locked, ?_⟩⟩
      · rw [← hpair]
      · rw [← hpair]
    · rw [hrun _ (committed_mem s.store)] at hread
      rw [hread] at hunissued ⊢
      exact ⟨hunissued, rfl, .inl rfl⟩

theorem aside_lookup (rt : Runtime) (token : String) (now checked used : Time) (cache : Cache) (t : Tables) :
    Aside t ((lookupApiToken rt token now checked used cache).run t).2 := by
  have hkeeps : (lookupApiToken rt token now checked used cache).Keeps Aside := by
    intro row
    cases row with
    | none => trivial
    | some row =>
      show Script.Keeps _ (if _ then _ else if _ then _ else if _ then _ else _)
      split
      · trivial
      · split
        · trivial
        · split
          · trivial
          · refine ⟨fun t => ⟨Tables.users_updateToken _ _ _ _ t, Tables.sessions_updateToken _ _ _ _ t⟩, fun _ user => ?_⟩
            cases user with
            | none => trivial
            | some user =>
              show Script.Keeps _ (if _ then _ else _)
              split <;> trivial
  exact Script.run_keeps (fun t => ⟨rfl, rfl⟩) (fun t t' t'' h h' => ⟨h'.1.trans h.1, h'.2.trans h.2⟩) hkeeps t

/-- Presented as a bearer, a token in hand is refused, or is its owner with its scopes. -/
theorem run_verify {rt : Runtime} (h : Held rt strings owner s) (hinj : Set.InjOn rt.sha256Hex strings)
    {token : String × List String} (htoken : token ∈ s.held) (now checked used : Time) {t : Tables}
    (ht : t ∈ [s.store.1.latest, s.store.1.committed]) :
    (let after := (authStore rt (.verifyApiToken token.1 now checked used) s.store.2).run t
    Aside t after.2 ∧ (∀ id, after.2.grant id = t.grant id) ∧
    (after.1.1 = .principal none ∨ ∃ info, after.1.1 = .principal (some info) ∧ info.userId = owner ∧
      info.isAdmin = false ∧ info.scopes = token.2) ∧
    ∀ hash entry, after.1.2.get? hash = some entry → s.store.2.get? hash = some entry ∨
      (hash = rt.sha256Hex token.1 ∧ entry.2.userId = owner ∧ entry.2.isAdmin = false ∧ entry.2.scopes = token.2)) := by
  obtain ⟨g, hrow, howner, hscopes⟩ := h.row token htoken
  have hknown : ∀ g', t.grant (idPart token.1) = some g' → g'.userId = owner ∧ g'.scopes = some token.2 := by
    intro g' hg'
    rcases List.mem_cons.mp ht with rfl | ht
    · cases hrow.symm.trans hg'
      exact ⟨howner, hscopes⟩
    · rw [List.mem_singleton.mp ht] at hg'
      exact h.committed token htoken g' hg'
  have hinfo : ∀ info, accepts rt token.1 checked t = some info →
      info.userId = owner ∧ info.isAdmin = false ∧ info.scopes = token.2 := by
    intro info haccepts
    obtain ⟨g', user, hg', huser, rfl⟩ := accepts_some haccepts
    obtain ⟨howner', hscopes'⟩ := hknown g' hg'
    rw [howner'] at huser
    exact ⟨howner', by simp [h.plain t ht user huser], by simp [hscopes']⟩
  simp only [authStore]
  rcases verify_cases rt token.1 now checked used s.store.2 t with
    ⟨_, hrun⟩ | ⟨entry, hentry, _, hrun⟩ | ⟨_, rest, hrest, hrun⟩
  · rw [hrun]
    exact ⟨⟨rfl, rfl⟩, fun _ => rfl, .inl rfl, fun _ _ => .inl⟩
  · rw [hrun]
    refine ⟨⟨rfl, rfl⟩, fun _ => rfl, .inr ⟨entry.2, rfl, ?_⟩, fun _ _ => .inl⟩
    obtain ⟨token', htoken', hhash, g', hg', huser, hsame, hplain⟩ := h.cached _ entry hentry
    have heq : token' = token.1 := hinj htoken' (h.token token htoken).1 hhash
    rw [heq, hrow] at hg'
    cases hg'
    rw [howner] at huser
    rw [hscopes] at hsame
    exact ⟨huser, hplain huser, hsame⟩
  · rw [hrun]
    obtain ⟨hresult, hgranted⟩ := lookup_run rt token.1 now checked used rest t
    rw [hresult]
    refine ⟨aside_lookup rt token.1 now checked used rest t, hgranted.grant, ?_, fun hash entry hget => ?_⟩
    · cases haccepts : accepts rt token.1 checked t with
      | none => exact .inl rfl
      | some info => exact .inr ⟨info, rfl, hinfo info haccepts⟩
    · cases haccepts : accepts rt token.1 checked t with
      | none =>
        rw [haccepts] at hget
        exact .inl (hrest hash entry hget)
      | some info =>
        rw [haccepts] at hget
        change (rest.set _ _).get? hash = some entry at hget
        rw [Dict.get?_set] at hget
        split at hget
        · rename_i hhash
          cases hget
          exact .inr ⟨hhash.symm, hinfo info haccepts⟩
        · exact .inl (hrest hash entry hget)

/-- The locked answer of a verification has dropped a cache entry at most. -/
theorem locked_verify {rt : Runtime} {token : String} {now checked used : Time} {cache : Cache}
    {answer : Outcome × Cache} (h : (authStore rt (.verifyApiToken token now checked used) cache).locked? = some answer) :
    answer.1 = .raised .locked ∧ ∀ hash entry, answer.2.get? hash = some entry → cache.get? hash = some entry := by
  simp only [authStore, verifyApiToken] at h
  split at h
  · cases h
  · split at h
    · cases h
      exact ⟨rfl, fun _ _ hget => hget⟩
    · split at h
      · cases h
      · cases h
        refine ⟨rfl, fun hash entry hget => ?_⟩
        rw [Dict.get?_erase] at hget
        split at hget
        · cases hget
        · exact hget

theorem pooled_verify {rt : Runtime} (h : Held rt strings owner s) (hinj : Set.InjOn rt.sha256Hex strings)
    {token : String × List String} (htoken : token ∈ s.held) (now checked used : Time) :
    (let after := pooledCall rt (.verifyApiToken token.1 now checked used) s.store
    Held rt strings owner {s with store := after.2} ∧
    (after.1 = .principal none ∨ (∃ error, after.1 = .raised error) ∨ ∃ info, after.1 = .principal (some info) ∧
      info.userId = owner ∧ info.isAdmin = false ∧ info.scopes = token.2)) := by
  obtain ⟨g, hrow, howner, hscopes⟩ := h.row token htoken
  -- What the cache gains is read from the token's own row.
  have hnew : ∀ hash (entry : Time × Payload), (s.store.2.get? hash = some entry ∨ (hash = rt.sha256Hex token.1 ∧
      entry.2.userId = owner ∧ entry.2.isAdmin = false ∧ entry.2.scopes = token.2)) →
      s.store.2.get? hash = some entry ∨ ∃ token ∈ strings, rt.sha256Hex token = hash ∧
        ∃ g, s.store.1.latest.grant (idPart token) = some g ∧ entry.2.userId = g.userId ∧
          entry.2.scopes = g.scopes.getD [] ∧ (entry.2.userId = owner → entry.2.isAdmin = false) := by
    rintro hash entry (hold | ⟨rfl, huser, hplain, hsame⟩)
    · exact .inl hold
    · refine .inr ⟨token.1, (h.token token htoken).1, rfl, g, hrow, huser.trans howner.symm, ?_, fun _ => hplain⟩
      rw [hscopes]
      exact hsame
  obtain ⟨hcommitted, hcases⟩ := (authStore rt (.verifyApiToken token.1 now checked used) s.store.2).call_cases s.store.1
  simp only [pooledCall]
  rcases hcases with ⟨hresult, hlatest⟩ | ⟨hlatest, hlocked | ⟨_, hread⟩⟩
  · obtain ⟨⟨husers, hsessions⟩, hgrants, houtcome, hcache⟩ :=
      run_verify h hinj htoken now checked used (latest_mem s.store)
    refine ⟨h.unissued ⟨hcommitted, fun id => ?_, ?_, ?_⟩ fun hash entry hget => hnew hash entry ?_, ?_⟩
    · exact congrArg (Option.map terms) (hlatest ▸ hgrants id)
    · exact hlatest ▸ husers
    · exact hlatest ▸ hsessions
    · rw [hresult] at hget
      exact hcache hash entry hget
    · rw [hresult]
      exact houtcome.imp_right .inr
  · obtain ⟨hraised, hcache⟩ := locked_verify hlocked
    exact ⟨h.unissued (.of_latest hcommitted hlatest) fun hash entry hget => .inl (hcache hash entry hget),
      .inr (.inl ⟨_, hraised⟩)⟩
  · obtain ⟨_, _, houtcome, hcache⟩ := run_verify h hinj htoken now checked used (committed_mem s.store)
    refine ⟨h.unissued (.of_latest hcommitted hlatest) fun hash entry hget => hnew hash entry ?_, ?_⟩
    · rw [hread] at hget
      exact hcache hash entry hget
    · rw [hread]
      exact houtcome.imp_right .inr

theorem presents_cookie {rt : Runtime} {r : HttpRequest} (h : s.Presents rt r) {cookie : String}
    (hcookie : nonempty? r.sessionCookie = some cookie) : ∃ k ∈ s.held, k.1 = cookie :=
  List.mem_map.mp (h cookie (by simp [credentials, hcookie]))

theorem presents_bearer {rt : Runtime} {r : HttpRequest} (h : s.Presents rt r) {bearer : String}
    (hbearer : parseBearer rt r.authorization = some bearer) : ∃ k ∈ s.held, k.1 = bearer :=
  List.mem_map.mp (h bearer (by simp [credentials, hbearer]))

/-- The API key is in neither header. -/
theorem presentsKey_held {rt : Runtime} {settings : Settings} {r : HttpRequest} (hpresents : s.Presents rt r)
    (hkey : ∀ key, settings.key? = some key → ∀ k ∈ s.held, k.1 ≠ key) : presentsKey rt settings r = false := by
  rw [presentsKey]
  split
  · rename_i key hsome
    obtain ⟨_, hne⟩ := nonempty?_some hsome
    rw [Bool.or_eq_false_iff, decide_eq_false_iff_not, decide_eq_false_iff_not]
    refine ⟨fun hx => ?_, fun hbearer => ?_⟩
    · obtain ⟨k, hk, hsame⟩ := List.mem_map.mp (hpresents key (by simp [credentials, hx, nonempty?, hne]))
      exact hkey key hsome k hk hsame
    · obtain ⟨k, hk, hsame⟩ := presents_bearer hpresents hbearer
      exact hkey key hsome k hk hsame
  · rfl

theorem session_held {rt : Runtime} (h : Held rt strings owner s) {r : HttpRequest} (hpresents : s.Presents rt r)
    (clock : Readings) :
    Held rt strings owner {s with store := (sessionPrincipal (pooledCall rt) clock r s.store).2} ∧
    ((sessionPrincipal (pooledCall rt) clock r s.store).1 = .ok none ∨
      ∃ failure, (sessionPrincipal (pooledCall rt) clock r s.store).1 = .error failure) := by
  rw [sessionPrincipal]
  cases hcookie : nonempty? r.sessionCookie with
  | none => exact ⟨h, .inl rfl⟩
  | some cookie =>
    obtain ⟨k, hk, rfl⟩ := presents_cookie hpresents hcookie
    obtain ⟨hunissued, hcache, houtcome⟩ :=
      pooled_getSession h (h.token k hk).2 clock.sessionChecked clock.sessionSeen
    simp only
    generalize pooledCall rt (.getSession k.1 clock.sessionChecked clock.sessionSeen) s.store = after
      at hunissued hcache houtcome
    obtain ⟨outcome, store⟩ := after
    have hheld : Held rt strings owner {s with store := store} :=
      h.unissued hunissued fun hash entry hget => .inl (hcache ▸ hget)
    rcases houtcome with hnone | ⟨error, hraised⟩
    · obtain rfl : outcome = .session none := hnone
      exact ⟨hheld, .inl rfl⟩
    · obtain rfl : outcome = .raised error := hraised
      exact ⟨hheld, .inr ⟨_, rfl⟩⟩

theorem token_held {rt : Runtime} (h : Held rt strings owner s) (hinj : Set.InjOn rt.sha256Hex strings)
    {r : HttpRequest} (hpresents : s.Presents rt r) (clock : Readings) :
    Held rt strings owner {s with store := (tokenPrincipal (pooledCall rt) rt clock r s.store).2} ∧
    ((tokenPrincipal (pooledCall rt) rt clock r s.store).1 = .ok none ∨
      (∃ failure, (tokenPrincipal (pooledCall rt) rt clock r s.store).1 = .error failure) ∨
      ∃ principal, (tokenPrincipal (pooledCall rt) rt clock r s.store).1 = .ok (some principal) ∧
        ∃ k ∈ s.held, parseBearer rt r.authorization = some k.1 ∧ principal.userId = some owner ∧
          principal.scopes = k.2) := by
  rw [tokenPrincipal]
  cases hbearer : parseBearer rt r.authorization with
  | none => exact ⟨h, .inl rfl⟩
  | some bearer =>
    obtain ⟨k, hk, rfl⟩ := presents_bearer hpresents hbearer
    obtain ⟨hheld, houtcome⟩ := pooled_verify h hinj hk clock.now clock.checked clock.used
    simp only
    generalize pooledCall rt (.verifyApiToken k.1 clock.now clock.checked clock.used) s.store = after
      at hheld houtcome
    obtain ⟨outcome, store⟩ := after
    rcases houtcome with hnone | ⟨error, hraised⟩ | ⟨info, hinfo, huser, hplain, hscopes⟩
    · obtain rfl : outcome = .principal none := hnone
      exact ⟨hheld, .inl rfl⟩
    · obtain rfl : outcome = .raised error := hraised
      exact ⟨hheld, .inr (.inl ⟨_, rfl⟩)⟩
    · obtain rfl : outcome = .principal (some info) := hinfo
      refine ⟨hheld, .inr (.inr ⟨_, rfl, k, hk, rfl, congrArg some huser, ?_⟩)⟩
      simp only [Payload.principal, hplain, Bool.false_eq_true, if_false]
      exact hscopes

/-- A holder is anonymous, or the owner with the scopes of the token presented. -/
theorem principal_held (h : Held cfg.rt strings owner s) (hinj : Set.InjOn cfg.rt.sha256Hex strings) {r : HttpRequest}
    (hpresents : s.Presents cfg.rt r) (hkey : ∀ key, cfg.settings.key? = some key → ∀ k ∈ s.held, k.1 ≠ key)
    (clock : Readings) :
    (let after := getPrincipal (pooledCall cfg.rt) cfg.rt cfg.settings clock r s.store
    Held cfg.rt strings owner {s with store := after.2} ∧ ∀ principal, after.1 = .ok principal →
      (principal.userId = none ∧ principal.scopes = []) ∨
        ∃ k ∈ s.held, parseBearer cfg.rt r.authorization = some k.1 ∧ principal.userId = some owner ∧
          principal.scopes = k.2) := by
  simp only [getPrincipal, presentsKey_held hpresents hkey, Bool.false_eq_true, if_false]
  obtain ⟨hheld, hsession⟩ := session_held h hpresents clock
  generalize sessionPrincipal (pooledCall cfg.rt) clock r s.store = after at hheld hsession
  obtain ⟨result, store⟩ := after
  rcases hsession with hnone | ⟨failure, hfailed⟩
  · obtain rfl : result = .ok none := hnone
    obtain ⟨hheld', htoken⟩ := token_held hheld hinj hpresents clock
    simp only
    generalize tokenPrincipal (pooledCall cfg.rt) cfg.rt clock r store = after' at hheld' htoken
    obtain ⟨result', store'⟩ := after'
    rcases htoken with hnone | ⟨failure, hfailed⟩ | ⟨principal, hfound, hown⟩
    · obtain rfl : result' = .ok none := hnone
      simp only
      split
      · refine ⟨hheld', ?_⟩
        rintro principal ⟨⟩
        exact .inl ⟨rfl, rfl⟩
      · exact ⟨hheld', nofun⟩
    · obtain rfl : result' = .error failure := hfailed
      exact ⟨hheld', nofun⟩
    · obtain rfl : result' = .ok (some principal) := hfound
      refine ⟨hheld', ?_⟩
      rintro principal' ⟨⟩
      exact .inr hown
  · obtain rfl : result = .error failure := hfailed
    exact ⟨hheld, nofun⟩

theorem aside_create (rt : Runtime) (userId : Int) (scopes : List String) (label : Option String)
    (expiresAt : Option Time) (id : Uuid) (secret : String) (now : Time) (t : Tables) :
    Aside t ((createApiToken rt userId scopes label expiresAt id secret now).run t).2 := by
  have hkeeps : (createApiToken rt userId scopes label expiresAt id secret now).Keeps Aside := by
    refine ⟨fun t => ⟨?_, Tables.sessions_insertToken _ _ t⟩, fun answer => ?_⟩
    · rcases Tables.insertToken_cases _ _ t with ⟨_, hfailed⟩ | ⟨_, _, _, husers⟩
      · rw [hfailed]
      · exact husers
    · cases answer with
      | error message => trivial
      | ok _ =>
        intro row
        cases row <;> trivial
  exact Script.run_keeps (fun t => ⟨rfl, rfl⟩) (fun t t' t'' h h' => ⟨h'.1.trans h.1, h'.2.trans h.2⟩) hkeeps t

/-- An insert takes effect on the writing connection and is new there, so it is new everywhere; or it fails. -/
theorem pooled_create {rt : Runtime} (h : Held rt strings owner s) {draws : Draws}
    (hstrings : (makePrefixedToken apiTokenPrefix draws.id draws.secret).1 ∈ strings) (requested : List String)
    (label : Option String) (expiresAt : Option Time) :
    (let after := pooledCall rt (.createApiToken owner requested label expiresAt draws.id draws.secret draws.now) s.store
    (∃ error, after.1 = .raised error ∧ Held rt strings owner {s with store := after.2}) ∨
      ∃ token row, after.1 = .newToken token row ∧ Held rt strings owner ⟨after.2, (token, requested) :: s.held⟩) := by
  obtain ⟨hcommitted, hcases⟩ :=
    (authStore rt (.createApiToken owner requested label expiresAt draws.id draws.secret draws.now) s.store.2).call_cases
      s.store.1
  simp only [pooledCall]
  rcases hcases with ⟨hresult, hlatest⟩ | ⟨hlatest, hlocked | ⟨hreads, _⟩⟩
  · obtain ⟨husers, hsessions⟩ := aside_create rt owner requested label expiresAt draws.id draws.secret draws.now
      s.store.1.latest
    have hrun : (authStore rt (.createApiToken owner requested label expiresAt draws.id draws.secret draws.now)
        s.store.2).run s.store.1.latest = ((((createApiToken rt owner requested label expiresAt draws.id draws.secret
          draws.now).run s.store.1.latest).1, s.store.2), ((createApiToken rt owner requested label expiresAt draws.id
            draws.secret draws.now).run s.store.1.latest).2) := by
      simp only [authStore, keeping, Plan.run, Script.run_map]
    rw [hrun] at hresult hlatest
    rcases create_cases rt owner requested label expiresAt draws.id draws.secret draws.now s.store.1.latest with
      ⟨error, hfailed⟩ | ⟨hnone, row, t', hdone, _, hgrant⟩
    · left
      rw [hfailed] at hresult hlatest
      refine ⟨error, by rw [hresult], h.unissued (.of_latest hcommitted hlatest) fun hash entry hget => .inl ?_⟩
      rw [hresult] at hget
      exact hget
    · right
      rw [hdone] at hresult hlatest husers hsessions
      refine ⟨_, row, by rw [hresult], ?_⟩
      obtain ⟨hid, hleads⟩ := idPart_made draws.id draws.secret
      have hold : ∀ {id g}, s.store.1.latest.grant id = some g → draws.id.hex ≠ id := by
        rintro id g hg rfl
        cases hnone.symm.trans hg
      obtain ⟨hplain, hsessions⟩ := h.aside hcommitted (by rw [hlatest]; exact ⟨husers, hsessions⟩)
      refine ⟨fun k hk => ?_, fun k hk => ?_, fun k hk g hg => ?_, fun id hid' => ?_, hplain, hsessions,
        fun hash entry hget => ?_⟩
      · rcases List.mem_cons.mp hk with rfl | hk
        · exact ⟨hstrings, hleads⟩
        · exact h.token k hk
      · simp only [hlatest, hgrant]
        rcases List.mem_cons.mp hk with rfl | hk
        · exact ⟨_, if_pos hid.symm, rfl, rfl⟩
        · obtain ⟨g, hg, hown⟩ := h.row k hk
          exact ⟨g, (if_neg (hold hg)).trans hg, hown⟩
      · rw [hcommitted] at hg
        rcases List.mem_cons.mp hk with rfl | hk
        · rw [hid, h.kept _ hnone] at hg
          cases hg
        · exact h.committed k hk g hg
      · rw [hlatest, hgrant] at hid'
        rw [hcommitted]
        split at hid'
        · cases hid'
        · exact h.kept id hid'
      · rw [hresult] at hget
        obtain ⟨token, htoken, hhash, g, hg, hentry⟩ := h.cached hash entry hget
        refine ⟨token, htoken, hhash, g, ?_, hentry⟩
        rw [hlatest, hgrant]
        exact (if_neg (hold hg)).trans hg
  · left
    have hpair := Option.some.inj hlocked
    refine ⟨.locked, by rw [← hpair], h.unissued (.of_latest hcommitted hlatest) fun hash entry hget => .inl ?_⟩
    rw [← hpair] at hget
    exact hget
  · exact absurd hreads id

/-- A call that leaves the cache alone, and of the tables what a holder's state is about. -/
theorem pooled_keeping {rt : Runtime} (h : Held rt strings owner s) {request : Request} {script : Script Tables Outcome}
    (hplan : authStore rt request s.store.2 = keeping s.store.2 script)
    (hgrants : ∀ id, ((script.run s.store.1.latest).2.grant id).map terms = (s.store.1.latest.grant id).map terms)
    (haside : Aside s.store.1.latest (script.run s.store.1.latest).2) :
    Held rt strings owner {s with store := (pooledCall rt request s.store).2} := by
  obtain ⟨hcommitted, hcases⟩ := (keeping s.store.2 script).call_cases s.store.1
  have hrun : ∀ t, (keeping s.store.2 script).run t = (((script.run t).1, s.store.2), (script.run t).2) := fun t =>
    script.run_map _ t
  simp only [pooledCall, hplan]
  rcases hcases with ⟨hresult, hlatest⟩ | ⟨hlatest, hlocked | ⟨_, hread⟩⟩
  · rw [hrun] at hresult hlatest
    refine h.unissued ⟨hcommitted, fun id => ?_, ?_, ?_⟩ fun hash entry hget => .inl ?_
    · exact hlatest ▸ hgrants id
    · exact hlatest ▸ haside.1
    · exact hlatest ▸ haside.2
    · rw [hresult] at hget
      exact hget
  · refine h.unissued (.of_latest hcommitted hlatest) fun hash entry hget => .inl ?_
    rw [← Option.some.inj hlocked] at hget
    exact hget
  · refine h.unissued (.of_latest hcommitted hlatest) fun hash entry hget => .inl ?_
    rw [hread, hrun] at hget
    exact hget

theorem pooled_getUserById {rt : Runtime} (h : Held rt strings owner s) (id : Int) :
    Held rt strings owner {s with store := (pooledCall rt (.getUserById id) s.store).2} :=
  pooled_keeping h rfl (fun _ => rfl) ⟨rfl, rfl⟩

theorem pooled_listApiTokens {rt : Runtime} (h : Held rt strings owner s) (userId : Int) :
    Held rt strings owner {s with store := (pooledCall rt (.listApiTokens userId) s.store).2} :=
  pooled_keeping h rfl (fun _ => rfl) ⟨rfl, rfl⟩

/-- A revoked token keeps its row. -/
theorem pooled_revokeApiToken {rt : Runtime} (h : Held rt strings owner s) (tokenId : String) (userId : Option Int)
    (now : Time) :
    Held rt strings owner {s with store := (pooledCall rt (.revokeApiToken tokenId userId now) s.store).2} := by
  obtain ⟨husers, hgrant⟩ := revoke_run tokenId userId now s.store.1.latest
  refine pooled_keeping h rfl (fun id => ?_) ⟨husers, Tables.sessions_updateToken _ _ _ _ _⟩
  rw [hgrant, Option.map_map]
  congr 1
  funext g
  simp only [Function.comp_apply]
  split <;> rfl

/-- There is no session to revoke. -/
theorem pooled_revokeSession {rt : Runtime} (h : Held rt strings owner s) {id : String}
    (hid : apiTokenPrefix.toList <+: id.toList) (now : Time) :
    Held rt strings owner {s with store := (pooledCall rt (.revokeSession id now) s.store).2} := by
  have hnone : s.store.1.latest.sessions.get? id = none := by
    cases hget : s.store.1.latest.sessions.get? id with
    | none => rfl
    | some row => exact absurd hid (h.sessions _ (latest_mem s.store) id row hget)
  have hsame : ((revokeSession id now).run s.store.1.latest).2 = s.store.1.latest := by
    show (Tables.updateSession id _ _ s.store.1.latest).2 = _
    rw [Tables.updateSession]
    split
    · rename_i hsome
      cases hnone.symm.trans hsome
    · rfl
  exact pooled_keeping h rfl (fun id => by rw [hsame]) (by rw [hsame]; exact ⟨rfl, rfl⟩)

/-- The dependency changes the store at most, and admits a holder for a token with the scope. -/
theorem layer_held (h : Held cfg.rt strings owner s) (hinj : Set.InjOn cfg.rt.sha256Hex strings) {r : HttpRequest}
    (hpresents : s.Presents cfg.rt r) (hkey : ∀ key, cfg.settings.key? = some key → ∀ k ∈ s.held, k.1 ≠ key)
    (clock : Readings) (scope : String) :
    (let after := principalLayer (pooledCall cfg.rt) cfg.rt cfg.settings clock r scope s.store
    Held cfg.rt strings owner {s with store := after.2} ∧ ((∃ failure, after.1 = .error failure) ∨
      ∃ principal, after.1 = .ok principal ∧ (principal.userId = none ∨ (principal.userId = some owner ∧ ∃ k ∈ s.held,
        parseBearer cfg.rt r.authorization = some k.1 ∧
          (authRequired cfg.settings = false ∨ "*" ∈ k.2 ∨ scope ∈ k.2))))) := by
  obtain ⟨hheld, hprincipal⟩ := principal_held h hinj hpresents hkey clock
  simp only [principalLayer]
  generalize getPrincipal (pooledCall cfg.rt) cfg.rt cfg.settings clock r s.store = after at hheld hprincipal
  obtain ⟨result, store⟩ := after
  cases result with
  | error failure => exact ⟨hheld, .inl ⟨failure, rfl⟩⟩
  | ok principal =>
    refine ⟨hheld, ?_⟩
    rcases requireScopes_cases cfg.settings [scope] principal with hok | ⟨failure, hfailed⟩
    · refine .inr ⟨principal, hok, ?_⟩
      rcases hprincipal principal rfl with ⟨hnone, _⟩ | ⟨k, hk, hbearer, huser, hscopes⟩
      · exact .inl hnone
      · refine .inr ⟨huser, k, hk, hbearer, ?_⟩
        rw [← hscopes]
        exact ((requireScopes_ok _ _ _).mp hok).imp_right And.right
    · exact .inl ⟨failure, hfailed⟩

theorem forUser_held (h : Held cfg.rt strings owner s) (hinj : Set.InjOn cfg.rt.sha256Hex strings) {r : HttpRequest}
    (hpresents : s.Presents cfg.rt r) (hkey : ∀ key, cfg.settings.key? = some key → ∀ k ∈ s.held, k.1 ≠ key)
    (clock : Readings) (scope : String) {request : Int → Request}
    (hrequest : ∀ {s : State}, Held cfg.rt strings owner s → ∀ userId,
      Held cfg.rt strings owner {s with store := (pooledCall cfg.rt (request userId) s.store).2}) :
    Held cfg.rt strings owner (s.after (forUser cfg clock r scope request)) := by
  obtain ⟨hheld, _⟩ := layer_held h hinj hpresents hkey clock scope
  simp only [State.after, forUser]
  generalize principalLayer (pooledCall cfg.rt) cfg.rt cfg.settings clock r scope s.store = after at hheld
  obtain ⟨result, store⟩ := after
  cases result with
  | error failure => exact hheld
  | ok principal =>
    simp only
    cases principal.userId with
    | none => exact hheld
    | some userId =>
      have hdone := hrequest hheld userId
      simp only at hdone ⊢
      split <;> rename_i hcall <;> rw [hcall] at hdone <;> exact hdone

theorem me_held (h : Held cfg.rt strings owner s) (hinj : Set.InjOn cfg.rt.sha256Hex strings) {r : HttpRequest}
    (hpresents : s.Presents cfg.rt r) (hkey : ∀ key, cfg.settings.key? = some key → ∀ k ∈ s.held, k.1 ≠ key)
    (clock : Readings) : Held cfg.rt strings owner (s.after (me cfg clock r)) := by
  obtain ⟨hheld, _⟩ := principal_held h hinj hpresents hkey clock
  simp only [State.after, me]
  generalize getPrincipal (pooledCall cfg.rt) cfg.rt cfg.settings clock r s.store = after at hheld
  obtain ⟨result, store⟩ := after
  cases result with
  | error failure => exact hheld
  | ok principal =>
    simp only
    split
    · exact hheld
    · cases principal.userId with
      | none => exact hheld
      | some userId =>
        have hdone := pooled_getUserById hheld userId
        simp only at hdone ⊢
        split <;> rename_i hcall <;> rw [hcall] at hdone <;> exact hdone

theorem logout_held (h : Held cfg.rt strings owner s) {r : HttpRequest}
    (hpresents : s.Presents cfg.rt r) (now : Time) : Held cfg.rt strings owner (s.after (sessionLogout cfg r now)) := by
  simp only [State.after, sessionLogout]
  cases hcookie : nonempty? r.sessionCookie with
  | none => exact h
  | some cookie =>
    obtain ⟨k, hk, rfl⟩ := presents_cookie hpresents hcookie
    have hdone := pooled_revokeSession h (h.token k hk).2 now
    simp only
    split <;> rename_i hcall <;> rw [hcall] at hdone <;> exact hdone

theorem mint_held (h : Held cfg.rt strings owner s) (hinj : Set.InjOn cfg.rt.sha256Hex strings) {r : HttpRequest}
    (hpresents : s.Presents cfg.rt r) {clock : Readings} {body : Body} {draws : Draws}
    (hrule : inScope cfg strings scopes (.mint r clock body draws) s) :
    Held cfg.rt strings owner (s.mint cfg r clock body draws) ∧
      ∀ k ∈ (s.mint cfg r clock body draws).held, k ∈ s.held ∨ Within k.2 scopes := by
  obtain ⟨hkey, hstrings, hwithin⟩ := hrule
  obtain ⟨hheld, hlayer⟩ := layer_held h hinj hpresents hkey clock "tokens:write"
  simp only [State.mint, createToken]
  cases requireCsrf r with
  | error failure => exact ⟨h, fun _ => .inl⟩
  | ok _ =>
    simp only
    generalize principalLayer (pooledCall cfg.rt) cfg.rt cfg.settings clock r "tokens:write" s.store = after
      at hheld hlayer
    obtain ⟨result, store⟩ := after
    rcases hlayer with ⟨failure, hfailed⟩ | ⟨principal, hok, hwho⟩
    · obtain rfl : result = .error failure := hfailed
      exact ⟨hheld, fun _ => .inl⟩
    · obtain rfl : result = .ok principal := hok
      simp only [tokenCreateRequest]
      by_cases hlabel : body.label.any (fun label => decide (80 < label.length)) = true
      · rw [if_pos hlabel]
        exact ⟨hheld, fun _ => .inl⟩
      by_cases hseconds : body.expiresInSeconds.any (fun seconds => decide (seconds < 60)) = true
      · rw [if_neg hlabel, if_pos hseconds]
        exact ⟨hheld, fun _ => .inl⟩
      rw [if_neg hlabel, if_neg hseconds]
      rcases hwho with hnone | ⟨huser, k, hk, hbearer, hmay⟩
      · rw [hnone]
        exact ⟨hheld, fun _ => .inl⟩
      · rw [huser]
        simp only
        rcases pooled_create hheld hstrings (body.cleaned cfg.rt) body.label
            (body.expiresInSeconds.map fun (seconds : Int) => draws.asked + seconds) with
          ⟨error, hraised, hheld'⟩ | ⟨token, row, hissued, hheld'⟩
        · generalize pooledCall _ _ _ = after at hraised hheld'
          obtain ⟨outcome, store'⟩ := after
          obtain rfl : outcome = .raised error := hraised
          exact ⟨hheld', fun _ => .inl⟩
        · generalize pooledCall _ _ _ = after at hissued hheld'
          obtain ⟨outcome, store'⟩ := after
          obtain rfl : outcome = .newToken token row := hissued
          refine ⟨hheld', fun k' hk' => ?_⟩
          rcases List.mem_cons.mp hk' with rfl | hk'
          · exact .inr (hwithin k hk hbearer hmay)
          · exact .inl hk'

theorem held_step (hinj : Set.InjOn cfg.rt.sha256Hex strings) {e : Event}
    (h : Held cfg.rt strings owner s ∧ ∀ k ∈ s.held, Within k.2 scopes) (hrule : inScope cfg strings scopes e s)
    (hstep : (minting cfg strings owner scopes).step e s = some u) :
    Held cfg.rt strings owner u ∧ ∀ k ∈ u.held, Within k.2 scopes := by
  simp only [minting] at hstep
  split at hstep
  · rename_i hpresents
    cases e with
    | present r clock =>
      cases hstep
      exact ⟨(principal_held h.1 hinj hpresents hrule.1 clock).1, h.2⟩
    | me r clock =>
      cases hstep
      exact ⟨me_held h.1 hinj hpresents hrule.1 clock, h.2⟩
    | logout r now =>
      cases hstep
      exact ⟨logout_held h.1 hpresents now, h.2⟩
    | list r clock =>
      cases hstep
      exact ⟨forUser_held h.1 hinj hpresents hrule.1 clock "tokens:read" fun h => pooled_listApiTokens h, h.2⟩
    | revoke r clock tokenId now =>
      cases hstep
      refine ⟨?_, h.2⟩
      simp only [State.after, revokeToken]
      cases requireCsrf r with
      | error failure => exact h.1
      | ok _ =>
        exact forUser_held h.1 hinj hpresents hrule.1 clock "tokens:write" fun h userId =>
          pooled_revokeApiToken h tokenId (some userId) now
    | mint r clock body draws =>
      cases hstep
      obtain ⟨hheld, hnew⟩ := mint_held h.1 hinj hpresents hrule
      exact ⟨hheld, fun k hk => (hnew k hk).elim (h.2 k) id⟩
  · cases hstep

end Holder

/-- **As long as no token that may mint asks for scopes outside those of the first, and none is the API key, every
principal that the tokens in hand are taken for has scopes within those of the first.** -/
theorem scopes_within (cfg : Config) {strings : Set String} (hinj : Set.InjOn cfg.rt.sha256Hex strings) {owner : Int}
    {scopes : List String} {s : State}
    (h : (minting cfg strings owner scopes).Reachable (inScope cfg strings scopes) s) {r : HttpRequest}
    (hpresents : s.Presents cfg.rt r) (hkey : ∀ key, cfg.settings.key? = some key → ∀ k ∈ s.held, k.1 ≠ key)
    (clock : Readings) {principal : Principal}
    (hprincipal : (getPrincipal (pooledCall cfg.rt) cfg.rt cfg.settings clock r s.store).1 = .ok principal) :
    Within principal.scopes scopes := by
  obtain ⟨hheld, hwithin⟩ := System.reachable_invariant
    (I := fun s => Held cfg.rt strings owner s ∧ ∀ k ∈ s.held, Within k.2 scopes) (fun s hs => by
      obtain ⟨hheld, token, htoken⟩ := hs
      refine ⟨hheld, fun k hk => ?_⟩
      rw [htoken, List.mem_singleton] at hk
      rw [hk]
      exact .inr fun _ => id) (fun _ _ _ => held_step hinj) h
  rcases (principal_held hheld hinj hpresents hkey clock).2 principal hprincipal with
    ⟨_, hnone⟩ | ⟨k, hk, _, _, hscopes⟩
  · rw [hnone]
    exact .inr nofun
  · rw [hscopes]
    exact hwithin k hk

/-! ### Runs -/

instance (scopes among : List String) : Decidable (Within scopes among) :=
  inferInstanceAs (Decidable (_ ∨ ∀ _ ∈ _, _))

/-- Authentication on, and no API key. -/
def required : Config where
  rt := plainRuntime
  settings := { authRequired := true }

/-- The rule where there is no API key, as a test. -/
def inScopeTest (cfg : Config) (scopes : List String) : Event → State → Bool
  | .mint _ _ body _, _ => cfg.settings.key?.isNone && decide (Within (body.cleaned cfg.rt) scopes)
  | _, _ => cfg.settings.key?.isNone

theorem inScope_of_test {cfg : Config} {scopes : List String} (e : Event) (s : State)
    (h : inScopeTest cfg scopes e s = true) : inScope cfg Set.univ scopes e s := by
  cases e with
  | present | me | logout | list | revoke =>
    have hnone := Option.isNone_iff_eq_none.mp h
    exact ⟨fun key hkey => (nomatch hnone.symm.trans hkey), trivial⟩
  | mint r clock body draws =>
    obtain ⟨hkey, hwithin⟩ := Bool.and_eq_true_iff.mp h
    have hnone := Option.isNone_iff_eq_none.mp hkey
    refine ⟨fun key hkey => (nomatch hnone.symm.trans hkey), Set.mem_univ _, ?_⟩
    exact fun _ _ _ _ => of_decide_eq_true hwithin

/-- A user who is not an admin, with a token. -/
def tables (scopes : List String) : Tables :=
  ((createApiToken plainRuntime 1 scopes none none uuid "s" 1).run
    ((createUser plainRuntime "ada@example.org" "pbkdf2_sha256$1$AA$AA" false 1).run Tables.empty).2).2

def first : String := (makePrefixedToken apiTokenPrefix uuid "s").1

def start (scopes : List String) : State := ⟨(opened (tables scopes), Dict.empty), [(first, scopes)]⟩

def uuid' : Uuid where
  hex := String.ofList (List.replicate 32 'b')
  digits c hc := by
    rw [String.toList_ofList] at hc
    rw [List.eq_of_mem_replicate hc]
    decide

def second : String := (makePrefixedToken apiTokenPrefix uuid' "t").1

def soon : Readings := ⟨3, 3, 3, 3, 3⟩

def bearing (token : String) : HttpRequest := { authorization := some ("bearer " ++ token) }

def asking (scopes : List String) : Event := .mint (bearing first) soon { scopes := some scopes } ⟨uuid', "t", 3, 3⟩

/-- The first token is presented, mints once the insert gets the connection that wrote its last use, and revokes
itself when it is that connection's turn again. The new token is presented in between, and after it until the
next turn. -/
def mintingRun (scopes : List String) : List Event :=
  [.present (bearing first) soon, asking scopes, asking scopes, asking scopes, asking scopes,
    .me (bearing second) soon, .list (bearing second) soon, .logout (bearing second) 3, .present (bearing second) soon,
    .revoke (bearing first) soon uuid.hex 3,
    .me (bearing second) soon, .list (bearing second) soon, .present (bearing second) soon]

theorem held_start : Held plainRuntime Set.univ 1 (start ["tokens:read", "tokens:write"]) := by
  have hrow : ((tables ["tokens:read", "tokens:write"]).grant (idPart first)).map (fun g => (g.userId, g.scopes)) =
      some (1, some ["tokens:read", "tokens:write"]) := by decide +kernel
  obtain ⟨g, hg, hown⟩ := Option.map_eq_some_iff.mp hrow
  obtain ⟨huser, hscopes⟩ := Prod.mk.inj hown
  have hplain : ((tables ["tokens:read", "tokens:write"]).users.get? 1).map (fun user => user.isAdmin) = some 0 := by
    decide +kernel
  have hsessions : (tables ["tokens:read", "tokens:write"]).sessions.entries = [] := by decide +kernel
  have hone : ∀ t ∈ [(start ["tokens:read", "tokens:write"]).store.1.latest,
      (start ["tokens:read", "tokens:write"]).store.1.committed], t = tables ["tokens:read", "tokens:write"] := by
    intro t ht
    simpa [start, opened, Pool.latest] using ht
  refine ⟨fun k hk => ?_, fun k hk => ?_, fun k hk g' hg' => ?_, fun _ hid => hid, fun t ht user hget => ?_,
    fun t ht id row hget => ?_, fun hash entry hget => ?_⟩
  · rw [List.mem_singleton.mp hk]
    exact ⟨Set.mem_univ _, (idPart_made uuid "s").2⟩
  · rw [List.mem_singleton.mp hk]
    exact ⟨g, hg, huser, hscopes⟩
  · rw [List.mem_singleton.mp hk] at hg' ⊢
    cases hg.symm.trans hg'
    exact ⟨huser, hscopes⟩
  · rw [hone t ht] at hget
    rw [hget] at hplain
    exact Option.some.inj hplain
  · rw [hone t ht] at hget
    have hmem := Dict.mem_entries.mpr hget
    rw [hsessions] at hmem
    cases hmem
  · cases hget

theorem scopes_within_minted : ∃ s principal,
    (minting required Set.univ 1 ["tokens:read", "tokens:write"]).Reachable
      (inScope required Set.univ ["tokens:read", "tokens:write"]) s ∧
    (getPrincipal (pooledCall plainRuntime) plainRuntime required.settings soon (bearing second) s.store).1 =
      .ok principal ∧ principal.scopes = ["tokens:read"] ∧
    Within principal.scopes ["tokens:read", "tokens:write"] := by
  have hrun : (System.walk (minting required Set.univ 1 ["tokens:read", "tokens:write"])
      (inScopeTest required ["tokens:read", "tokens:write"]) (start ["tokens:read", "tokens:write"])
      (mintingRun ["tokens:read"])).map (fun s => (decide (s.Presents plainRuntime (bearing second)),
        (getPrincipal (pooledCall plainRuntime) plainRuntime required.settings soon (bearing second) s.store).1)) =
      some (true, .ok ⟨.apiToken, some 1, some "ada@example.org", false, ["tokens:read"]⟩) := by decide +kernel
  obtain ⟨s, hs, hseen⟩ := Option.map_eq_some_iff.mp hrun
  obtain ⟨hpresents, hprincipal⟩ := Prod.mk.inj hseen
  have hreach : (minting required Set.univ 1 ["tokens:read", "tokens:write"]).Reachable
      (inScope required Set.univ ["tokens:read", "tokens:write"]) s :=
    ⟨_, ⟨held_start, first, rfl⟩, System.walk_leads (fun e _ => inScope_of_test e) hs⟩
  exact ⟨s, _, hreach, hprincipal, rfl, scopes_within required (Set.injOn_id Set.univ) hreach
    (of_decide_eq_true hpresents) nofun soon hprincipal⟩

/-- The same, asking for all scopes. -/
theorem scopes_widened : ∃ s principal,
    (minting required Set.univ 1 ["tokens:read", "tokens:write"]).Reachable anything s ∧
    s.Presents plainRuntime (bearing second) ∧
    (getPrincipal (pooledCall plainRuntime) plainRuntime required.settings soon (bearing second) s.store).1 =
      .ok principal ∧ ¬Within principal.scopes ["tokens:read", "tokens:write"] := by
  have hrun : ((minting required Set.univ 1 ["tokens:read", "tokens:write"]).run
      (start ["tokens:read", "tokens:write"]) (mintingRun ["*"])).map
        (fun s => (decide (s.Presents plainRuntime (bearing second)),
          (getPrincipal (pooledCall plainRuntime) plainRuntime required.settings soon (bearing second) s.store).1)) =
      some (true, .ok ⟨.apiToken, some 1, some "ada@example.org", false, ["*"]⟩) := by decide +kernel
  obtain ⟨s, hs, hseen⟩ := Option.map_eq_some_iff.mp hrun
  obtain ⟨hpresents, hprincipal⟩ := Prod.mk.inj hseen
  exact ⟨s, _, System.run_reachable ⟨held_start, first, rfl⟩ hs, of_decide_eq_true hpresents, hprincipal, by decide⟩

end SynQc.Auth.Minting
