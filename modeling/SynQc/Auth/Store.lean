import SynQc.Auth.Tables
import SynQc.Library.Sql

/-! `AuthStore`: its methods as scripts of statements, over its pool of four connections.

A method takes its clock readings and random draws as arguments. It runs its statements on
one connection and never commits; a write that does not get the transaction raises
`OperationalError`, which no method catches. The token cache is in memory. -/
namespace SynQc.Auth
open Sql

/-- What the code uses of Python's strings and of `hashlib`. -/
structure Runtime where
  strip : String → String
  lower : String → String
  sha256Hex : String → String

def normalizeEmail (rt : Runtime) (email : String) : String := rt.lower (rt.strip email)

/-- `uuid4().hex` -/
structure Uuid where
  hex : String
  digits : ∀ c ∈ hex.toList, c ∈ "0123456789abcdef".toList

/-- The token and its id, from a uuid and a secret. -/
def makePrefixedToken (leading : String) (id : Uuid) (secret : String) : String × String :=
  (leading ++ id.hex ++ "." ++ secret, id.hex)

inductive AuthError where
  | userExists
  | integrity (message : String)
  | typeError
  | locked
  deriving DecidableEq

def AuthError.text : AuthError → String
  | .userExists => "User already exists"
  | .integrity message => message
  | .typeError => "'NoneType' object is not iterable"
  | .locked => "database is locked"

structure Payload where
  userId : Int
  email : String
  isAdmin : Bool
  scopes : List String
  deriving DecidableEq

/-- What `list_api_tokens` selects. -/
structure TokenInfo where
  id : String
  userId : Int
  label : Option String
  tokenPrefix : String
  scopes : List String
  createdAt : Time
  expiresAt : Option Time
  lastUsedAt : Option Time
  revokedAt : Option Time
  deriving DecidableEq

def TokenRow.info (id : String) (row : TokenRow) : TokenInfo where
  id := id
  userId := row.userId
  label := row.label
  tokenPrefix := row.tokenPrefix
  scopes := row.scopes.getD []
  createdAt := row.createdAt
  expiresAt := row.expiresAt
  lastUsedAt := row.lastUsedAt
  revokedAt := row.revokedAt

/-- What a method returns or raises. A row comes with its primary key. -/
inductive Outcome where
  | count (n : Nat)
  | user (row : Option (Int × UserRow))
  | newSession (id csrfToken : String) (expiresAt : Time)
  | session (row : Option (String × SessionRow))
  | done
  | newToken (token : String) (row : String × TokenRow)
  | revoked (ok : Bool)
  | tokens (rows : List TokenInfo)
  | principal (payload : Option Payload)
  | raised (error : AuthError)
  deriving DecidableEq

abbrev Cache := Dict String (Time × Payload)

/-! ### Users -/

def userCount : Script Tables Outcome := .query (fun t => t.users.size) fun n => .done (.count n)

def getUserByEmail (rt : Runtime) (email : String) : Script Tables Outcome :=
  .query (Tables.userByEmail (normalizeEmail rt email)) fun row => .done (.user row)

def getUserById (id : Int) : Script Tables Outcome := .query (Tables.userById id) fun row => .done (.user row)

def createUser (rt : Runtime) (email passwordHash : String) (isAdmin : Bool) (now : Time) : Script Tables Outcome :=
  let emailN := normalizeEmail rt email
  .modify (Tables.insertUser ⟨emailN, passwordHash, if isAdmin then 1 else 0, 1, now⟩) fun
    | .error _ => .done (.raised .userExists)
    | .ok () => .query (Tables.userByEmail emailN) fun
      | some user => .done (.user (some user))
      | none => .done (.raised .typeError)

/-! ### Sessions -/

def createSession (userId ttlSeconds : Int) (id csrfId : Uuid) (secret csrfSecret : String) (now : Time) :
    Script Tables Outcome :=
  let sid := (makePrefixedToken "synqc_sess_" id secret).2
  let csrfToken := (makePrefixedToken "synqc_csrf_" csrfId csrfSecret).1
  .modify (Tables.insertSession sid ⟨userId, csrfToken, now, now, now + ttlSeconds, none⟩) fun
    | .error message => .done (.raised (.integrity message))
    | .ok () => .done (.newSession sid csrfToken (now + ttlSeconds))

/-- `revoked_at`, as a condition: zero is false. -/
def isRevoked (revokedAt : Option Time) : Bool :=
  match revokedAt with
  | some t => t ≠ 0
  | none => false

def getSession (id : String) (checked seen : Time) : Script Tables Outcome :=
  .query (Tables.sessionById id) fun
    | none => .done (.session none)
    | some (key, row) =>
      if isRevoked row.revokedAt then .done (.session none)
      else if row.expiresAt ≤ checked then .modify (Tables.deleteSession id) fun _ => .done (.session none)
      else .modify (Tables.updateSession id (fun row => {row with lastSeenAt := seen}) fun _ => rfl) fun _ =>
        .done (.session (some (key, row)))

def revokeSession (id : String) (now : Time) : Script Tables Outcome :=
  .modify (Tables.updateSession id (fun row => {row with revokedAt := some now}) fun _ => rfl) fun _ => .done .done

/-! ### API tokens -/

def apiTokenPrefix : String := "synqc_at_"

/-- `token.split(".", 1)`, before and after the dot. -/
def splitToken (token : String) : List Char × List Char :=
  (token.toList.takeWhile (· ≠ '.'), (token.toList.dropWhile (· ≠ '.')).drop 1)

def removePrefix (leading text : List Char) : List Char :=
  if leading <+: text then text.drop leading.length else text

def createApiToken (rt : Runtime) (userId : Int) (scopes : List String) (label : Option String)
    (expiresAt : Option Time) (id : Uuid) (secret : String) (now : Time) : Script Tables Outcome :=
  let token := (makePrefixedToken apiTokenPrefix id secret).1
  let tokenId := (makePrefixedToken apiTokenPrefix id secret).2
  let row : TokenRow :=
    { userId := userId, label := label, tokenPrefix := String.ofList ((splitToken token).2.take 8)
      tokenHash := rt.sha256Hex token, scopes := some scopes, createdAt := now, expiresAt := expiresAt
      lastUsedAt := none, revokedAt := none }
  .modify (Tables.insertToken tokenId row) fun
    | .error message => .done (.raised (.integrity message))
    | .ok () => .query (Tables.tokenById tokenId) fun
      | some row => .done (.newToken token row)
      | none => .done (.raised .typeError)

def listApiTokens (userId : Int) : Script Tables Outcome :=
  .query (fun t => (t.tokensOf userId).map fun entry => entry.2.info entry.1) fun rows => .done (.tokens rows)

def revokeApiToken (tokenId : String) (userId : Option Int) (now : Time) : Script Tables Outcome :=
  .modify (Tables.updateToken tokenId
    (fun row => (match userId with
      | some id => decide (row.userId = id)
      | none => true) && row.revokedAt.isNone)
    (fun row => {row with revokedAt := some now}) fun _ => rfl) fun ok => .done (.revoked ok)

def tokenCacheTtlSeconds : Time := 30

/-- `verify_api_token` past its cache. -/
def lookupApiToken (rt : Runtime) (token : String) (now checked used : Time) (cache : Cache) :
    Script Tables (Outcome × Cache) :=
  let refuse : Script Tables (Outcome × Cache) := .done (.principal none, cache)
  let idPart := String.ofList (removePrefix apiTokenPrefix.toList (splitToken token).1)
  .query (Tables.tokenById idPart) fun
    | none => refuse
    | some (_, row) =>
      if isRevoked row.revokedAt then refuse
      else if row.expiresAt.any (· ≤ checked) then refuse
      else if rt.sha256Hex token ≠ row.tokenHash then refuse
      else .modify (Tables.updateToken idPart (fun _ => true) (fun row => {row with lastUsedAt := some used})
          fun _ => rfl) fun _ =>
        .query (Tables.userById row.userId) fun
          | none => refuse
          | some (_, user) =>
            if user.isActive = 0 then refuse
            else
              let payload : Payload := ⟨row.userId, user.email, user.isAdmin ≠ 0, row.scopes.getD []⟩
              .done (.principal (some payload), cache.set (rt.sha256Hex token) (now + tokenCacheTtlSeconds, payload))

def verifyApiToken (rt : Runtime) (token : String) (now checked used : Time) (cache : Cache) :
    Plan Tables (Outcome × Cache) :=
  if ¬apiTokenPrefix.toList <+: token.toList then .answer (.principal none, cache)
  else
    match cache.get? (rt.sha256Hex token) with
    | none => .connect (.raised .locked, cache) (lookupApiToken rt token now checked used cache)
    | some (expiresAt, payload) =>
      if expiresAt > now then .answer (.principal (some payload), cache)
      else
        let rest := cache.erase (rt.sha256Hex token)
        .connect (.raised .locked, rest) (lookupApiToken rt token now checked used rest)

/-! ### The store -/

inductive Request where
  | createUser (email passwordHash : String) (isAdmin : Bool) (now : Time)
  | getUserByEmail (email : String)
  | getUserById (id : Int)
  | userCount
  | createSession (userId ttlSeconds : Int) (id csrfId : Uuid) (secret csrfSecret : String) (now : Time)
  | getSession (id : String) (checked seen : Time)
  | revokeSession (id : String) (now : Time)
  | createApiToken (userId : Int) (scopes : List String) (label : Option String) (expiresAt : Option Time) (id : Uuid)
      (secret : String) (now : Time)
  | revokeApiToken (tokenId : String) (userId : Option Int) (now : Time)
  | listApiTokens (userId : Int)
  | verifyApiToken (token : String) (now checked used : Time)

/-- A method that leaves the cache alone. -/
def keeping (cache : Cache) (script : Script Tables Outcome) : Plan Tables (Outcome × Cache) :=
  .connect (.raised .locked, cache) (script.map fun outcome => (outcome, cache))

def authStore (rt : Runtime) : Request → Cache → Plan Tables (Outcome × Cache)
  | .createUser email passwordHash isAdmin now, cache => keeping cache (createUser rt email passwordHash isAdmin now)
  | .getUserByEmail email, cache => keeping cache (getUserByEmail rt email)
  | .getUserById id, cache => keeping cache (getUserById id)
  | .userCount, cache => keeping cache userCount
  | .createSession userId ttlSeconds id csrfId secret csrfSecret now, cache =>
    keeping cache (createSession userId ttlSeconds id csrfId secret csrfSecret now)
  | .getSession id checked seen, cache => keeping cache (getSession id checked seen)
  | .revokeSession id now, cache => keeping cache (revokeSession id now)
  | .createApiToken userId scopes label expiresAt id secret now, cache =>
    keeping cache (createApiToken rt userId scopes label expiresAt id secret now)
  | .revokeApiToken tokenId userId now, cache => keeping cache (revokeApiToken tokenId userId now)
  | .listApiTokens userId, cache => keeping cache (listApiTokens userId)
  | .verifyApiToken token now checked used, cache => verifyApiToken rt token now checked used cache

/-- The pool after `__init__`, on a database that may have rows: `_init_db` used the first of four
connections, and its script left no transaction open. -/
def opened (t : Tables) : Pool Tables where
  committed := t
  next := 1
  others := [2, 3, 0]

/-! ### When a call sees all writes -/

/-- A token that is not accepted, as far as its row says. -/
def Refused (rt : Runtime) (token : String) (checked : Time) (row : TokenRow) : Prop :=
  isRevoked row.revokedAt = true ∨ row.expiresAt.any (· ≤ checked) = true ∨ rt.sha256Hex token ≠ row.tokenHash

/-- The primary key in a token. -/
def idPart (token : String) : String := String.ofList (removePrefix apiTokenPrefix.toList (splitToken token).1)

/-- The call only reads, and two stores have the same rows for it. Of `get_session` and `verify_api_token` that
is a call that returns nothing, or an answer from the cache. -/
def Finds (rt : Runtime) (cache : Cache) (s t : Tables) : Request → Prop
  | .userCount => s.users.size = t.users.size
  | .getUserByEmail email => s.userByEmail (normalizeEmail rt email) = t.userByEmail (normalizeEmail rt email)
  | .getUserById id => s.userById id = t.userById id
  | .listApiTokens userId =>
    ((s.tokensOf userId).map fun entry => entry.2.info entry.1) = (t.tokensOf userId).map fun entry => entry.2.info entry.1
  | .getSession id _ _ => s.sessionById id = t.sessionById id ∧ ∀ row ∈ s.sessionById id, isRevoked row.2.revokedAt = true
  | .verifyApiToken token now checked _ =>
    ¬apiTokenPrefix.toList <+: token.toList ∨
    (∃ entry, cache.get? (rt.sha256Hex token) = some entry ∧ entry.1 > now) ∨
    s.tokenById (idPart token) = t.tokenById (idPart token) ∧
      ∀ row ∈ s.tokenById (idPart token), Refused rt token checked row.2
  | .createUser .. | .createSession .. | .revokeSession .. | .createApiToken .. | .revokeApiToken .. => False

section Visible
variable {rt : Runtime} {cache : Cache} {p : Pool Tables} {s t : Tables}

theorem visible_keeping (script : Script Tables Outcome) :
    (keeping cache script).Visible p ↔ p.Clear p.next ∨ script.Reads p.committed p.latest := by
  show p.Visible (script.map _) ↔ _
  rw [Pool.Visible, Script.reads_map]

theorem reads_getSession (id : String) (checked seen : Time) :
    (getSession id checked seen).Reads s t ↔ Finds rt cache s t (.getSession id checked seen) := by
  simp only [getSession, Script.reads_query, Finds]
  refine and_congr_right fun _ => ?_
  cases s.sessionById id with
  | none => simp
  | some row =>
    simp only [Option.mem_some_iff, forall_eq']
    split
    · rename_i hrevoked
      exact ⟨fun _ => hrevoked, fun _ => trivial⟩
    · rename_i hrevoked
      split
      · exact ⟨fun h => h.elim, fun h => absurd h hrevoked⟩
      · exact ⟨fun h => h.elim, fun h => absurd h hrevoked⟩

theorem reads_lookup (token : String) (now checked used : Time) :
    (lookupApiToken rt token now checked used cache).Reads s t ↔
      s.tokenById (idPart token) = t.tokenById (idPart token) ∧
        ∀ row ∈ s.tokenById (idPart token), Refused rt token checked row.2 := by
  simp only [lookupApiToken, Script.reads_query]
  refine and_congr_right fun _ => ?_
  change Script.Reads (match s.tokenById (idPart token) with
    | none => _
    | some (_, row) => _) s t ↔ _
  cases s.tokenById (idPart token) with
  | none => simp
  | some row =>
    simp only [Option.mem_some_iff, forall_eq', Refused]
    split
    · rename_i hrevoked
      exact ⟨fun _ => .inl hrevoked, fun _ => trivial⟩
    · rename_i hrevoked
      split
      · rename_i hexpired
        exact ⟨fun _ => .inr (.inl hexpired), fun _ => trivial⟩
      · rename_i hexpired
        split
        · rename_i hhash
          exact ⟨fun _ => .inr (.inr hhash), fun _ => trivial⟩
        · rename_i hhash
          exact ⟨fun h => h.elim, fun h => (h.resolve_left hrevoked).elim hexpired hhash⟩

/-- A call sees all writes if no other connection has the write transaction, or it finds the same in what
is committed. -/
theorem visible_iff (request : Request) :
    (authStore rt request cache).Visible p ↔
      (p.Clear p.next ∨ Finds rt cache p.committed p.latest request) := by
  cases request with
  | getSession id checked seen => exact (visible_keeping _).trans (or_congr_right (reads_getSession id checked seen))
  | verifyApiToken token now checked used =>
    have hlookup : ∀ rest : Cache, p.Visible (lookupApiToken rt token now checked used rest) ↔
        p.Clear p.next ∨ (p.committed.tokenById (idPart token) = p.latest.tokenById (idPart token) ∧
          ∀ row ∈ p.committed.tokenById (idPart token), Refused rt token checked row.2) := fun rest =>
      or_congr_right (reads_lookup token now checked used)
    show (verifyApiToken rt token now checked used cache).Visible p ↔ _
    simp only [verifyApiToken, Finds]
    split
    · rename_i hprefix
      exact ⟨fun _ => .inr (.inl hprefix), fun _ => trivial⟩
    · rename_i hprefix
      split
      · rename_i hnone
        simp [Plan.Visible, hlookup, hprefix, hnone]
      · rename_i expiresAt payload hsome
        split
        · rename_i hlive
          exact ⟨fun _ => .inr (.inr (.inl ⟨_, hsome, hlive⟩)), fun _ => trivial⟩
        · rename_i hlive
          simp [Plan.Visible, hlookup, hprefix, hsome, hlive]
  | userCount | getUserByEmail | getUserById | listApiTokens =>
    exact (visible_keeping _).trans (or_congr_right (and_iff_left trivial))
  | createUser | createSession | revokeSession | createApiToken | revokeApiToken => exact visible_keeping _

/-- Each call, where it comes, meets no other connection's write transaction, or finds the same in what is
committed. -/
def AllFind (rt : Runtime) : List Request → Cache → Pool Tables → Prop
  | [], _, _ => True
  | request :: rest, cache, p =>
    (p.Clear p.next ∨ Finds rt cache p.committed p.latest request) ∧
      AllFind rt rest ((authStore rt request cache).call p).1.2 ((authStore rt request cache).call p).2

theorem allVisible_iff {calls : List Request} : AllVisible (authStore rt) calls cache p ↔ AllFind rt calls cache p := by
  induction calls generalizing cache p with
  | nil => rfl
  | cons request rest ih => exact and_congr (visible_iff request) ih

end Visible

/-- **The store is one store for every list of calls each of which runs on the connection with the write
transaction, or before there is one, or only queries and is answered from what is committed as it
would be with all writes.** -/
theorem one_store (rt : Runtime) (t : Tables) (calls : List Request)
    (h : AllFind rt calls Dict.empty (opened t)) :
    pooledOutcomes (authStore rt) calls Dict.empty (opened t) = outcomes (authStore rt) calls Dict.empty t :=
  outcomes_eq (authStore rt) (allVisible_iff.mpr h)

/-- Python on ASCII text without outer blanks or capitals. No call here hashes. -/
def plainRuntime : Runtime := ⟨id, id, id⟩

def uuid : Uuid where
  hex := String.ofList (List.replicate 32 'a')
  digits c hc := by
    rw [String.toList_ofList] at hc
    rw [List.eq_of_mem_replicate hc]
    decide

/-- The connection of the first call is next again after three that look for what is not there. -/
def roundTrip : List Request :=
  [.createUser "ada@example.org" "pbkdf2_sha256$1$AA$AA" true 1, .getSession "none" 2 2, .getUserById 5,
    .getUserByEmail "bob@example.org", .createSession 1 3600 uuid uuid "s" "c" 3]

theorem one_store_roundTrip : pooledOutcomes (authStore plainRuntime) roundTrip Dict.empty (opened Tables.empty) =
    outcomes (authStore plainRuntime) roundTrip Dict.empty Tables.empty :=
  one_store plainRuntime Tables.empty roundTrip
    ⟨.inl (by decide), .inr ⟨rfl, nofun⟩, .inr rfl, .inr rfl, .inl (by decide), trivial⟩

/-- A user is created, is not there for the next call, and can have no session. -/
def forgotten : List Request :=
  [.createUser "ada@example.org" "pbkdf2_sha256$1$AA$AA" true 1, .getUserByEmail "ada@example.org",
    .createSession 1 3600 uuid uuid "s" "c" 3]

theorem user_forgotten : ∃ user,
    pooledOutcomes (authStore plainRuntime) forgotten Dict.empty (opened Tables.empty) =
      [.user (some user), .user none, .raised .locked] ∧
    outcomes (authStore plainRuntime) forgotten Dict.empty Tables.empty =
      [.user (some user), .user (some user), .newSession uuid.hex ("synqc_csrf_" ++ uuid.hex ++ ".c") 3603] :=
  ⟨(1, ⟨"ada@example.org", "pbkdf2_sha256$1$AA$AA", 1, 1, 1⟩), by decide +kernel, by decide +kernel⟩

end SynQc.Auth
