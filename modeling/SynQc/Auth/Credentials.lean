import SynQc.Auth.Deps
import SynQc.Auth.Tokens

/-! What a request can hold, and whether the store's calls find it.

A credential is a header or a cookie with rows to it: the API key of the settings, a session
that is live, an API token that its row accepts. The calls of one request come to
one connection after the other, and a row that is to be written takes the write transaction,
so that it also matters which connection has it (`sessionPrincipal_cases`, `tokenPrincipal_iff`). -/
namespace SynQc.Auth
open Sql

/-- A session that is neither revoked nor expired. -/
def SessionRow.Live (row : SessionRow) (checked : Time) : Prop :=
  isRevoked row.revokedAt = false ∧ checked < row.expiresAt

/-- A row that accepts the token. -/
structure TokenRow.Accepts (rt : Runtime) (row : TokenRow) (token : String) (checked : Time) : Prop where
  revoked : isRevoked row.revokedAt = false
  expires : ∀ e ∈ row.expiresAt, checked < e
  hash : rt.sha256Hex token = row.tokenHash

def Payload.Grants (info : Payload) (scope : String) : Prop :=
  info.isAdmin = true ∨ "*" ∈ info.scopes ∨ scope ∈ info.scopes

section Credentials
variable (rt : Runtime) (settings : Settings) (clock : Readings) (r : HttpRequest) (p : Pool Tables) (cache : Cache)

/-- One of the two headers has the API key. -/
def HasKey : Prop :=
  ∃ key, settings.key? = some key ∧ (r.xApiKey = some key ∨ parseBearer rt r.authorization = some key)

/-- The cookie is the key of a live session, whose row the next connection may write; its user is there on the
connection after. -/
def HasSession : Prop :=
  ∃ id row user, nonempty? r.sessionCookie = some id ∧ p.Clear p.next ∧ p.latest.sessions.get? id = some row ∧
    row.Live clock.sessionChecked ∧ (p.taken.rotate.view p.taken.rotate.next).users.get? row.userId = some user

/-- The cookie is the key of a session that is committed and not revoked, so that its row is to be written, but another
connection has the write transaction. -/
def BlockedSession : Prop :=
  ∃ id row, nonempty? r.sessionCookie = some id ∧ ¬p.Clear p.next ∧ p.committed.sessions.get? id = some row ∧
    isRevoked row.revokedAt = false

/-- The connections as the bearer token finds them. A cookie uses one up; a session that is not revoked opens the write
transaction on it, and one that is live uses up another for its user. -/
def tokenPool : Pool Tables :=
  match nonempty? r.sessionCookie with
  | none => p
  | some id =>
    match p.latest.sessions.get? id with
    | none => p.rotate
    | some row =>
      if p.Clear p.next ∧ isRevoked row.revokedAt = false then
        if row.expiresAt ≤ clock.sessionChecked then p.taken.rotate else p.taken.rotate.rotate
      else p.rotate

/-- The bearer is an API token with the scope: as a cache entry has it that is still good, or else as its row and its
user's have it, on a connection that may write to the row. -/
def HasToken (scope : String) : Prop :=
  ∃ token, parseBearer rt r.authorization = some token ∧ apiTokenPrefix.toList <+: token.toList ∧
    ((∃ entry, cache.get? (rt.sha256Hex token) = some entry ∧ clock.now < entry.1 ∧ entry.2.Grants scope) ∨
      ((∀ entry, cache.get? (rt.sha256Hex token) = some entry → ¬clock.now < entry.1) ∧
        (tokenPool clock r p).Clear (tokenPool clock r p).next ∧
        ∃ row user, p.latest.apiTokens.get? (idPart token) = some row ∧ row.Accepts rt token clock.checked ∧
          p.latest.users.get? row.userId = some user ∧ user.isActive ≠ 0 ∧
          (user.isAdmin ≠ 0 ∨ "*" ∈ row.scopes.getD [] ∨ scope ∈ row.scopes.getD [])))

/-- The request carries the API key, a session, or an API token with the scope. -/
def Holds (scope : String) : Prop :=
  HasKey rt settings r ∨ HasSession clock r p ∨ (¬BlockedSession r p ∧ HasToken rt clock r p cache scope)

end Credentials

/-! ### What the store's calls find -/

section Found
variable {rt : Runtime} {settings : Settings} {clock : Readings} {r : HttpRequest} {p q : Pool Tables} {cache : Cache}

theorem presentsKey_iff : presentsKey rt settings r = true ↔ HasKey rt settings r := by
  rw [presentsKey, HasKey]
  cases settings.key? with
  | none => simp
  | some key => simp

theorem grants_iff (info : Payload) (scope : String) :
    ("*" ∈ info.principal.scopes ∨ scope ∈ info.principal.scopes) ↔ info.Grants scope := by
  rw [Payload.principal, Payload.Grants]
  cases info.isAdmin with
  | true => simp
  | false => simp

/-- The tests of `accepts`, in its order. -/
theorem rowAccepts_iff {row : TokenRow} {token : String} {checked : Time} :
    row.Accepts rt token checked ↔ ¬isRevoked row.revokedAt = true ∧
      ¬row.expiresAt.any (fun e => decide (e ≤ checked)) = true ∧ ¬rt.sha256Hex token ≠ row.tokenHash := by
  rw [Option.any_eq_true]
  constructor
  · intro h
    refine ⟨Bool.eq_false_iff.mp h.revoked, ?_, not_not.mpr h.hash⟩
    rintro ⟨e, he, hle⟩
    exact not_lt.mpr (of_decide_eq_true hle) (h.expires e he)
  · rintro ⟨hrevoked, hexpired, hhash⟩
    refine ⟨Bool.eq_false_iff.mpr hrevoked, fun e he => ?_, not_not.mp hhash⟩
    by_contra hle
    exact hexpired ⟨e, he, decide_eq_true (not_lt.mp hle)⟩

theorem refused_iff {row : TokenRow} {token : String} {checked : Time} :
    Refused rt token checked row ↔ ¬row.Accepts rt token checked := by
  rw [rowAccepts_iff, Refused]
  tauto

/-- The tables as `accepts` reads them, row by row. -/
theorem accepts_iff {token : String} {checked : Time} {t : Tables} {payload : Payload} :
    accepts rt token checked t = some payload ↔
      ∃ row user, t.apiTokens.get? (idPart token) = some row ∧ row.Accepts rt token checked ∧
        t.users.get? row.userId = some user ∧ user.isActive ≠ 0 ∧
        payload = ⟨row.userId, user.email, user.isAdmin ≠ 0, row.scopes.getD []⟩ := by
  rw [accepts, Tables.grant]
  cases t.apiTokens.get? (idPart token) with
  | none => simp
  | some row =>
    simp only [Option.map_some, TokenRow.grant, Option.some.injEq, exists_and_left, exists_eq_left', rowAccepts_iff]
    split_ifs with hrevoked hexpired hhash
    · simp [hrevoked]
    · simp [hexpired]
    · simp [hhash]
    · cases t.users.get? row.userId with
      | none => simp
      | some user =>
        by_cases hactive : user.isActive = 0
        · simp [hactive]
        · simp [hactive, hrevoked, hexpired, hhash, eq_comm]

/-- A session's row is looked up on the next connection, and written on it unless it was revoked. -/
theorem pooled_getSession (id : String) (checked seen : Time) :
    (p.Clear p.next ∧ ∃ row t, p.latest.sessions.get? id = some row ∧ isRevoked row.revokedAt = false ∧
        t.users = p.latest.users ∧ t.apiTokens = p.latest.apiTokens ∧
        pooledCall rt (.getSession id checked seen) (p, cache) =
          (.session (if row.expiresAt ≤ checked then none else some (id, row)),
            ({p with writer := some (p.next, t)}.rotate, cache))) ∨
      (¬p.Clear p.next ∧ (∃ row, p.committed.sessions.get? id = some row ∧ isRevoked row.revokedAt = false) ∧
        pooledCall rt (.getSession id checked seen) (p, cache) = (.raised .locked, (p.rotate, cache))) ∨
      ((∀ row, (p.view p.next).sessions.get? id = some row → isRevoked row.revokedAt = true) ∧
        pooledCall rt (.getSession id checked seen) (p, cache) = (.session none, (p.rotate, cache))) := by
  simp only [pooledCall, authStore, keeping, Plan.call, Pool.call, getSession, Script.map, Script.exec]
  rw [Tables.sessionById]
  cases hget : (p.view p.next).sessions.get? id with
  | none =>
    refine .inr (.inr ⟨fun row hrow => ?_, rfl⟩)
    cases hrow
  | some row =>
    simp only [Option.map_some]
    by_cases hrevoked : isRevoked row.revokedAt = true
    · refine .inr (.inr ⟨?_, ?_⟩)
      · rintro _ ⟨⟩
        exact hrevoked
      · rw [if_pos hrevoked]
        rfl
    · have hrevoked' : isRevoked row.revokedAt = false := Bool.eq_false_iff.mpr hrevoked
      rw [if_neg hrevoked]
      by_cases hclear : p.Clear p.next
      · rw [Pool.view_of_clear hclear] at hget
        by_cases hexpired : row.expiresAt ≤ checked
        · refine .inl ⟨hclear, row, (p.latest.deleteSession id).2, hget, hrevoked', rfl, rfl, ?_⟩
          rw [if_pos hexpired, if_pos hexpired, Script.map, Script.exec, if_pos hclear, Pool.view_of_clear hclear]
          rfl
        · refine .inl ⟨hclear, row, (p.latest.updateSession id (fun row => {row with lastSeenAt := seen})
            fun _ => rfl).2, hget, hrevoked', ?_, ?_, ?_⟩
          · exact Tables.users_updateSession _ _ _ _
          · exact (Tables.tokensKept_updateSession _ _ _ _).1
          · rw [if_neg hexpired, if_neg hexpired, Script.map, Script.exec, if_pos hclear, Pool.view_of_clear hclear]
            rfl
      · have hcommitted : p.view p.next = p.committed := if_neg hclear
        rw [hcommitted] at hget
        refine .inr (.inl ⟨hclear, ⟨row, hget, hrevoked'⟩, ?_⟩)
        split
        · rw [Script.map, Script.exec, if_neg hclear]
        · rw [Script.map, Script.exec, if_neg hclear]

theorem view_users (hturns : p.SameTurns q) (hcommitted : p.committed = q.committed)
    (hlatest : p.latest.users = q.latest.users) : (p.view p.next).users = (q.view q.next).users := by
  have hclear := hturns.clear p.next
  rw [Pool.view, Pool.view, ← hturns.next]
  by_cases h : p.Clear p.next
  · rw [if_pos h, if_pos (hclear.mp h), hlatest]
  · rw [if_neg h, if_neg fun h' => h (hclear.mpr h'), hcommitted]

theorem pooled_getUserById (q : Pool Tables) (id : Int) :
    pooledCall rt (.getUserById id) (q, cache) =
      (.user (((q.view q.next).users.get? id).map fun row => (id, row)), (q.rotate, cache)) := rfl

/-- The cookie has a principal, cannot be looked up, or leaves the request to its bearer token. -/
theorem sessionPrincipal_cases :
    (HasSession clock r p ∧
        ∃ principal, (sessionPrincipal (pooledCall rt) clock r (p, cache)).1 = .ok (some principal)) ∨
      (¬HasSession clock r p ∧ BlockedSession r p ∧
        ∃ failure, (sessionPrincipal (pooledCall rt) clock r (p, cache)).1 = .error failure) ∨
      (¬HasSession clock r p ∧ ¬BlockedSession r p ∧
        ∃ q, sessionPrincipal (pooledCall rt) clock r (p, cache) = (.ok none, (q, cache)) ∧
          q.SameTurns (tokenPool clock r p) ∧ q.latest.users = p.latest.users ∧
          q.latest.apiTokens = p.latest.apiTokens) := by
  simp only [sessionPrincipal]
  cases hcookie : nonempty? r.sessionCookie with
  | none =>
    refine .inr (.inr ⟨?_, ?_, p, rfl, ?_, rfl, rfl⟩)
    · rintro ⟨_, _, _, hsome, -⟩
      cases hcookie.symm.trans hsome
    · rintro ⟨_, _, hsome, -⟩
      cases hcookie.symm.trans hsome
    · rw [tokenPool, hcookie]
      exact ⟨rfl, rfl, rfl⟩
  | some id =>
    dsimp only
    obtain ⟨hclear, row, t, hget, hrevoked, husers, htokens, hcall⟩ | ⟨hclear, hrow, hcall⟩ | ⟨hnone, hcall⟩ :=
      @pooled_getSession rt p cache id clock.sessionChecked clock.sessionSeen
    · rw [hcall]
      have hfree : ¬BlockedSession r p := by
        rintro ⟨_, _, _, hblocked, -⟩
        exact hblocked hclear
      have hturns : ({p with writer := some (p.next, t)} : Pool Tables).rotate.SameTurns p.taken.rotate :=
        Pool.SameTurns.rotate ⟨rfl, rfl, rfl⟩
      have hlatest : ({p with writer := some (p.next, t)} : Pool Tables).rotate.latest = t := Pool.latest_rotate _
      by_cases hexpired : row.expiresAt ≤ clock.sessionChecked
      · rw [if_pos hexpired]
        refine .inr (.inr ⟨?_, hfree, _, rfl, ?_, by rw [hlatest, husers], by rw [hlatest, htokens]⟩)
        · rintro ⟨id', row', _, hsome, -, hget', hlive, -⟩
          cases hcookie.symm.trans hsome
          cases hget.symm.trans hget'
          exact absurd hlive.2 (not_lt.mpr hexpired)
        · rw [tokenPool, hcookie]
          dsimp only
          rw [hget]
          dsimp only
          rw [if_pos ⟨hclear, hrevoked⟩, if_pos hexpired]
          exact hturns
      · rw [if_neg hexpired]
        have hlive : row.Live clock.sessionChecked := ⟨hrevoked, not_le.mp hexpired⟩
        have hseen := view_users hturns ((Pool.committed_rotate _).trans (Pool.committed_rotate p.taken).symm)
          (by rw [hlatest, husers, Pool.latest_rotate]; rfl)
        dsimp only
        rw [pooled_getUserById, hseen]
        cases huser : (p.taken.rotate.view p.taken.rotate.next).users.get? row.userId with
        | some user => exact .inl ⟨⟨id, row, user, hcookie, hclear, hget, hlive, huser⟩, _, rfl⟩
        | none =>
          refine .inr (.inr ⟨?_, hfree, _, rfl, ?_, ?_, ?_⟩)
          · rintro ⟨id', row', _, hsome, -, hget', -, huser'⟩
            cases hcookie.symm.trans hsome
            cases hget.symm.trans hget'
            cases huser.symm.trans huser'
          · rw [tokenPool, hcookie]
            dsimp only
            rw [hget]
            dsimp only
            rw [if_pos ⟨hclear, hrevoked⟩, if_neg hexpired]
            exact hturns.rotate
          · rw [Pool.latest_rotate, hlatest, husers]
          · rw [Pool.latest_rotate, hlatest, htokens]
    · rw [hcall]
      refine .inr (.inl ⟨?_, ?_, _, rfl⟩)
      · rintro ⟨_, _, _, -, hclear', -⟩
        exact hclear hclear'
      · obtain ⟨row, hget, hrevoked⟩ := hrow
        exact ⟨id, row, hcookie, hclear, hget, hrevoked⟩
    · rw [hcall]
      refine .inr (.inr ⟨?_, ?_, _, rfl, ?_, ?_, ?_⟩)
      · rintro ⟨id', row, _, hsome, hclear, hget, hlive, -⟩
        cases hcookie.symm.trans hsome
        rw [← Pool.view_of_clear hclear] at hget
        exact absurd (hlive.1.symm.trans (hnone row hget)) Bool.false_ne_true
      · rintro ⟨id', row, hsome, hclear, hget, hrevoked⟩
        cases hcookie.symm.trans hsome
        rw [← show p.view p.next = p.committed from if_neg hclear] at hget
        exact absurd (hrevoked.symm.trans (hnone row hget)) Bool.false_ne_true
      · rw [tokenPool, hcookie]
        dsimp only
        cases hget : p.latest.sessions.get? id with
        | none => exact ⟨rfl, rfl, rfl⟩
        | some row =>
          dsimp only
          rw [if_neg]
          · exact ⟨rfl, rfl, rfl⟩
          · rintro ⟨hclear, hrevoked⟩
            rw [← Pool.view_of_clear hclear] at hget
            exact absurd (hrevoked.symm.trans (hnone row hget)) Bool.false_ne_true
      · rw [Pool.latest_rotate]
      · rw [Pool.latest_rotate]

theorem lookup_accepts {token : String} {now checked used : Time} {rest : Cache} {info : Payload} :
    ((Plan.connect (.raised .locked, rest) (lookupApiToken rt token now checked used rest)).call q).1.1 =
        .principal (some info) ↔ q.Clear q.next ∧ accepts rt token checked q.latest = some info := by
  have hresult : ∀ t, ((lookupApiToken rt token now checked used rest).run t).1.1 = .principal (some info) ↔
      accepts rt token checked t = some info := by
    intro t
    rw [(lookup_run rt token now checked used rest t).1]
    cases accepts rt token checked t with
    | none => simp
    | some payload => simp
  simp only [Plan.call, Pool.call]
  by_cases hclear : q.Clear q.next
  · rw [(Script.exec_of_clear _ hclear).1, hresult]
    exact (and_iff_right hclear).symm
  · rw [iff_false_right fun h => hclear h.1]
    rcases Script.exec_blocked (.raised .locked, rest) (lookupApiToken rt token now checked used rest) hclear with
      hfailed | ⟨hreads, hread⟩
    · rw [hfailed]
      intro hsome
      cases hsome
    · rw [hread, hresult, accepts_iff]
      rintro ⟨row, user, hrow, haccepts, -⟩
      have hrefused : Refused rt token checked row :=
        ((reads_lookup token now checked used).mp hreads).2 (idPart token, row) (by rw [Tables.tokenById, hrow]; rfl)
      exact refused_iff.mp hrefused haccepts

theorem pooled_verifyApiToken {token : String} {now checked used : Time} {info : Payload} :
    (pooledCall rt (.verifyApiToken token now checked used) (q, cache)).1 = .principal (some info) ↔
      apiTokenPrefix.toList <+: token.toList ∧
        ((∃ entry, cache.get? (rt.sha256Hex token) = some entry ∧ now < entry.1 ∧ entry.2 = info) ∨
          ((∀ entry, cache.get? (rt.sha256Hex token) = some entry → ¬now < entry.1) ∧
            q.Clear q.next ∧ accepts rt token checked q.latest = some info)) := by
  simp only [pooledCall, authStore, verifyApiToken]
  by_cases hleads : apiTokenPrefix.toList <+: token.toList
  · rw [if_neg (not_not.mpr hleads), and_iff_right hleads]
    cases hentry : cache.get? (rt.sha256Hex token) with
    | none => simp [lookup_accepts]
    | some entry =>
      obtain ⟨expiresAt, payload⟩ := entry
      by_cases hgood : now < expiresAt
      · simp [Plan.call, hgood]
      · simp [lookup_accepts, hgood, not_lt.mp hgood]
  · rw [if_pos hleads]
    simp [Plan.call, hleads]

/-- The bearer token that is looked up after the cookie. -/
theorem tokenPrincipal_iff (hturns : q.SameTurns (tokenPool clock r p)) (husers : q.latest.users = p.latest.users)
    (htokens : q.latest.apiTokens = p.latest.apiTokens) (scope : String) :
    (∃ principal, (tokenPrincipal (pooledCall rt) rt clock r (q, cache)).1 = .ok (some principal) ∧
        ("*" ∈ principal.scopes ∨ scope ∈ principal.scopes)) ↔ HasToken rt clock r p cache scope := by
  have hclear := hturns.clear q.next
  have hfound : ∀ token, parseBearer rt r.authorization = some token → ∀ principal,
      (tokenPrincipal (pooledCall rt) rt clock r (q, cache)).1 = .ok (some principal) ↔
        ∃ info, (pooledCall rt (.verifyApiToken token clock.now clock.checked clock.used) (q, cache)).1 =
          .principal (some info) ∧ info.principal = principal := by
    intro token htoken principal
    simp only [tokenPrincipal, htoken]
    generalize pooledCall rt (.verifyApiToken token clock.now clock.checked clock.used) (q, cache) = after
    obtain ⟨outcome, store⟩ := after
    cases outcome with
    | principal info => cases info <;> simp
    | _ => simp
  rw [HasToken, ← hturns.next]
  cases hbearer : parseBearer rt r.authorization with
  | none => simp [tokenPrincipal, hbearer]
  | some token =>
    simp only [hfound token hbearer, pooled_verifyApiToken, Option.some.injEq, exists_eq_left', hclear]
    constructor
    · rintro ⟨_, ⟨info, ⟨hleads, hcase⟩, rfl⟩, hscope⟩
      rw [grants_iff] at hscope
      refine ⟨hleads, hcase.imp ?_ ?_⟩
      · rintro ⟨entry, hentry, hgood, rfl⟩
        exact ⟨entry, hentry, hgood, hscope⟩
      · rintro ⟨hstale, hwrites, haccepts⟩
        obtain ⟨row, user, hrow, hrowAccepts, huser, hactive, rfl⟩ := accepts_iff.mp haccepts
        rw [htokens] at hrow
        rw [husers] at huser
        exact ⟨hstale, hwrites, row, user, hrow, hrowAccepts, huser, hactive, hscope.imp_left of_decide_eq_true⟩
    · rintro ⟨hleads, ⟨entry, hentry, hgood, hscope⟩ |
        ⟨hstale, hwrites, row, user, hrow, haccepts, huser, hactive, hscope⟩⟩
      · exact ⟨_, ⟨entry.2, ⟨hleads, .inl ⟨entry, hentry, hgood, rfl⟩⟩, rfl⟩, (grants_iff _ _).mpr hscope⟩
      · rw [← htokens] at hrow
        rw [← husers] at huser
        have haccepted := accepts_iff.mpr ⟨row, user, hrow, haccepts, huser, hactive, rfl⟩
        exact ⟨_, ⟨_, ⟨hleads, .inr ⟨hstale, hwrites, haccepted⟩⟩, rfl⟩,
          (grants_iff _ _).mpr (hscope.imp_left decide_eq_true)⟩

end Found

end SynQc.Auth
