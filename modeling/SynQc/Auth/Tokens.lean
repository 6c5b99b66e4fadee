import Mathlib.Data.Set.Function
import SynQc.Auth.Store
import SynQc.Library.Transition

/-! API tokens over time: histories of calls on one store.

A `History` keeps, beside tables, cache and clock, a log of the tokens that were issued and
when each was revoked. The rows of the log's tokens say the same (`Logged`), so a lookup
accepts exactly the tokens that are valid. The cache does not follow them: an entry lives
for 30 seconds, whatever happens to its token meanwhile. -/
namespace SynQc.Auth
open Sql Transition

/-- A token that was issued. -/
structure Issue where
  token : String
  id : String
  owner : Int
  scopes : List String
  expiresAt : Option Time
  revokedAt : Option Time := none

/-- The clock readings of a call, in order. -/
def Request.readings : Request → List Time
  | .createUser _ _ _ now | .createSession _ _ _ _ _ _ now | .revokeSession _ now | .createApiToken _ _ _ _ _ _ now
  | .revokeApiToken _ _ now => [now]
  | .getSession _ checked seen => [checked, seen]
  | .verifyApiToken _ now checked used => [now, checked, used]
  | .getUserByEmail _ | .getUserById _ | .userCount | .listApiTokens _ => []

/-- The clock after some readings, none of which goes back. -/
def clock (now : Time) : List Time → Option Time
  | [] => some now
  | t :: rest => if now ≤ t then clock t rest else none

/-- What a call adds to the log. -/
def note (request : Request) (outcome : Outcome) (issued : List Issue) : List Issue :=
  match request, outcome with
  | .createApiToken userId scopes _ expiresAt id _ _, .newToken token _ =>
    ⟨token, id.hex, userId, scopes, expiresAt, none⟩ :: issued
  | .revokeApiToken tokenId userId now, _ => issued.map fun k =>
    if k.id = tokenId ∧ (userId = none ∨ userId = some k.owner) ∧ k.revokedAt = none then
      {k with revokedAt := some now}
    else k
  | _, _ => issued

structure History where
  tables : Tables
  cache : Cache := Dict.empty
  now : Time
  issued : List Issue := []

/-- Histories of calls on a store that starts without tokens. -/
def history (rt : Runtime) : System History Request where
  init s := ∃ t start, t.apiTokens = Dict.empty ∧ 0 < start ∧ s = { tables := t, now := start }
  step request s := (clock s.now request.readings).map fun now =>
    let after := (authStore rt request s.cache).run s.tables
    { tables := after.2, cache := after.1.2, now := now, issued := note request after.1.1 s.issued }

/-- Issued, not revoked, not expired, and its owner active. -/
def History.Valid (s : History) (token : String) (t : Time) : Prop := ∃ k ∈ s.issued, k.token = token ∧
  k.revokedAt = none ∧ (∀ e ∈ k.expiresAt, t < e) ∧
    ∃ user, s.tables.users.get? k.owner = some user ∧ user.isActive ≠ 0

/-- The tokens that are issued and presented are among some strings. -/
def among (strings : Set String) : Request → History → Prop
  | .createApiToken _ _ _ _ id secret _, _ => (makePrefixedToken apiTokenPrefix id secret).1 ∈ strings
  | .verifyApiToken token _ _ _, _ => token ∈ strings
  | _, _ => True

/-! ### Token rows -/

/-- What a row says of its token, for good or until it is revoked. -/
structure Grant where
  userId : Int
  tokenHash : String
  scopes : Option (List String)
  expiresAt : Option Time
  revokedAt : Option Time

def TokenRow.grant (row : TokenRow) : Grant :=
  ⟨row.userId, row.tokenHash, row.scopes, row.expiresAt, row.revokedAt⟩

def Tables.grant (t : Tables) (id : String) : Option Grant := (t.apiTokens.get? id).map TokenRow.grant

def Issue.grant (rt : Runtime) (k : Issue) : Grant :=
  ⟨k.owner, rt.sha256Hex k.token, some k.scopes, k.expiresAt, k.revokedAt⟩

/-- A token that is made has its id before its dot. -/
theorem idPart_made (id : Uuid) (secret : String) :
    idPart (makePrefixedToken apiTokenPrefix id secret).1 = id.hex ∧
      apiTokenPrefix.toList <+: (makePrefixedToken apiTokenPrefix id secret).1.toList := by
  have hlist : (makePrefixedToken apiTokenPrefix id secret).1.toList =
      apiTokenPrefix.toList ++ (id.hex.toList ++ '.' :: secret.toList) := by
    simp [makePrefixedToken]
  have hleading : ∀ c ∈ apiTokenPrefix.toList, decide (c ≠ '.') = true :=
    List.all_eq_true.mp (show (apiTokenPrefix.toList.all fun c => decide (c ≠ '.')) = true by decide +kernel)
  have hhex : ∀ c ∈ id.hex.toList, decide (c ≠ '.') = true := by
    intro c hc
    rw [decide_eq_true_iff]
    rintro rfl
    exact absurd (id.digits _ hc) (by decide +kernel)
  refine ⟨?_, ⟨_, hlist.symm⟩⟩
  have hsplit : (splitToken (makePrefixedToken apiTokenPrefix id secret).1).1 = apiTokenPrefix.toList ++ id.hex.toList := by
    rw [splitToken, hlist, List.takeWhile_append_of_pos hleading, List.takeWhile_append_of_pos hhex]
    simp
  rw [idPart, hsplit, removePrefix, if_pos (List.prefix_append _ _), List.drop_left]
  exact String.ofList_toList

section Calls
variable {rt : Runtime} {strings : Set String} {s u : History}

/-- What `verify_api_token` finds in the tables, if it accepts the token. -/
def accepts (rt : Runtime) (token : String) (checked : Time) (t : Tables) : Option Payload :=
  match t.grant (idPart token) with
  | none => none
  | some g =>
    if isRevoked g.revokedAt then none
    else if g.expiresAt.any (· ≤ checked) then none
    else if rt.sha256Hex token ≠ g.tokenHash then none
    else
      match t.users.get? g.userId with
      | none => none
      | some user =>
        if user.isActive = 0 then none
        else some ⟨g.userId, user.email, user.isAdmin ≠ 0, g.scopes.getD []⟩

theorem accepts_some {token : String} {checked : Time} {t : Tables} {payload : Payload}
    (h : accepts rt token checked t = some payload) : ∃ g user, t.grant (idPart token) = some g ∧
      t.users.get? g.userId = some user ∧
        payload = ⟨g.userId, user.email, user.isAdmin ≠ 0, g.scopes.getD []⟩ := by
  rw [accepts] at h
  split at h
  · cases h
  · rename_i g hg
    split at h
    · cases h
    · split at h
      · cases h
      · split at h
        · cases h
        · split at h
          · cases h
          · rename_i user huser
            split at h
            · cases h
            · cases h
              exact ⟨g, user, hg, huser, rfl⟩

/-- Tokens keep what was granted, and users are not changed. -/
structure Granted (t t' : Tables) : Prop where
  grant : ∀ id, t'.grant id = t.grant id
  users : ∀ id user, t.users.get? id = some user → t'.users.get? id = some user

theorem granted_of_kept {t t' : Tables} (h : Tables.TokensKept t t') : Granted t t' :=
  ⟨fun id => by rw [Tables.grant, h.1, Tables.grant], h.2⟩

/-- The lookup writes a row's last use, and the cache if it accepts. -/
theorem lookup_run (rt : Runtime) (token : String) (now checked used : Time) (cache : Cache) (t : Tables) :
    ((lookupApiToken rt token now checked used cache).run t).1 =
      (match accepts rt token checked t with
        | none => (.principal none, cache)
        | some payload =>
          (.principal (some payload), cache.set (rt.sha256Hex token) (now + tokenCacheTtlSeconds, payload))) ∧
    Granted t ((lookupApiToken rt token now checked used cache).run t).2 := by
  have hrefl : Granted t t := ⟨fun _ => rfl, fun _ _ hget => hget⟩
  have hid : String.ofList (removePrefix apiTokenPrefix.toList (splitToken token).1) = idPart token := rfl
  simp only [lookupApiToken, Script.run, hid]
  cases hrow : t.apiTokens.get? (idPart token) with
  | none =>
    simp only [Tables.tokenById, accepts, Tables.grant, hrow, Option.map_none, Script.run]
    exact ⟨trivial, hrefl⟩
  | some row =>
    have hgrant : t.grant (idPart token) = some row.grant := by rw [Tables.grant, hrow]; rfl
    simp only [Tables.tokenById, accepts, hgrant, hrow, Option.map_some, TokenRow.grant]
    by_cases hrevoked : isRevoked row.revokedAt = true
    · simp only [if_pos hrevoked, Script.run]
      exact ⟨trivial, hrefl⟩
    by_cases hexpired : row.expiresAt.any (· ≤ checked) = true
    · simp only [if_neg hrevoked, if_pos hexpired, Script.run]
      exact ⟨trivial, hrefl⟩
    by_cases hhash : rt.sha256Hex token ≠ row.tokenHash
    · simp only [if_neg hrevoked, if_neg hexpired, if_pos hhash, Script.run]
      exact ⟨trivial, hrefl⟩
    simp only [if_neg hrevoked, if_neg hexpired, if_neg hhash, Script.run]
    -- The last use is written before the user is looked at.
    generalize hused : t.updateToken (idPart token) (fun _ => true) (fun row => {row with lastUsedAt := some used})
      (fun _ => rfl) = after
    have husers : after.2.users = t.users := by rw [← hused, Tables.users_updateToken]
    have hgranted : Granted t after.2 := by
      refine ⟨fun id => ?_, fun id user hget => by rw [husers]; exact hget⟩
      rw [Tables.grant, ← hused, Tables.get?_updateToken, Option.map_map, Tables.grant]
      refine Option.map_congr fun row' _ => ?_
      simp only [Function.comp_apply]
      split <;> rfl
    simp only [Tables.userById, husers]
    cases huser : t.users.get? row.userId with
    | none =>
      simp only [Option.map_none, Script.run]
      exact ⟨trivial, hgranted⟩
    | some user =>
      simp only [Option.map_some]
      split
      · exact ⟨rfl, hgranted⟩
      · exact ⟨rfl, hgranted⟩

/-- The three ways of `verify_api_token`: no prefix, a live entry of the cache, or a lookup that may have dropped a
dead one. -/
theorem verify_cases (rt : Runtime) (token : String) (now checked used : Time) (cache : Cache) (t : Tables) :
    (¬apiTokenPrefix.toList <+: token.toList ∧
      (verifyApiToken rt token now checked used cache).run t = ((.principal none, cache), t)) ∨
    (∃ entry, cache.get? (rt.sha256Hex token) = some entry ∧ now < entry.1 ∧
      (verifyApiToken rt token now checked used cache).run t = ((.principal (some entry.2), cache), t)) ∨
    ((∀ entry, cache.get? (rt.sha256Hex token) = some entry → ¬now < entry.1) ∧ ∃ rest : Cache,
      (∀ hash entry, rest.get? hash = some entry → cache.get? hash = some entry) ∧
      (verifyApiToken rt token now checked used cache).run t =
        (lookupApiToken rt token now checked used rest).run t) := by
  rw [verifyApiToken]
  split
  · rename_i hleads
    exact .inl ⟨hleads, rfl⟩
  · cases hentry : cache.get? (rt.sha256Hex token) with
    | none =>
      refine .inr (.inr ⟨fun _ hsome => ?_, cache, fun _ _ hget => hget, rfl⟩)
      cases hsome
    | some entry =>
      by_cases hlive : now < entry.1
      · refine .inr (.inl ⟨entry, rfl, hlive, ?_⟩)
        simp only [if_pos (show entry.1 > now from hlive), Plan.run]
      · refine .inr (.inr ⟨fun entry' hsame => ?_, cache.erase (rt.sha256Hex token), fun hash entry' hget => ?_, ?_⟩)
        · cases hsame
          exact hlive
        · rw [Dict.get?_erase] at hget
          split at hget
          · cases hget
          · exact hget
        · simp only [if_neg (show ¬entry.1 > now from hlive), Plan.run]

theorem create_cases (rt : Runtime) (userId : Int) (scopes : List String) (label : Option String)
    (expiresAt : Option Time) (id : Uuid) (secret : String) (now : Time) (t : Tables) :
    (∃ error, (createApiToken rt userId scopes label expiresAt id secret now).run t = (.raised error, t)) ∨
    (t.grant id.hex = none ∧ ∃ row t', (createApiToken rt userId scopes label expiresAt id secret now).run t =
        (.newToken (makePrefixedToken apiTokenPrefix id secret).1 row, t') ∧ t'.users = t.users ∧
      ∀ id', t'.grant id' = if id.hex = id' then
        some ⟨userId, rt.sha256Hex (makePrefixedToken apiTokenPrefix id secret).1, some scopes, expiresAt, none⟩
      else t.grant id') := by
  have hid : (makePrefixedToken apiTokenPrefix id secret).2 = id.hex := rfl
  simp only [createApiToken, Script.run, hid]
  generalize hrow : TokenRow.mk userId label _ _ _ _ _ _ _ = row
  rcases Tables.insertToken_cases id.hex row t with ⟨message, hfailed⟩ | ⟨hnone, hok, htokens, husers⟩
  · left
    refine ⟨.integrity message, ?_⟩
    rw [hfailed]
    rfl
  · right
    refine ⟨by rw [Tables.grant, hnone]; rfl, (id.hex, row), (t.insertToken id.hex row).2, ?_, husers, fun id' => ?_⟩
    · rw [hok]
      have hfound : (t.insertToken id.hex row).2.tokenById id.hex = some (id.hex, row) := by
        rw [Tables.tokenById, htokens, Dict.get?_set_self]
        rfl
      rw [Script.run, hfound]
      rfl
    · rw [Tables.grant, htokens, Dict.get?_set]
      split
      · rw [← hrow]
        rfl
      · rfl

theorem revoke_run (tokenId : String) (userId : Option Int) (now : Time) (t : Tables) :
    ((revokeApiToken tokenId userId now).run t).2.users = t.users ∧
    ∀ id', ((revokeApiToken tokenId userId now).run t).2.grant id' = (t.grant id').map fun g =>
      if tokenId = id' ∧ (userId = none ∨ userId = some g.userId) ∧ g.revokedAt = none then
        {g with revokedAt := some now}
      else g := by
  refine ⟨Tables.users_updateToken _ _ _ _ _, fun id' => ?_⟩
  show Tables.grant (t.updateToken _ _ _ _).2 id' = _
  rw [Tables.grant, Tables.get?_updateToken, Tables.grant, Option.map_map, Option.map_map]
  congr 1
  funext row
  simp only [Function.comp_apply, TokenRow.grant, Bool.and_eq_true, Option.isNone_iff_eq_none]
  cases userId with
  | none =>
    simp only [true_and, true_or]
    split <;> rfl
  | some id =>
    simp only [decide_eq_true_eq, Option.some.injEq, reduceCtorEq, false_or, eq_comm (a := id)]
    split <;> rfl

end Calls

/-! ### The log and the tables -/

/-- The rows are those of the issued tokens, and what the cache holds was once read from them. -/
structure Logged (rt : Runtime) (strings : Set String) (s : History) : Prop where
  row : ∀ k ∈ s.issued, s.tables.grant k.id = some (k.grant rt)
  logged : ∀ id g, s.tables.grant id = some g → ∃ k ∈ s.issued, k.id = id
  made : ∀ k ∈ s.issued, idPart k.token = k.id ∧ apiTokenPrefix.toList <+: k.token.toList ∧ k.token ∈ strings
  positive : 0 < s.now
  revokedLate : ∀ k ∈ s.issued, ∀ r ∈ k.revokedAt, 0 < r
  cached : ∀ hash entry, s.cache.get? hash = some entry → ∃ k ∈ s.issued, rt.sha256Hex k.token = hash ∧
    entry.2.userId = k.owner ∧ entry.2.scopes = k.scopes ∧
      ∃ user, s.tables.users.get? k.owner = some user ∧ user.isActive ≠ 0

section Logged
variable {rt : Runtime} {strings : Set String} {s u : History}

/-- A call that issues and revokes nothing. -/
theorem Logged.keep (h : Logged rt strings s) (hissued : u.issued = s.issued) (htables : Granted s.tables u.tables)
    (hnow : s.now ≤ u.now)
    (hcache : ∀ hash entry, u.cache.get? hash = some entry → s.cache.get? hash = some entry ∨
      ∃ k ∈ s.issued, rt.sha256Hex k.token = hash ∧ entry.2.userId = k.owner ∧ entry.2.scopes = k.scopes ∧
        ∃ user, s.tables.users.get? k.owner = some user ∧ user.isActive ≠ 0) : Logged rt strings u := by
  refine ⟨fun k hk => ?_, fun id g hg => ?_, fun k hk => ?_, h.positive.trans_le hnow, fun k hk => ?_,
    fun hash entry hget => ?_⟩
  · rw [htables.grant]
    exact h.row k (hissued ▸ hk)
  · rw [hissued]
    exact h.logged id g (htables.grant id ▸ hg)
  · exact h.made k (hissued ▸ hk)
  · exact h.revokedLate k (hissued ▸ hk)
  · rw [hissued]
    have hold : ∃ k ∈ s.issued, rt.sha256Hex k.token = hash ∧ entry.2.userId = k.owner ∧ entry.2.scopes = k.scopes ∧
        ∃ user, s.tables.users.get? k.owner = some user ∧ user.isActive ≠ 0 := by
      rcases hcache hash entry hget with hbefore | hnew
      · exact h.cached hash entry hbefore
      · exact hnew
    obtain ⟨k, hk, hhash, howner, hscopes, user, huser, hactive⟩ := hold
    exact ⟨k, hk, hhash, howner, hscopes, user, htables.users _ _ huser, hactive⟩

/-- Tokens with one id are one. -/
theorem Logged.same (h : Logged rt strings s) (hinj : Set.InjOn rt.sha256Hex strings) {k k' : Issue}
    (hk : k ∈ s.issued) (hk' : k' ∈ s.issued) (hid : k.id = k'.id) : k = k' := by
  have hrow := h.row k hk
  rw [hid, h.row k' hk'] at hrow
  simp only [Issue.grant, Option.some.injEq, Grant.mk.injEq] at hrow
  obtain ⟨howner, hhash, hscopes, hexpires, hrevoked⟩ := hrow
  have htoken : k'.token = k.token := hinj (h.made k' hk').2.2 (h.made k hk).2.2 hhash
  cases k
  cases k'
  simp_all

theorem Logged.isRevoked_iff (h : Logged rt strings s) {k : Issue} (hk : k ∈ s.issued) :
    isRevoked k.revokedAt = true ↔ k.revokedAt ≠ none := by
  have hlate := h.revokedLate k hk
  cases hrevoked : k.revokedAt with
  | none => simp [isRevoked]
  | some r =>
    have hr := hlate r hrevoked
    simp [isRevoked, hr.ne']

/-- Only issued tokens are accepted. -/
theorem Logged.issued_of_accepts (h : Logged rt strings s) (hinj : Set.InjOn rt.sha256Hex strings) {token : String}
    (htoken : token ∈ strings) {checked : Time} {payload : Payload}
    (haccepts : accepts rt token checked s.tables = some payload) : ∃ k ∈ s.issued, k.token = token := by
  rw [accepts] at haccepts
  split at haccepts
  · cases haccepts
  · rename_i g hg
    obtain ⟨k, hk, hid⟩ := h.logged _ g hg
    have hrow := h.row k hk
    rw [hid, hg] at hrow
    cases hrow
    refine ⟨k, hk, ?_⟩
    split at haccepts
    · cases haccepts
    · split at haccepts
      · cases haccepts
      · split at haccepts
        · cases haccepts
        · rename_i hhash
          exact (hinj htoken (h.made k hk).2.2 (not_not.mp hhash)).symm

/-- What the lookup makes of an issued token. -/
theorem Logged.accepts_issued (h : Logged rt strings s) {k : Issue} (hk : k ∈ s.issued) (checked : Time)
    (payload : Payload) : accepts rt k.token checked s.tables = some payload ↔
      k.revokedAt = none ∧ (∀ e ∈ k.expiresAt, checked < e) ∧ ∃ user, s.tables.users.get? k.owner = some user ∧
        user.isActive ≠ 0 ∧ payload = ⟨k.owner, user.email, user.isAdmin ≠ 0, k.scopes⟩ := by
  have hexpired : k.expiresAt.any (· ≤ checked) = true ↔ ¬∀ e ∈ k.expiresAt, checked < e := by
    cases k.expiresAt <;> simp
  rw [accepts, (h.made k hk).1, h.row k hk]
  simp only [Issue.grant, h.isRevoked_iff hk, hexpired, ne_eq, not_true_eq_false, if_false, Option.getD_some]
  by_cases hrevoked : k.revokedAt = none
  · rw [if_neg (not_not.mpr hrevoked)]
    by_cases hlate : ∀ e ∈ k.expiresAt, checked < e
    · rw [if_neg (not_not.mpr hlate)]
      cases huser : s.tables.users.get? k.owner with
      | none => simp
      | some user =>
        by_cases hactive : user.isActive = 0
        · simp [hactive]
        · simp only [if_neg hactive, Option.some.injEq]
          refine ⟨fun hsame => ⟨hrevoked, hlate, user, rfl, hactive, hsame.symm⟩, ?_⟩
          rintro ⟨_, _, _, rfl, _, hsame⟩
          exact hsame.symm
    · rw [if_pos hlate]
      refine ⟨fun hnone => ?_, fun hall => absurd hall.2.1 hlate⟩
      cases hnone
  · rw [if_pos hrevoked]
    refine ⟨fun hnone => ?_, fun hall => absurd hall.1 hrevoked⟩
    cases hnone

theorem clock_le {now t : Time} {readings : List Time} (h : clock now readings = some t) : now ≤ t := by
  induction readings generalizing now with
  | nil =>
    cases h
    exact le_rfl
  | cons first rest ih =>
    rw [clock] at h
    split at h
    · rename_i hle
      exact hle.trans (ih h)
    · cases h

/-- A call that has nothing to do with tokens. -/
theorem Logged.other (h : Logged rt strings s) {request : Request} (script : Script Tables Outcome)
    (hplan : authStore rt request s.cache = keeping s.cache script) (hkeeps : script.Keeps Tables.TokensKept)
    (hnote : ∀ outcome, note request outcome s.issued = s.issued)
    (hstep : (history rt).step request s = some u) : Logged rt strings u := by
  obtain ⟨now, hclock, rfl⟩ := Option.map_eq_some_iff.mp hstep
  rw [hplan]
  simp only [keeping, Plan.run, Script.run_map]
  refine h.keep (hnote _) (granted_of_kept ?_) (clock_le hclock) fun _ _ => .inl
  refine Script.run_keeps (fun t => ⟨rfl, fun _ _ hget => hget⟩) (fun t t' t'' ht ht' => ?_) hkeeps s.tables
  exact ⟨ht'.1.trans ht.1, fun id user hget => ht'.2 id user (ht.2 id user hget)⟩

theorem Logged.create (h : Logged rt strings s) {userId : Int} {scopes : List String} {label : Option String}
    {expiresAt : Option Time} {id : Uuid} {secret : String} {at' : Time}
    (htoken : (makePrefixedToken apiTokenPrefix id secret).1 ∈ strings)
    (hstep : (history rt).step (.createApiToken userId scopes label expiresAt id secret at') s = some u) :
    Logged rt strings u := by
  obtain ⟨now, hclock, rfl⟩ := Option.map_eq_some_iff.mp hstep
  have hnow := clock_le hclock
  simp only [authStore, keeping, Plan.run, Script.run_map]
  rcases create_cases rt userId scopes label expiresAt id secret at' s.tables with
    ⟨error, hrun⟩ | ⟨hnone, row, t', hrun, husers, hgrant⟩
  · rw [hrun]
    exact h.keep rfl ⟨fun _ => rfl, fun _ _ hget => hget⟩ hnow fun _ _ => .inl
  · rw [hrun]
    have hold : ∀ k ∈ s.issued, id.hex ≠ k.id := by
      intro k hk hid
      have hrow := h.row k hk
      rw [← hid, hnone] at hrow
      cases hrow
    refine ⟨fun k hk => ?_, fun id' g hg => ?_, fun k hk => ?_, h.positive.trans_le hnow, fun k hk => ?_,
      fun hash entry hget => ?_⟩
    · rcases List.mem_cons.mp hk with rfl | hk
      · exact (hgrant id.hex).trans (if_pos rfl)
      · exact (hgrant k.id).trans ((if_neg (hold k hk)).trans (h.row k hk))
    · change t'.grant id' = some g at hg
      rw [hgrant] at hg
      split at hg
      · rename_i hid
        exact ⟨_, List.mem_cons_self, hid⟩
      · obtain ⟨k, hk, hid⟩ := h.logged id' g hg
        exact ⟨k, List.mem_cons_of_mem _ hk, hid⟩
    · rcases List.mem_cons.mp hk with rfl | hk
      · obtain ⟨hid, hleads⟩ := idPart_made id secret
        exact ⟨hid, hleads, htoken⟩
      · exact h.made k hk
    · rcases List.mem_cons.mp hk with rfl | hk
      · intro _ hrevoked
        cases hrevoked
      · exact h.revokedLate k hk
    · obtain ⟨k, hk, hhash, howner, hscopes, huser⟩ := h.cached hash entry hget
      refine ⟨k, List.mem_cons_of_mem _ hk, hhash, howner, hscopes, ?_⟩
      show ∃ user, t'.users.get? k.owner = some user ∧ _
      rw [husers]
      exact huser

theorem Logged.revoke (h : Logged rt strings s) {tokenId : String} {userId : Option Int} {at' : Time}
    (hstep : (history rt).step (.revokeApiToken tokenId userId at') s = some u) : Logged rt strings u := by
  obtain ⟨now, hclock, rfl⟩ := Option.map_eq_some_iff.mp hstep
  have hnow := clock_le hclock
  have hlate : 0 < at' := by
    rw [Request.readings, clock] at hclock
    split at hclock
    · rename_i hle
      exact h.positive.trans_le hle
    · cases hclock
  obtain ⟨husers, hgrant⟩ := revoke_run tokenId userId at' s.tables
  simp only [authStore, keeping, Plan.run, Script.run_map, note]
  refine ⟨fun k' hk' => ?_, fun id g hg => ?_, fun k' hk' => ?_, h.positive.trans_le hnow, fun k' hk' => ?_,
    fun hash entry hget => ?_⟩
  · obtain ⟨k, hk, rfl⟩ := List.mem_map.mp hk'
    have hrow := h.row k hk
    by_cases hmeets : k.id = tokenId ∧ (userId = none ∨ userId = some k.owner) ∧ k.revokedAt = none
    · rw [if_pos hmeets, hgrant, hrow]
      exact congrArg some (if_pos ⟨hmeets.1.symm, hmeets.2⟩)
    · rw [if_neg hmeets, hgrant, hrow]
      exact congrArg some (if_neg fun hall => hmeets ⟨hall.1.symm, hall.2⟩)
  · rw [hgrant] at hg
    obtain ⟨g', hg', _⟩ := Option.map_eq_some_iff.mp hg
    obtain ⟨k, hk, hid⟩ := h.logged id g' hg'
    refine ⟨_, List.mem_map_of_mem hk, ?_⟩
    split <;> exact hid
  · obtain ⟨k, hk, rfl⟩ := List.mem_map.mp hk'
    split <;> exact h.made k hk
  · obtain ⟨k, hk, rfl⟩ := List.mem_map.mp hk'
    split
    · rintro r ⟨⟩
      exact hlate
    · exact h.revokedLate k hk
  · obtain ⟨k, hk, hhash, howner, hscopes, huser⟩ := h.cached hash entry hget
    rw [← husers] at huser
    refine ⟨_, List.mem_map_of_mem hk, ?_⟩
    split <;> exact ⟨hhash, howner, hscopes, huser⟩

theorem Logged.verify (h : Logged rt strings s) (hinj : Set.InjOn rt.sha256Hex strings) {token : String}
    {at' checked used : Time} (htoken : token ∈ strings)
    (hstep : (history rt).step (.verifyApiToken token at' checked used) s = some u) : Logged rt strings u := by
  obtain ⟨now, hclock, rfl⟩ := Option.map_eq_some_iff.mp hstep
  have hnow := clock_le hclock
  simp only [authStore]
  rcases verify_cases rt token at' checked used s.cache s.tables with
    ⟨_, hrun⟩ | ⟨entry, _, _, hrun⟩ | ⟨_, rest, hrest, hrun⟩
  · rw [hrun]
    exact h.keep rfl ⟨fun _ => rfl, fun _ _ hget => hget⟩ hnow fun _ _ => .inl
  · rw [hrun]
    exact h.keep rfl ⟨fun _ => rfl, fun _ _ hget => hget⟩ hnow fun _ _ => .inl
  · rw [hrun]
    obtain ⟨hresult, hgranted⟩ := lookup_run rt token at' checked used rest s.tables
    refine h.keep rfl hgranted hnow fun hash entry hget => ?_
    rw [hresult] at hget
    cases haccepts : accepts rt token checked s.tables with
    | none =>
      rw [haccepts] at hget
      exact .inl (hrest hash entry hget)
    | some payload =>
      rw [haccepts] at hget
      change (rest.set _ _).get? hash = some entry at hget
      rw [Dict.get?_set] at hget
      split at hget
      · rename_i hhash
        cases hget
        obtain ⟨k, hk, rfl⟩ := h.issued_of_accepts hinj htoken haccepts
        obtain ⟨_, _, user, huser, hactive, rfl⟩ := (h.accepts_issued hk checked payload).mp haccepts
        exact .inr ⟨k, hk, hhash, rfl, rfl, user, huser, hactive⟩
      · exact .inl (hrest hash entry hget)

theorem logged_step (hinj : Set.InjOn rt.sha256Hex strings) {request : Request} (h : Logged rt strings s)
    (hrule : among strings request s) (hstep : (history rt).step request s = some u) : Logged rt strings u := by
  cases request with
  | createApiToken userId scopes label expiresAt id secret now => exact h.create hrule hstep
  | revokeApiToken tokenId userId now => exact h.revoke hstep
  | verifyApiToken token now checked used => exact h.verify hinj hrule hstep
  | userCount => exact h.other userCount rfl (fun _ => trivial) (fun _ => rfl) hstep
  | getUserByEmail email => exact h.other (getUserByEmail rt email) rfl (fun _ => trivial) (fun _ => rfl) hstep
  | getUserById id => exact h.other (getUserById id) rfl (fun _ => trivial) (fun _ => rfl) hstep
  | listApiTokens userId => exact h.other (listApiTokens userId) rfl (fun _ => trivial) (fun _ => rfl) hstep
  | createUser email passwordHash isAdmin now =>
    refine h.other (createUser rt email passwordHash isAdmin now) rfl
      ⟨Tables.tokensKept_insertUser _, fun answer => ?_⟩ (fun _ => rfl) hstep
    cases answer with
    | error message => trivial
    | ok _ =>
      intro user
      cases user <;> trivial
  | createSession userId ttlSeconds id csrfId secret csrfSecret now =>
    refine h.other (createSession userId ttlSeconds id csrfId secret csrfSecret now) rfl
      ⟨Tables.tokensKept_insertSession _ _, fun answer => ?_⟩ (fun _ => rfl) hstep
    cases answer <;> trivial
  | getSession id checked seen =>
    refine h.other (getSession id checked seen) rfl (fun row => ?_) (fun _ => rfl) hstep
    cases row with
    | none => trivial
    | some row =>
      show Script.Keeps _ (if _ then _ else _)
      split
      · trivial
      · split
        · exact ⟨fun t => ⟨rfl, fun _ _ hget => hget⟩, fun _ => trivial⟩
        · exact ⟨Tables.tokensKept_updateSession _ _ _, fun _ => trivial⟩
  | revokeSession id now =>
    exact h.other (revokeSession id now) rfl ⟨Tables.tokensKept_updateSession _ _ _, fun _ => trivial⟩ (fun _ => rfl)
      hstep

theorem logged_reachable (hinj : Set.InjOn rt.sha256Hex strings) (h : (history rt).Reachable (among strings) s) :
    Logged rt strings s := by
  refine System.reachable_invariant (fun s hs => ?_) (fun _ _ _ => logged_step hinj) h
  obtain ⟨t, start, hempty, hstart, rfl⟩ := hs
  refine ⟨nofun, fun id g hg => ?_, nofun, hstart, nofun, fun hash entry hget => ?_⟩
  · rw [Tables.grant, hempty] at hg
    cases hg
  · cases hget

/-- Being valid is a matter of the one entry of the log. -/
theorem Logged.valid_iff (h : Logged rt strings s) (hinj : Set.InjOn rt.sha256Hex strings) {k : Issue}
    (hk : k ∈ s.issued) (t : Time) : s.Valid k.token t ↔ k.revokedAt = none ∧ (∀ e ∈ k.expiresAt, t < e) ∧
      ∃ user, s.tables.users.get? k.owner = some user ∧ user.isActive ≠ 0 := by
  refine ⟨?_, fun hvalid => ⟨k, hk, rfl, hvalid⟩⟩
  rintro ⟨k', hk', htoken, hvalid⟩
  have hid : k.id = k'.id := by rw [← (h.made k hk).1, ← (h.made k' hk').1, htoken]
  rw [h.same hinj hk hk' hid]
  exact hvalid

theorem Logged.row_of (h : Logged rt strings s) {k : Issue} (hk : k ∈ s.issued) :
    ∃ row, s.tables.apiTokens.get? (idPart k.token) = some row ∧ row.revokedAt = k.revokedAt ∧
      row.expiresAt = k.expiresAt := by
  have hrow := h.row k hk
  rw [← (h.made k hk).1] at hrow
  obtain ⟨row, hget, hgrant⟩ := Option.map_eq_some_iff.mp hrow
  exact ⟨row, hget, congrArg Grant.revokedAt hgrant, congrArg Grant.expiresAt hgrant⟩

end Logged

/-- No live entry of the cache is of a token that was revoked or has expired. -/
def History.Fresh (rt : Runtime) (s : History) (token : String) (now checked : Time) : Prop :=
  ∀ entry, s.cache.get? (rt.sha256Hex token) = some entry → now < entry.1 →
    ∀ row, s.tables.apiTokens.get? (idPart token) = some row → row.revokedAt = none ∧ ∀ e ∈ row.expiresAt, checked < e

/-- **In every history, `verify_api_token` accepts exactly the valid tokens, with their owners and scopes, if and only
if it has no live cache entry for a token that is revoked or expired.** -/
theorem accepted_iff_valid (rt : Runtime) {strings : Set String} (hinj : Set.InjOn rt.sha256Hex strings) {s : History}
    (h : (history rt).Reachable (among strings) s) {token : String} (htoken : token ∈ strings)
    (now checked used : Time) :
    (((∃ payload, ((authStore rt (.verifyApiToken token now checked used) s.cache).run s.tables).1.1 =
        .principal (some payload)) ↔ s.Valid token checked) ∧
      ∀ payload, ((authStore rt (.verifyApiToken token now checked used) s.cache).run s.tables).1.1 =
        .principal (some payload) → ∃ k ∈ s.issued, k.token = token ∧ payload.userId = k.owner ∧
          payload.scopes = k.scopes) ↔
    s.Fresh rt token now checked := by
  have hlogged := logged_reachable hinj h
  simp only [authStore]
  rcases verify_cases rt token now checked used s.cache s.tables with
    ⟨hleads, hrun⟩ | ⟨entry, hentry, hlive, hrun⟩ | ⟨hdead, rest, hrest, hrun⟩
  · -- No token of the log is without the prefix.
    have hnone : ∀ k ∈ s.issued, k.token ≠ token := by
      rintro k hk rfl
      exact hleads (hlogged.made k hk).2.1
    rw [hrun]
    refine ⟨fun _ entry hentry => ?_, fun _ => ⟨⟨nofun, ?_⟩, nofun⟩⟩
    · obtain ⟨k, hk, hhash, _⟩ := hlogged.cached _ entry hentry
      exact absurd (hinj (hlogged.made k hk).2.2 htoken hhash) (hnone k hk)
    · rintro ⟨k, hk, hsame, _⟩
      exact absurd hsame (hnone k hk)
  · -- The entry is of the token's own log entry.
    obtain ⟨k, hk, hhash, howner, hscopes, huser⟩ := hlogged.cached _ entry hentry
    have hsame : k.token = token := hinj (hlogged.made k hk).2.2 htoken hhash
    subst hsame
    obtain ⟨row, hrow, hrevoked, hexpires⟩ := hlogged.row_of hk
    rw [hrun, hlogged.valid_iff hinj hk]
    refine ⟨fun ⟨hiff, _⟩ entry' _ _ row' hrow' => ?_, fun hfresh => ⟨⟨fun _ => ?_, fun _ => ⟨_, rfl⟩⟩, ?_⟩⟩
    · cases hrow.symm.trans hrow'
      obtain ⟨hnot, hearly, _⟩ := hiff.mp ⟨_, rfl⟩
      rw [hrevoked, hexpires]
      exact ⟨hnot, hearly⟩
    · obtain ⟨hnot, hearly⟩ := hfresh entry hentry hlive row hrow
      rw [hrevoked] at hnot
      rw [hexpires] at hearly
      exact ⟨hnot, hearly, huser⟩
    · rintro payload ⟨⟩
      exact ⟨k, hk, rfl, howner, hscopes⟩
  · -- The lookup is right.
    have hresult : ((lookupApiToken rt token now checked used rest).run s.tables).1.1 =
        .principal (accepts rt token checked s.tables) := by
      rw [(lookup_run rt token now checked used rest s.tables).1]
      cases accepts rt token checked s.tables <;> rfl
    rw [hrun, hresult]
    refine ⟨fun _ entry hentry hlive => absurd hlive (hdead entry hentry), fun _ => ⟨⟨?_, ?_⟩, ?_⟩⟩
    · rintro ⟨payload, haccepts⟩
      rw [Outcome.principal.injEq] at haccepts
      obtain ⟨k, hk, rfl⟩ := hlogged.issued_of_accepts hinj htoken haccepts
      obtain ⟨hnot, hearly, user, huser, hactive, _⟩ := (hlogged.accepts_issued hk checked payload).mp haccepts
      exact ⟨k, hk, rfl, hnot, hearly, user, huser, hactive⟩
    · rintro ⟨k, hk, rfl, hnot, hearly, user, huser, hactive⟩
      exact ⟨_, congrArg Outcome.principal
        ((hlogged.accepts_issued hk checked _).mpr ⟨hnot, hearly, user, huser, hactive, rfl⟩)⟩
    · intro payload haccepts
      rw [Outcome.principal.injEq] at haccepts
      obtain ⟨k, hk, rfl⟩ := hlogged.issued_of_accepts hinj htoken haccepts
      obtain ⟨_, _, _, _, _, rfl⟩ := (hlogged.accepts_issued hk checked payload).mp haccepts
      exact ⟨k, hk, rfl, rfl, rfl⟩

/-- A token is issued to a new user and presented. -/
def presented : List Request :=
  [.createUser "ada@example.org" "pbkdf2_sha256$1$AA$AA" true 1,
    .createApiToken 1 ["experiments:run"] none (some 100) uuid "s" 2,
    .verifyApiToken (makePrefixedToken apiTokenPrefix uuid "s").1 3 3 3]

/-- Any strings, where nothing collides. -/
theorem reachable_among {s : History} (h : (history plainRuntime).Reachable anything s) :
    (history plainRuntime).Reachable (among Set.univ) s := by
  refine h.weaken fun request s _ => ?_
  cases request <;> first | exact Set.mem_univ _ | trivial

theorem accepted_iff_valid_presented : ∃ s payload, (history plainRuntime).Reachable (among Set.univ) s ∧
    s.Valid (makePrefixedToken apiTokenPrefix uuid "s").1 5 ∧
    ((authStore plainRuntime (.verifyApiToken (makePrefixedToken apiTokenPrefix uuid "s").1 5 5 5) s.cache).run
      s.tables).1.1 = .principal (some payload) ∧ payload.userId = 1 := by
  have hrun : ((history plainRuntime).run { tables := Tables.empty, now := 1 } presented).map
      (fun s => (((authStore plainRuntime (.verifyApiToken (makePrefixedToken apiTokenPrefix uuid "s").1 5 5 5) s.cache).run
        s.tables).1.1, (s.tables.apiTokens.get? (idPart (makePrefixedToken apiTokenPrefix uuid "s").1)).map
          fun row => (row.revokedAt, row.expiresAt))) =
        some (.principal (some ⟨1, "ada@example.org", true, ["experiments:run"]⟩), some (none, some 100)) := by
    decide +kernel
  obtain ⟨s, hs, hseen⟩ := Option.map_eq_some_iff.mp hrun
  obtain ⟨houtcome, hrow⟩ := Prod.mk.inj hseen
  have hreach := reachable_among (System.run_reachable (S := history plainRuntime) ⟨Tables.empty, 1, rfl, by decide, rfl⟩ hs)
  have hfresh : s.Fresh plainRuntime (makePrefixedToken apiTokenPrefix uuid "s").1 5 5 := by
    intro entry _ _ row hget
    rw [hget] at hrow
    simp only [Option.map_some, Option.some.injEq, Prod.mk.injEq] at hrow
    refine ⟨hrow.1, fun e he => ?_⟩
    rw [hrow.2] at he
    cases he
    decide
  obtain ⟨⟨hiff, _⟩, _⟩ := (accepted_iff_valid plainRuntime (Set.injOn_id Set.univ) hreach (Set.mem_univ _) 5 5 5).mpr hfresh
  exact ⟨s, _, hreach, hiff ⟨_, houtcome⟩, houtcome, rfl⟩

theorem accepted_revoked : ∃ s, (history plainRuntime).Reachable (among Set.univ) s ∧
    ¬s.Valid (makePrefixedToken apiTokenPrefix uuid "s").1 5 ∧
    ∃ payload, ((authStore plainRuntime (.verifyApiToken (makePrefixedToken apiTokenPrefix uuid "s").1 5 5 5) s.cache).run
      s.tables).1.1 = .principal (some payload) := by
  have hrun : ((history plainRuntime).run { tables := Tables.empty, now := 1 }
      (presented ++ [.revokeApiToken uuid.hex (some 1) 4])).map
      (fun s => (((authStore plainRuntime (.verifyApiToken (makePrefixedToken apiTokenPrefix uuid "s").1 5 5 5) s.cache).run
        s.tables).1.1, s.issued.all fun k => k.revokedAt.isSome)) =
        some (.principal (some ⟨1, "ada@example.org", true, ["experiments:run"]⟩), true) := by
    decide +kernel
  obtain ⟨s, hs, hseen⟩ := Option.map_eq_some_iff.mp hrun
  obtain ⟨houtcome, hrevoked⟩ := Prod.mk.inj hseen
  have hreach := reachable_among (System.run_reachable (S := history plainRuntime) ⟨Tables.empty, 1, rfl, by decide, rfl⟩ hs)
  refine ⟨s, hreach, ?_, _, houtcome⟩
  rintro ⟨k, hk, _, hnot, _⟩
  have hsome := List.all_eq_true.mp hrevoked k hk
  rw [hnot] at hsome
  cases hsome

end SynQc.Auth
