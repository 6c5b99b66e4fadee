import Mathlib.Data.List.Sort
import SynQc.Models

/-! The tables of the auth store, and its SQL statements on them.

A table is a dictionary under its primary key, and a row is what is left of the columns.
`Tables` carries the other constraints of the schema as fields: emails are unique,
`AUTOINCREMENT` has passed every user id, and the `user_id` of a session or a token is a
user's. A statement that would break one is an `IntegrityError`. -/
namespace SynQc.Auth

structure UserRow where
  email : String
  passwordHash : String
  isAdmin : Int
  isActive : Int
  createdAt : Time
  deriving DecidableEq

structure SessionRow where
  userId : Int
  csrfToken : String
  createdAt : Time
  lastSeenAt : Time
  expiresAt : Time
  revokedAt : Option Time
  deriving DecidableEq

/-- `scopes` is the list of the column's JSON text, or nothing where the text is no such list. -/
structure TokenRow where
  userId : Int
  label : Option String
  tokenPrefix : String
  tokenHash : String
  scopes : Option (List String)
  createdAt : Time
  expiresAt : Option Time
  lastUsedAt : Option Time
  revokedAt : Option Time
  deriving DecidableEq

structure Tables where
  users : Dict Int UserRow
  /-- What `sqlite_sequence` has for users. -/
  lastUserId : Int
  sessions : Dict String SessionRow
  apiTokens : Dict String TokenRow
  emails : ∀ id id' row row', users.get? id = some row → users.get? id' = some row' → row.email = row'.email → id = id'
  userIds : ∀ id row, users.get? id = some row → id ≤ lastUserId
  sessionUsers : ∀ id row, sessions.get? id = some row → ∃ user, users.get? row.userId = some user
  tokenUsers : ∀ id row, apiTokens.get? id = some row → ∃ user, users.get? row.userId = some user

namespace Tables

/-- The schema as `_init_db` creates it. -/
def empty : Tables where
  users := Dict.empty
  lastUserId := 0
  sessions := Dict.empty
  apiTokens := Dict.empty
  emails _ _ _ _ h := by cases h
  userIds _ _ h := by cases h
  sessionUsers _ _ h := by cases h
  tokenUsers _ _ h := by cases h

/-! ### Users -/

def userByEmail (email : String) (t : Tables) : Option (Int × UserRow) :=
  t.users.entries.find? fun entry => entry.2.email = email

def userById (id : Int) (t : Tables) : Option (Int × UserRow) := (t.users.get? id).map fun row => (id, row)

theorem userByEmail_none {t : Tables} {email : String} (h : t.userByEmail email = none) {id : Int} {row : UserRow}
    (hget : t.users.get? id = some row) : row.email ≠ email := by
  have hnot := List.find?_eq_none.mp h (id, row) (Dict.mem_entries.mpr hget)
  simpa using hnot

/-- Emails being unique, a user is found by its own. -/
theorem userByEmail_of_get? {t : Tables} {id : Int} {row : UserRow} (hget : t.users.get? id = some row) :
    t.userByEmail row.email = some (id, row) := by
  cases hfound : t.userByEmail row.email with
  | none => exact absurd rfl (userByEmail_none hfound hget)
  | some entry =>
    have hmem := Dict.mem_entries.mp (List.mem_of_find?_eq_some hfound)
    have hsame : entry.2.email = row.email := by simpa using List.find?_some hfound
    have hid : entry.1 = id := t.emails _ _ _ _ hmem hget hsame
    rw [hid, hget] at hmem
    rw [← hid, Option.some.inj hmem]

theorem newUser_none (t : Tables) : t.users.get? (t.lastUserId + 1) = none := by
  cases hget : t.users.get? (t.lastUserId + 1) with
  | none => rfl
  | some row =>
    have hle := t.userIds _ row hget
    omega

/-- A user keeps being one when another is added. -/
theorem user_added {t : Tables} {id : Int} {user : UserRow} (row : UserRow) (h : t.users.get? id = some user) :
    ∃ user, (t.users.set (t.lastUserId + 1) row).get? id = some user := by
  rw [Dict.get?_set]
  split
  · exact ⟨row, rfl⟩
  · exact ⟨user, h⟩

theorem emails_added {t : Tables} {row : UserRow} (h : t.userByEmail row.email = none) (id id' : Int)
    (user user' : UserRow) (hget : (t.users.set (t.lastUserId + 1) row).get? id = some user)
    (hget' : (t.users.set (t.lastUserId + 1) row).get? id' = some user') (hsame : user.email = user'.email) : id = id' := by
  rw [Dict.get?_set] at hget hget'
  split at hget <;> split at hget'
  · omega
  · cases hget
    exact absurd hsame.symm (userByEmail_none h hget')
  · cases hget'
    exact absurd hsame (userByEmail_none h hget)
  · exact t.emails id id' user user' hget hget' hsame

theorem userIds_added (t : Tables) (row : UserRow) (id : Int) (user : UserRow)
    (hget : (t.users.set (t.lastUserId + 1) row).get? id = some user) : id ≤ t.lastUserId + 1 := by
  rw [Dict.get?_set] at hget
  split at hget
  · omega
  · exact (t.userIds id user hget).trans (by omega)

theorem sessionUsers_added (t : Tables) (row : UserRow) (id : String) (session : SessionRow)
    (hget : t.sessions.get? id = some session) :
    ∃ user, (t.users.set (t.lastUserId + 1) row).get? session.userId = some user := by
  obtain ⟨user, huser⟩ := t.sessionUsers id session hget
  exact user_added row huser

theorem tokenUsers_added (t : Tables) (row : UserRow) (id : String) (token : TokenRow)
    (hget : t.apiTokens.get? id = some token) :
    ∃ user, (t.users.set (t.lastUserId + 1) row).get? token.userId = some user := by
  obtain ⟨user, huser⟩ := t.tokenUsers id token hget
  exact user_added row huser

def insertUser (row : UserRow) (t : Tables) : Except String Unit × Tables :=
  match h : t.userByEmail row.email with
  | some _ => (.error "UNIQUE constraint failed: users.email", t)
  | none => (.ok (), {t with
      users := t.users.set (t.lastUserId + 1) row
      lastUserId := t.lastUserId + 1
      emails := emails_added h
      userIds := userIds_added t row
      sessionUsers := sessionUsers_added t row
      tokenUsers := tokenUsers_added t row })

theorem insertUser_of_some {t : Tables} {row : UserRow} {user : Int × UserRow}
    (h : t.userByEmail row.email = some user) :
    t.insertUser row = (.error "UNIQUE constraint failed: users.email", t) := by
  rw [insertUser]
  split
  · rfl
  · rename_i hnone
    cases hnone.symm.trans h

theorem insertUser_of_none {t : Tables} {row : UserRow} (h : t.userByEmail row.email = none) :
    (t.insertUser row).1 = .ok () ∧ (t.insertUser row).2.users = t.users.set (t.lastUserId + 1) row := by
  rw [insertUser]
  split
  · rename_i hsome
    cases hsome.symm.trans h
  · exact ⟨rfl, rfl⟩

/-! ### Sessions and tokens -/

section References
variable {ψ : Type} (userId : ψ → Int)

/-- The rows of a table refer to users. -/
def Refers (users : Dict Int UserRow) (rows : Dict String ψ) : Prop :=
  ∀ id row, rows.get? id = some row → ∃ user, users.get? (userId row) = some user

theorem Refers.set {users : Dict Int UserRow} {rows : Dict String ψ} (h : Refers userId users rows) (id : String)
    {row : ψ} {user : UserRow} (huser : users.get? (userId row) = some user) : Refers userId users (rows.set id row) := by
  have hnew : ∃ user, users.get? (userId row) = some user := ⟨user, huser⟩
  exact Dict.forall_set h hnew

theorem Refers.erase {users : Dict Int UserRow} {rows : Dict String ψ} (h : Refers userId users rows) (id : String) :
    Refers userId users (rows.erase id) := by
  intro id' row' hget
  rw [Dict.get?_erase] at hget
  split at hget
  · cases hget
  · exact h id' row' hget

end References

def sessionById (id : String) (t : Tables) : Option (String × SessionRow) := (t.sessions.get? id).map fun row => (id, row)

def insertSession (id : String) (row : SessionRow) (t : Tables) : Except String Unit × Tables :=
  match t.sessions.get? id, h : t.users.get? row.userId with
  | some _, _ => (.error "UNIQUE constraint failed: sessions.id", t)
  | none, none => (.error "FOREIGN KEY constraint failed", t)
  | none, some _ => (.ok (), {t with
      sessions := t.sessions.set id row
      sessionUsers := Refers.set (fun row : SessionRow => row.userId) t.sessionUsers id h })

/-- An `UPDATE` of one session, which leaves its user. -/
def updateSession (id : String) (change : SessionRow → SessionRow)
    (hchange : ∀ row, (change row).userId = row.userId) (t : Tables) : Unit × Tables :=
  match h : t.sessions.get? id with
  | some row => ((), {t with
      sessions := t.sessions.set id (change row)
      sessionUsers := by
        obtain ⟨user, huser⟩ := t.sessionUsers id row h
        exact Refers.set (fun row : SessionRow => row.userId) t.sessionUsers id ((hchange row).symm ▸ huser) })
  | none => ((), t)

def deleteSession (id : String) (t : Tables) : Unit × Tables :=
  ((), {t with
    sessions := t.sessions.erase id
    sessionUsers := Refers.erase (fun row : SessionRow => row.userId) t.sessionUsers id })

def tokenById (id : String) (t : Tables) : Option (String × TokenRow) := (t.apiTokens.get? id).map fun row => (id, row)

/-- A user's tokens, the latest first. -/
def tokensOf (userId : Int) (t : Tables) : List (String × TokenRow) :=
  (t.apiTokens.entries.filter fun entry => entry.2.userId = userId).mergeSort
    fun a b => decide (b.2.createdAt ≤ a.2.createdAt)

def insertToken (id : String) (row : TokenRow) (t : Tables) : Except String Unit × Tables :=
  match t.apiTokens.get? id, h : t.users.get? row.userId with
  | some _, _ => (.error "UNIQUE constraint failed: api_tokens.id", t)
  | none, none => (.error "FOREIGN KEY constraint failed", t)
  | none, some _ => (.ok (), {t with
      apiTokens := t.apiTokens.set id row
      tokenUsers := Refers.set (fun row : TokenRow => row.userId) t.tokenUsers id h })

/-- An `UPDATE` of one token that meets a condition, which leaves its user; and whether there was one. -/
def updateToken (id : String) (meets : TokenRow → Bool) (change : TokenRow → TokenRow)
    (hchange : ∀ row, (change row).userId = row.userId) (t : Tables) : Bool × Tables :=
  match h : t.apiTokens.get? id with
  | some row =>
    if meets row then (true, {t with
      apiTokens := t.apiTokens.set id (change row)
      tokenUsers := by
        obtain ⟨user, huser⟩ := t.tokenUsers id row h
        exact Refers.set (fun row : TokenRow => row.userId) t.tokenUsers id ((hchange row).symm ▸ huser) })
    else (false, t)
  | none => (false, t)

/-! ### What the statements leave of tokens and users -/

/-- An insert fails and changes nothing, or adds its row. -/
theorem insertToken_cases (id : String) (row : TokenRow) (t : Tables) :
    (∃ message, t.insertToken id row = (.error message, t)) ∨
    (t.apiTokens.get? id = none ∧ (t.insertToken id row).1 = .ok () ∧
      (t.insertToken id row).2.apiTokens = t.apiTokens.set id row ∧ (t.insertToken id row).2.users = t.users) := by
  rw [insertToken]
  split
  · exact .inl ⟨_, rfl⟩
  · exact .inl ⟨_, rfl⟩
  · rename_i hnone huser
    exact .inr ⟨hnone, rfl, rfl, rfl⟩

theorem users_updateSession (id : String) (change : SessionRow → SessionRow)
    (hchange : ∀ row, (change row).userId = row.userId) (t : Tables) : (t.updateSession id change hchange).2.users = t.users := by
  rw [updateSession]
  split <;> rfl

theorem users_updateToken (id : String) (meets : TokenRow → Bool) (change : TokenRow → TokenRow)
    (hchange : ∀ row, (change row).userId = row.userId) (t : Tables) :
    (t.updateToken id meets change hchange).2.users = t.users := by
  rw [updateToken]
  split
  · split <;> rfl
  · rfl

theorem sessions_updateToken (id : String) (meets : TokenRow → Bool) (change : TokenRow → TokenRow)
    (hchange : ∀ row, (change row).userId = row.userId) (t : Tables) :
    (t.updateToken id meets change hchange).2.sessions = t.sessions := by
  rw [updateToken]
  split
  · split <;> rfl
  · rfl

theorem sessions_insertToken (id : String) (row : TokenRow) (t : Tables) :
    (t.insertToken id row).2.sessions = t.sessions := by
  rw [insertToken]
  split <;> rfl

theorem get?_updateToken (id id' : String) (meets : TokenRow → Bool) (change : TokenRow → TokenRow)
    (hchange : ∀ row, (change row).userId = row.userId) (t : Tables) :
    (t.updateToken id meets change hchange).2.apiTokens.get? id' =
      (t.apiTokens.get? id').map fun row => if id = id' ∧ meets row then change row else row := by
  rw [updateToken]
  split
  · rename_i row hrow
    by_cases hid : id = id'
    · subst hid
      split
      · rename_i hmeets
        simp [hrow, hmeets]
      · rename_i hmeets
        simp [hrow, hmeets]
    · simp only [hid, false_and, if_false, Option.map_id']
      split
      · exact Dict.get?_set_ne _ _ hid
      · rfl
  · rename_i hnone
    by_cases hid : id = id'
    · subst hid
      rw [hnone]
      rfl
    · simp only [hid, false_and, if_false, Option.map_id']

/-- The same tokens, and no user changed. -/
def TokensKept (t t' : Tables) : Prop :=
  t'.apiTokens = t.apiTokens ∧ ∀ id user, t.users.get? id = some user → t'.users.get? id = some user

theorem tokensKept_insertUser (row : UserRow) (t : Tables) : TokensKept t (t.insertUser row).2 := by
  rw [insertUser]
  split
  · exact ⟨rfl, fun _ _ hget => hget⟩
  · refine ⟨rfl, fun id user hget => ?_⟩
    refine (Dict.get?_set_ne _ _ ?_).trans hget
    intro hid
    rw [← hid, t.newUser_none] at hget
    cases hget

theorem tokensKept_insertSession (id : String) (row : SessionRow) (t : Tables) :
    TokensKept t (t.insertSession id row).2 := by
  rw [insertSession]
  split <;> exact ⟨rfl, fun _ _ hget => hget⟩

theorem tokensKept_updateSession (id : String) (change : SessionRow → SessionRow)
    (hchange : ∀ row, (change row).userId = row.userId) (t : Tables) :
    TokensKept t (t.updateSession id change hchange).2 := by
  rw [updateSession]
  split <;> exact ⟨rfl, fun _ _ hget => hget⟩

end Tables

end SynQc.Auth
