import SynQc.Auth.Store
import SynQc.Library.Roster
import SynQc.Library.Transition

/-! Bootstrap registration: `POST /auth/register`, on one store.

A request counts the users, hashes its password and creates an admin; each store call is a
step of its own, and so is the hash between them. Nothing holds the store across the
three, so two requests can pass the guard. They both create a user unless their emails are
one (`oneEmail`), where the second insert finds the first. -/
namespace SynQc.Auth.Register
open Transition

/-- A body that passed `RegisterRequest`. -/
structure RegisterRequest where
  email : String
  password : String
  passwordLength : 12 ≤ password.length ∧ password.length ≤ 256

/-- `v.split("@")[-1]` -/
def afterLastAt (v : List Char) : List Char := (v.reverse.takeWhile (· ≠ '@')).reverse

/-- The fields of a body, checked; nothing where FastAPI answers 422. -/
def registerRequest (rt : Runtime) (email password : String) : Option RegisterRequest :=
  let v := normalizeEmail rt email
  if h : 12 ≤ password.length ∧ password.length ≤ 256 then
    if ¬(3 ≤ email.length ∧ email.length ≤ 320) then none
    else if '@' ∉ v.toList ∨ '.' ∉ afterLastAt v.toList then none
    else some ⟨v, password, h⟩
  else none

structure Config where
  rt : Runtime
  /-- PBKDF2 with a salt and a number of iterations, and base64 of it. -/
  deriveKey : String → String → Int → String
  iterations : Int := 260000

def hashPassword (cfg : Config) (password salt : String) : Except String String :=
  if password.length < 8 then .error "Password must be a string of length >= 8"
  else .ok ("pbkdf2_sha256$" ++ toString cfg.iterations ++ "$" ++ salt ++ "$" ++
    cfg.deriveKey password salt cfg.iterations)

/-- The schema asks for more than the hash does. -/
theorem hashPassword_ok (cfg : Config) (req : RegisterRequest) (salt : String) :
    ∃ hash, hashPassword cfg req.password salt = .ok hash := by
  have hlong := req.passwordLength
  rw [hashPassword, if_neg (by omega)]
  exact ⟨_, rfl⟩

/-! ### The route -/

/-- Where a request stands. -/
inductive Phase where
  | absent
  | unprocessable
  | counting (req : RegisterRequest)
  | hashing (req : RegisterRequest)
  | creating (req : RegisterRequest) (passwordHash : String)
  | registrationDisabled
  | registered (user : Int × UserRow)
  | raised (message : String)

instance : Inhabited Phase := ⟨.absent⟩

/-- The request that is past the guard. -/
def Phase.inside? : Phase → Option RegisterRequest
  | .hashing req | .creating req _ => some req
  | _ => none

def Phase.created : Phase → Nat
  | .registered _ => 1
  | _ => 0

structure State where
  tables : Tables
  calls : Roster Nat Phase := Dict.empty

namespace State

def phase (s : State) (c : Nat) : Phase := s.calls.phase c

def setPhase (s : State) (c : Nat) (phase : Phase) : State := {s with calls := s.calls.set c phase}

/-- How many requests were answered with a user. -/
def created (s : State) : Nat := s.calls.weigh Phase.created

def post (cfg : Config) (c : Nat) (email password : String) (s : State) : Option State :=
  match s.phase c with
  | .absent =>
    match registerRequest cfg.rt email password with
    | some req => some (s.setPhase c (.counting req))
    | none => some (s.setPhase c .unprocessable)
  | _ => none

def count (c : Nat) (s : State) : Option State :=
  match s.phase c, userCount.run s.tables with
  | .counting req, (.count n, tables) =>
    some ({s with tables := tables}.setPhase c (if n > 0 then .registrationDisabled else .hashing req))
  | _, _ => none

def hash (cfg : Config) (c : Nat) (salt : String) (s : State) : Option State :=
  match s.phase c with
  | .hashing req =>
    match hashPassword cfg req.password salt with
    | .ok passwordHash => some (s.setPhase c (.creating req passwordHash))
    | .error message => some (s.setPhase c (.raised message))
  | _ => none

def create (cfg : Config) (c : Nat) (now : Time) (s : State) : Option State :=
  match s.phase c with
  | .creating req passwordHash =>
    match (createUser cfg.rt req.email passwordHash true now).run s.tables with
    | (.user (some user), tables) => some ({s with tables := tables}.setPhase c (.registered user))
    | (.raised error, tables) => some ({s with tables := tables}.setPhase c (.raised error.text))
    | _ => none
  | _ => none

end State

inductive Event where
  | post (c : Nat) (email password : String)
  | count (c : Nat)
  | hash (c : Nat) (salt : String)
  | create (c : Nat) (now : Time)

/-- The route on a database with these rows. -/
def route (cfg : Config) (t : Tables) : System State Event where
  init s := s = { tables := t }
  step
    | .post c email password => State.post cfg c email password
    | .count c => State.count c
    | .hash c salt => State.hash cfg c salt
    | .create c now => State.create cfg c now

/-- While there is no user, all requests past the guard have the email of the one that passes it. -/
def oneEmail (cfg : Config) : Event → State → Prop
  | .count c, s => ∀ req, s.phase c = .counting req → s.tables.users.size = 0 → ∀ c' req',
    (s.phase c').inside? = some req' → normalizeEmail cfg.rt req'.email = normalizeEmail cfg.rt req.email
  | _, _ => True

/-! ### The invariant -/

/-- What `create_user` makes of the tables. -/
theorem createUser_run (rt : Runtime) (email passwordHash : String) (isAdmin : Bool) (now : Time) (t : Tables) :
    (∃ user, t.userByEmail (normalizeEmail rt email) = some user ∧
      (createUser rt email passwordHash isAdmin now).run t = (.raised .userExists, t)) ∨
    ∃ user t', t.userByEmail (normalizeEmail rt email) = none ∧
      (createUser rt email passwordHash isAdmin now).run t = (.user (some (t.lastUserId + 1, user)), t') ∧
      t'.users = t.users.set (t.lastUserId + 1) user ∧ user.email = normalizeEmail rt email := by
  simp only [createUser, Sql.Script.run]
  generalize huser : UserRow.mk (normalizeEmail rt email) passwordHash (if isAdmin then 1 else 0) 1 now = user
  have hemail : user.email = normalizeEmail rt email := by rw [← huser]
  cases hfound : t.userByEmail (normalizeEmail rt email) with
  | some other =>
    rw [← hemail] at hfound
    rw [Tables.insertUser_of_some hfound]
    exact .inl ⟨other, rfl, rfl⟩
  | none =>
    rw [← hemail] at hfound
    obtain ⟨hok, husers⟩ := Tables.insertUser_of_none hfound
    have hnew : (t.insertUser user).2.userByEmail (normalizeEmail rt email) = some (t.lastUserId + 1, user) := by
      rw [← hemail]
      exact Tables.userByEmail_of_get? (by rw [husers, Dict.get?_set_self])
    refine .inr ⟨user, (t.insertUser user).2, rfl, ?_, husers, hemail⟩
    rw [hok]
    simp only [Sql.Script.run, hnew]

/-- At most one request has created a user; and whoever is past the guard either races with requests of its own
email only, or finds a user with it. -/
structure Booted (cfg : Config) (t : Tables) (s : State) : Prop where
  once : s.created ≤ 1
  grown : s.tables.users.size = t.users.size + s.created
  guarded : ∀ c req, (s.phase c).inside? = some req →
    (s.tables.users.size = 0 ∧ ∀ c' req', (s.phase c').inside? = some req' →
      normalizeEmail cfg.rt req'.email = normalizeEmail cfg.rt req.email) ∨
    (s.tables.userByEmail (normalizeEmail cfg.rt req.email)).isSome

section Steps
variable {cfg : Config} {t : Tables} {s u : State} {c : Nat}

theorem created_setPhase (s : State) (c : Nat) (phase : Phase) :
    (s.setPhase c phase).created + (s.phase c).created = s.created + phase.created :=
  Roster.weigh_set s.calls c phase (f := Phase.created) rfl

theorem phase_setPhase (s : State) (c c' : Nat) (phase : Phase) :
    (s.setPhase c phase).phase c' = if c = c' then phase else s.phase c' := Roster.phase_set _ _ _ _

/-- A request that goes on by itself, inside only if it was. -/
theorem Booted.move (h : Booted cfg t s) {phase : Phase} (hcreated : phase.created = (s.phase c).created)
    (hinside : ∀ req, phase.inside? = some req → (s.phase c).inside? = some req) :
    Booted cfg t (s.setPhase c phase) := by
  have hsame : (s.setPhase c phase).created = s.created := by
    have hset := created_setPhase s c phase
    omega
  have hwas : ∀ c' req, ((s.setPhase c phase).phase c').inside? = some req → (s.phase c').inside? = some req := by
    intro c' req hin
    rw [phase_setPhase] at hin
    split at hin
    · rename_i hc
      exact hc ▸ hinside req hin
    · exact hin
  refine ⟨hsame ▸ h.once, hsame ▸ h.grown, fun c' req hin => ?_⟩
  rcases h.guarded c' req (hwas c' req hin) with ⟨hempty, hone⟩ | hfound
  · exact .inl ⟨hempty, fun c'' req' hin' => hone c'' req' (hwas c'' req' hin')⟩
  · exact .inr hfound

/-- While there is no user a request passes the guard if it agrees with those inside. -/
theorem Booted.enter (h : Booted cfg t s) {req : RegisterRequest} (hphase : s.phase c = .counting req)
    (hempty : s.tables.users.size = 0) (hrule : oneEmail cfg (.count c) s) :
    Booted cfg t (s.setPhase c (.hashing req)) := by
  have hsame : (s.setPhase c (.hashing req)).created = s.created := by
    have hset := created_setPhase s c (.hashing req)
    rw [hphase] at hset
    exact hset
  have hall : ∀ c' req', ((s.setPhase c (.hashing req)).phase c').inside? = some req' →
      normalizeEmail cfg.rt req'.email = normalizeEmail cfg.rt req.email := by
    intro c' req' hin
    rw [phase_setPhase] at hin
    split at hin
    · cases hin
      rfl
    · exact hrule req hphase hempty c' req' hin
  refine ⟨hsame ▸ h.once, hsame ▸ h.grown, fun c' req' hin => .inl ⟨hempty, fun c'' req'' hin' => ?_⟩⟩
  exact (hall c'' req'' hin').trans (hall c' req' hin).symm

/-- An insert is the first, and everybody else inside will find it. -/
theorem Booted.insert (h : Booted cfg t s) {req : RegisterRequest} {passwordHash : String}
    (hphase : s.phase c = .creating req passwordHash) {user : UserRow} {tables : Tables}
    (hnone : s.tables.userByEmail (normalizeEmail cfg.rt req.email) = none)
    (husers : tables.users = s.tables.users.set (s.tables.lastUserId + 1) user)
    (hemail : user.email = normalizeEmail cfg.rt req.email) {id : Int} :
    Booted cfg t ({s with tables := tables}.setPhase c (.registered (id, user))) := by
  have hin : (s.phase c).inside? = some req := by rw [hphase]; rfl
  rcases h.guarded c req hin with ⟨hempty, hone⟩ | hfound
  · have hcreated : s.created = 0 := by
      have hgrown := h.grown
      omega
    have hnow : ({s with tables := tables}.setPhase c (.registered (id, user))).created = 1 := by
      have hset := created_setPhase {s with tables := tables} c (.registered (id, user))
      have hbefore : (s.phase c).created = 0 := by rw [hphase]; rfl
      change _ + (s.phase c).created = s.created + 1 at hset
      omega
    have hsize : tables.users.size = s.tables.users.size + 1 := by
      rw [husers, Dict.size_set_none s.tables.newUser_none]
    refine ⟨hnow.le, ?_, fun c' req' hin' => .inr ?_⟩
    · have hgrown := h.grown
      rw [hnow]
      show tables.users.size = _
      omega
    · have hwas : (s.phase c').inside? = some req' := by
        rw [phase_setPhase] at hin'
        split at hin'
        · cases hin'
        · exact hin'
      show (tables.userByEmail _).isSome
      rw [hone c' req' hwas, ← hemail, Tables.userByEmail_of_get? (by rw [husers, Dict.get?_set_self])]
      rfl
  · rw [hnone] at hfound
    cases hfound

theorem booted_step {e : Event} (h : Booted cfg t s) (hrule : oneEmail cfg e s)
    (hstep : (route cfg t).step e s = some u) : Booted cfg t u := by
  cases e with
  | post c email password =>
    change s.post cfg c email password = some u at hstep
    simp only [State.post] at hstep
    split at hstep
    · rename_i hphase
      split at hstep <;> cases hstep <;> exact h.move (by rw [hphase]; rfl) nofun
    · cases hstep
  | count c =>
    change s.count c = some u at hstep
    simp only [State.count] at hstep
    split at hstep <;> cases hstep
    rename_i req n tables hphase hcount
    obtain ⟨hn, htables⟩ := Prod.mk.inj hcount
    cases hn
    subst htables
    split
    · exact h.move (by rw [hphase]; rfl) nofun
    · rename_i hnone
      exact h.enter hphase (Nat.eq_zero_of_not_pos hnone) hrule
  | hash c salt =>
    change s.hash cfg c salt = some u at hstep
    simp only [State.hash] at hstep
    split at hstep
    · rename_i req hphase
      split at hstep <;> cases hstep
      · exact h.move (by rw [hphase]; rfl) fun req' hin => by rw [hphase]; exact hin
      · exact h.move (by rw [hphase]; rfl) nofun
    · cases hstep
  | create c now =>
    change s.create cfg c now = some u at hstep
    simp only [State.create] at hstep
    split at hstep
    · rename_i req passwordHash hphase
      rcases createUser_run cfg.rt req.email passwordHash true now s.tables with
        ⟨_, _, hrun⟩ | ⟨user, tables, hnone, hrun, husers, hemail⟩
      · rw [hrun] at hstep
        cases hstep
        exact h.move (by rw [hphase]; rfl) nofun
      · rw [hrun] at hstep
        cases hstep
        exact h.insert hphase hnone husers hemail
    · cases hstep

end Steps

/-- **As long as no two requests with different emails are past the guard while there is no user, at most one
request creates a user.** -/
theorem one_admin (cfg : Config) (t : Tables) {s : State} (h : (route cfg t).Reachable (oneEmail cfg) s) :
    s.created ≤ 1 ∧ s.tables.users.size = t.users.size + s.created := by
  have hbooted : Booted cfg t s := by
    refine System.reachable_invariant (fun s hs => ?_) (fun _ _ _ => booted_step) h
    rw [show s = { tables := t } from hs]
    exact ⟨Nat.zero_le _, rfl, nofun⟩
  exact ⟨hbooted.once, hbooted.grown⟩

/-- Python on ASCII text without outer blanks or capitals. -/
def plain : Config where
  rt := plainRuntime
  deriveKey password salt _ := salt ++ password

/-- The rule, as a test. -/
def oneEmailTest (cfg : Config) : Event → State → Bool
  | .count c, s =>
    match s.phase c with
    | .counting req => decide (0 < s.tables.users.size) || s.calls.values.all fun p =>
      match p.inside? with
      | some req' => decide (normalizeEmail cfg.rt req'.email = normalizeEmail cfg.rt req.email)
      | none => true
    | _ => true
  | _, _ => true

theorem oneEmail_of_test (cfg : Config) (e : Event) (s : State) (h : oneEmailTest cfg e s = true) :
    oneEmail cfg e s := by
  cases e with
  | count c =>
    intro req hphase hempty c' req' hin
    simp only [oneEmailTest, hphase, hempty, Nat.lt_irrefl, decide_false, Bool.false_or, List.all_eq_true] at h
    rw [State.phase, Roster.phase] at hin
    cases hget : s.calls.get? c' with
    | none =>
      rw [hget] at hin
      cases hin
    | some p =>
      rw [hget, Option.getD_some] at hin
      have hpass := h p (List.mem_map_of_mem (Dict.mem_entries.mpr hget))
      simpa only [hin, decide_eq_true_eq] using hpass
  | _ => trivial

/-- Two requests with one email race, and a third comes late. -/
def race : List Event :=
  [.post 0 "ada@example.org" "correct horse", .post 1 "ada@example.org" "battery staple", .count 0, .count 1,
    .hash 1 "s1", .hash 0 "s0", .create 1 5, .create 0 6, .post 2 "bob@example.org" "correct horse", .count 2]

theorem one_admin_race : ∃ s, (route plain Tables.empty).Reachable (oneEmail plain) s ∧
    s.tables.users.size = 1 ∧ s.created = 1 ∧ s.created ≤ 1 := by
  have hrun : (System.walk (route plain Tables.empty) (oneEmailTest plain) { tables := Tables.empty } race).map
      (fun s => (s.tables.users.size, s.created)) = some (1, 1) := by decide +kernel
  obtain ⟨s, hs, hseen⟩ := Option.map_eq_some_iff.mp hrun
  have hreach : (route plain Tables.empty).Reachable (oneEmail plain) s :=
    ⟨_, rfl, System.walk_leads (fun e _ => oneEmail_of_test plain e) hs⟩
  obtain ⟨hsize, hcreated⟩ := Prod.mk.inj hseen
  exact ⟨s, hreach, hsize, hcreated, (one_admin plain Tables.empty hreach).1⟩

/-- Both count before either creates. -/
def lateGuard : List Event :=
  [.post 0 "ada@example.org" "correct horse", .post 1 "bob@example.org" "battery staple", .count 0, .count 1,
    .hash 0 "s0", .hash 1 "s1", .create 0 5, .create 1 6]

theorem two_admins : ∃ s, (route plain Tables.empty).Reachable anything s ∧ s.created = 2 ∧
    s.tables.users.size = 2 := by
  have hrun : ((route plain Tables.empty).run { tables := Tables.empty } lateGuard).map
      (fun s => (s.created, s.tables.users.size)) = some (2, 2) := by decide +kernel
  obtain ⟨s, hs, hseen⟩ := Option.map_eq_some_iff.mp hrun
  obtain ⟨hcreated, hsize⟩ := Prod.mk.inj hseen
  exact ⟨s, System.run_reachable rfl hs, hcreated, hsize⟩

end SynQc.Auth.Register
