import SynQc.Engine.Run
import SynQc.Library.Roster
import SynQc.Library.Transition

/-! The control profile, and the runs it reaches.

Each process keeps a profile of its own and reads the file behind it once, when it is
built. The API process takes updates, and writes each to the file; its embedded queue runs
experiments on the same store. A Redis worker is another process: what it found when it
was built is the profile of all its runs. -/
namespace SynQc.ControlProfiles
open Transition

/-! ### The store -/

deriving instance DecidableEq for ControlProfile
deriving instance DecidableEq for RunExperimentRequest

/-- A partial update; absent fields stay as they are. -/
structure ControlProfileUpdate where
  driveBias : Option ℚ := none
  probeWindowNs : Option Int := none
  feedbackGain : Option ℚ := none
  safetyClampNs : Option Int := none
  thermalGuardEnabled : Option Bool := none
  tracerPersistenceMs : Option Int := none
  notes : Option String := none

/-- The bounds of `ControlProfile`'s fields. -/
def isValid (profile : ControlProfile) : Bool :=
  decide (1 / 2 ≤ profile.driveBias ∧ profile.driveBias ≤ 3 / 2) &&
  decide (10 ≤ profile.probeWindowNs ∧ profile.probeWindowNs ≤ 10000) &&
  decide (0 ≤ profile.feedbackGain ∧ profile.feedbackGain ≤ 3) &&
  decide (0 ≤ profile.safetyClampNs ∧ profile.safetyClampNs ≤ 20000) &&
  decide (50 ≤ profile.tracerPersistenceMs ∧ profile.tracerPersistenceMs ≤ 5000)

/-- `patch.model_dump(exclude_none=True)` over `profile.model_dump()` -/
def merge (profile : ControlProfile) (patch : ControlProfileUpdate) : ControlProfile where
  driveBias := patch.driveBias.getD profile.driveBias
  probeWindowNs := patch.probeWindowNs.getD profile.probeWindowNs
  feedbackGain := patch.feedbackGain.getD profile.feedbackGain
  safetyClampNs := patch.safetyClampNs.getD profile.safetyClampNs
  thermalGuardEnabled := patch.thermalGuardEnabled.getD profile.thermalGuardEnabled
  tracerPersistenceMs := patch.tracerPersistenceMs.getD profile.tracerPersistenceMs
  notes := patch.notes.or profile.notes

/-- The defaults are a profile. -/
theorem isValid_default : isValid {} = true := by decide +kernel

/-- What the file holds: a profile, or a text that is none (a write in progress leaves one). -/
inductive Content where
  | profile (p : ControlProfile)
  | corrupt

/-- A profile within its bounds. -/
abbrev Bounded := {profile : ControlProfile // isValid profile = true}

instance : Inhabited Bounded := ⟨{}, isValid_default⟩

/-- What `ControlProfile(...)` raises. -/
inductive ValidationError where
  | outOfBounds
  deriving DecidableEq

/-- `ControlProfile(**payload)`. Not to be unfolded where a proof looks for its result: the bounds
are rationals. -/
@[irreducible] def construct (payload : ControlProfile) : Except ValidationError Bounded :=
  if h : isValid payload = true then .ok ⟨payload, h⟩ else .error .outOfBounds

/-- A store and the file at its `persist_path`, if it has one. -/
structure ControlProfileStore where
  persists : Bool
  profile : Bounded
  file : Option Content

/-- The constructor: a file that holds no profile within the bounds counts for the defaults. -/
def openStore (persists : Bool) (file : Option Content) : ControlProfileStore where
  persists := persists
  profile :=
    match persists, file with
    | true, some (.profile payload) => (construct payload).toOption.getD default
    | _, _ => default
  file := file

/-- The profile that the constructor of a process's store comes up with. -/
def load (file : Option Content) : ControlProfile := (openStore true file).profile

/-- A process's store. `found` is the file as it was when the store was built. -/
structure Store where
  profile : ControlProfile
  locked : Bool := false
  found : Option Content

/-! ### Engine calls -/

structure Job where
  executor : Nat
  request : RunExperimentRequest
  runId : Option RunId := none
  deriving DecidableEq

/-- Where an engine call stands. `seen` is every update that had returned when the call
took its profile, the last one first. -/
inductive Call where
  | idle
  | refused (exc : Exc)
  | cleared (job : Job) (effective : Int × Bool)
  | picked (job : Job) (effective : Int × Bool) (controls : ControlProfile) (seen : List ControlProfile)
  | ended (job : Job) (controls : ControlProfile) (seen : List ControlProfile)
      (outcome : Except Exc RunExperimentResponse)

instance : Inhabited Call := ⟨.idle⟩

/-- The file, the processes' stores, their engine calls, and the profiles that updates
returned, the last one first. -/
structure State where
  file : Option Content
  stores : Dict Nat Store := Dict.empty
  calls : Roster Nat Call := Dict.empty
  updates : List ControlProfile := []

/-- The process that takes the updates. -/
def api : Nat := 0

namespace State

def store? (s : State) (p : Nat) : Option Store := s.stores.get? p

def call (s : State) (c : Nat) : Call := s.calls.phase c

def setStore (s : State) (p : Nat) (store : Store) : State := {s with stores := s.stores.set p store}

def setCall (s : State) (c : Nat) (call : Call) : State := {s with calls := s.calls.set c call}

/-- The constructor. -/
def build (p : Nat) (s : State) : Option State :=
  match s.store? p with
  | none => some (s.setStore p { profile := load s.file, found := s.file })
  | some _ => none

/-- `update`, up to the write: the file is open and empty. A patch out of bounds raises. -/
def patch (update : ControlProfileUpdate) (s : State) : Option State :=
  match s.store? api with
  | some store =>
    if store.locked then none
    else if isValid (merge store.profile update) then
      some {s.setStore api {store with profile := merge store.profile update, locked := true} with
        file := some .corrupt }
    else some s
  | none => none

/-- The file is written, and the update returns the profile. -/
def wrote (s : State) : Option State :=
  match s.store? api with
  | some store =>
    if store.locked then
      some {s.setStore api {store with locked := false} with
        file := some (.profile store.profile)
        updates := store.profile :: s.updates }
    else none
  | none => none

/-- An engine call clears its shot guardrails, or not. -/
def start (cfg : Settings) (c : Nat) (job : Job) (i : Engine.RunInputs) (s : State) : Option State :=
  match s.call c, s.store? job.executor with
  | .idle, some _ =>
    match Engine.applyShotGuardrails cfg i job.request with
    | .ok effective => some (s.setCall c (.cleared job effective))
    | .error exc => some (s.setCall c (.refused exc))
  | _, _ => none

/-- `req.control_overrides or self._control_store.get()` -/
def pick (c : Nat) (s : State) : Option State :=
  match s.call c with
  | .cleared job effective =>
    match job.request.controlOverrides, s.store? job.executor with
    | some controls, _ => some (s.setCall c (.picked job effective controls s.updates))
    | none, some store =>
      if store.locked then none
      else some (s.setCall c (.picked job effective store.profile s.updates))
    | none, none => none
  | _ => none

def finish (cfg : Settings) (c : Nat) (i : Engine.RunInputs) (s : State) : Option State :=
  match s.call c with
  | .picked job effective controls seen =>
    some (s.setCall c (.ended job controls seen
      (Engine.execute cfg {i with controls := controls} job.request job.runId effective)))
  | _ => none

end State

inductive Event where
  | build (p : Nat)
  | patch (update : ControlProfileUpdate)
  | wrote
  | start (c : Nat) (job : Job) (i : Engine.RunInputs)
  | pick (c : Nat)
  | finish (c : Nat) (i : Engine.RunInputs)

/-- Processes that find this file, or none. -/
def sharing (cfg : Settings) (file : Option Content) : System State Event where
  init s := s = { file := file }
  step
    | .build p => State.build p
    | .patch update => State.patch update
    | .wrote => State.wrote
    | .start c job i => State.start cfg c job i
    | .pick c => State.pick c
    | .finish c i => State.finish cfg c i

/-! ### The invariant -/

/-- The profile a call took, by where it ran. -/
structure Took (s : State) (job : Job) (controls : ControlProfile) (seen : List ControlProfile) : Prop where
  overridden : ∀ own, job.request.controlOverrides = some own → controls = own
  stored : job.request.controlOverrides = none → ∃ store, s.store? job.executor = some store ∧
    (job.executor = api → controls = seen.head?.getD (load store.found)) ∧
    (job.executor ≠ api → controls = load store.found)

def CallSound (s : State) : Call → Prop
  | .picked job _ controls seen => Took s job controls seen
  | .ended job controls seen outcome => Took s job controls seen ∧
      ∀ run, outcome = .ok run → run.controlProfile = some controls
  | _ => True

/-- The API's store is up to date whenever its lock is free, and no other store changes. -/
structure Sound (s : State) : Prop where
  unbuilt : s.store? api = none → s.updates = []
  current : ∀ store, s.store? api = some store → store.locked = false →
    store.profile = s.updates.head?.getD (load store.found)
  worker : ∀ p store, p ≠ api → s.store? p = some store → store.locked = false ∧ store.profile = load store.found
  call : ∀ c, CallSound s (s.call c)

/-- Stores stay, and what they found. -/
def Keeps (s t : State) : Prop :=
  ∀ p store, s.store? p = some store → ∃ after, t.store? p = some after ∧ after.found = store.found

section Preservation
variable {s t : State} {c : Nat}

theorem store?_setStore (s : State) (p p' : Nat) (store : Store) :
    (s.setStore p store).store? p' = if p = p' then some store else s.store? p' := Dict.get?_set _ _ _ _

theorem Keeps.setStore {p : Nat} {store : Store} (h : ∀ before, s.store? p = some before → store.found = before.found) :
    Keeps s (s.setStore p store) := by
  intro p' before hbefore
  rw [store?_setStore]
  split
  · rename_i heq
    subst heq
    exact ⟨store, rfl, h before hbefore⟩
  · exact ⟨before, hbefore, rfl⟩

theorem Took.keeps {job : Job} {controls : ControlProfile} {seen : List ControlProfile}
    (h : Took s job controls seen) (hkeeps : Keeps s t) : Took t job controls seen where
  overridden := h.overridden
  stored hnone := by
    obtain ⟨store, hstore, hrest⟩ := h.stored hnone
    obtain ⟨after, hafter, hfound⟩ := hkeeps job.executor store hstore
    rw [← hfound] at hrest
    exact ⟨after, hafter, hrest⟩

theorem CallSound.keeps {call : Call} (h : CallSound s call) (hkeeps : Keeps s t) : CallSound t call := by
  cases call with
  | picked => exact Took.keeps h hkeeps
  | ended => exact ⟨Took.keeps h.1 hkeeps, h.2⟩
  | idle => trivial
  | refused => trivial
  | cleared => trivial

/-- A call's step, the stores as they were. -/
theorem Sound.setCall (h : Sound s) {call : Call} (hcall : CallSound s call) : Sound (s.setCall c call) where
  unbuilt := h.unbuilt
  current := h.current
  worker := h.worker
  call c' := by
    have hkeeps : Keeps s (s.setCall c call) := fun p store hstore => ⟨store, hstore, rfl⟩
    show CallSound _ (Roster.phase (s.calls.set c call) c')
    rw [Roster.phase_set]
    split
    · exact hcall.keeps hkeeps
    · exact (h.call c').keeps hkeeps

theorem build_sound (h : Sound s) {p : Nat} (he : s.build p = some t) : Sound t := by
  unfold State.build at he
  split at he
  · rename_i hnone
    cases he
    have hkeeps : Keeps s (s.setStore p { profile := load s.file, found := s.file }) := by
      apply Keeps.setStore
      intro before hbefore
      rw [hnone] at hbefore
      cases hbefore
    refine ⟨fun hunbuilt => ?_, fun store hstore _ => ?_, fun p' store hne hstore => ?_,
      fun c => (h.call c).keeps hkeeps⟩
    · rw [store?_setStore] at hunbuilt
      split at hunbuilt
      · cases hunbuilt
      · exact h.unbuilt hunbuilt
    · rw [store?_setStore] at hstore
      split at hstore
      · rename_i heq
        cases hstore
        subst heq
        show load s.file = s.updates.head?.getD (load s.file)
        rw [h.unbuilt hnone]
        rfl
      · exact h.current store hstore ‹_›
    · rw [store?_setStore] at hstore
      split at hstore
      · cases hstore
        exact ⟨rfl, rfl⟩
      · exact h.worker p' store hne hstore
  · cases he

/-- What an update does to the API's store, it does to no other. -/
theorem Sound.setApi (h : Sound s) {store : Store} (hstore : s.store? api = some store) (after : Store)
    (hfound : after.found = store.found) {file : Option Content} {updates : List ControlProfile}
    (hcurrent : after.locked = false → after.profile = updates.head?.getD (load after.found)) :
    Sound {s.setStore api after with file := file, updates := updates} := by
  have hset : ∀ p, State.store? {s.setStore api after with file := file, updates := updates} p =
      if api = p then some after else s.store? p := fun p => store?_setStore s api p after
  have hkeeps : Keeps s {s.setStore api after with file := file, updates := updates} := by
    apply Keeps.setStore
    intro before hbefore
    rw [hstore] at hbefore
    cases hbefore
    exact hfound
  refine ⟨fun hnone => ?_, fun store' hstore' hfree => ?_, fun p store' hne hstore' => ?_,
    fun c => (h.call c).keeps hkeeps⟩
  · rw [hset, if_pos rfl] at hnone
    cases hnone
  · rw [hset, if_pos rfl] at hstore'
    cases hstore'
    exact hcurrent hfree
  · rw [hset, if_neg hne.symm] at hstore'
    exact h.worker p store' hne hstore'

theorem patch_sound (h : Sound s) {update : ControlProfileUpdate} (he : s.patch update = some t) : Sound t := by
  unfold State.patch at he
  split at he
  · rename_i store hstore
    split at he
    · cases he
    · split at he
      · cases he
        refine h.setApi hstore {store with profile := merge store.profile update, locked := true} rfl ?_
        intro hfree
        cases hfree
      · cases he
        exact h
  · cases he

theorem wrote_sound (h : Sound s) (he : s.wrote = some t) : Sound t := by
  unfold State.wrote at he
  split at he
  · rename_i store hstore
    split at he
    · cases he
      exact h.setApi hstore {store with locked := false} rfl fun _ => rfl
    · cases he
  · cases he

theorem start_sound {cfg : Settings} (h : Sound s) {job : Job} {i : Engine.RunInputs}
    (he : s.start cfg c job i = some t) : Sound t := by
  unfold State.start at he
  split at he
  · split at he <;> cases he
    · exact h.setCall trivial
    · exact h.setCall trivial
  · cases he

theorem pick_sound (h : Sound s) (he : s.pick c = some t) : Sound t := by
  unfold State.pick at he
  split at he
  · rename_i job effective _
    split at he
    · rename_i controls hown
      cases he
      refine h.setCall ⟨fun own hsome => ?_, fun hnone => ?_⟩
      · rw [hown] at hsome
        cases hsome
        rfl
      · rw [hown] at hnone
        cases hnone
    · rename_i store hown hstore
      split at he
      · cases he
      · rename_i hfree
        cases he
        refine h.setCall ⟨fun own hsome => ?_, fun _ => ⟨store, hstore, fun hapi => ?_, fun hworker => ?_⟩⟩
        · rw [hown] at hsome
          cases hsome
        · rw [hapi] at hstore
          exact h.current store hstore (Bool.eq_false_of_not_eq_true hfree)
        · exact (h.worker job.executor store hworker hstore).2
    · cases he
  · cases he

theorem finish_sound {cfg : Settings} (h : Sound s) {i : Engine.RunInputs} (he : s.finish cfg c i = some t) :
    Sound t := by
  unfold State.finish at he
  split at he
  · rename_i job effective controls seen hcall
    cases he
    have hpicked := h.call c
    rw [hcall] at hpicked
    refine h.setCall ⟨hpicked, fun run hrun => ?_⟩
    rw [Engine.execute_controls hrun]
    cases hown : job.request.controlOverrides with
    | none => rfl
    | some own => rw [hpicked.overridden own hown, Option.getD_some]
  · cases he

theorem step_sound {cfg : Settings} {file : Option Content} (e : Event) (s t : State) (h : Sound s)
    (_ : anything e s) (he : (sharing cfg file).step e s = some t) : Sound t := by
  cases e with
  | build p => exact build_sound h he
  | patch update => exact patch_sound h he
  | wrote => exact wrote_sound h he
  | start c job i => exact start_sound h he
  | pick c => exact pick_sound h he
  | finish c i => exact finish_sound h he

theorem init_sound {cfg : Settings} {file : Option Content} (s : State) (hs : (sharing cfg file).init s) :
    Sound s := by
  obtain rfl : s = { file := file } := hs
  refine ⟨fun _ => rfl, fun _ hnone => ?_, fun _ _ _ hnone => ?_, fun _ => (trivial : CallSound _ .idle)⟩
  · cases hnone
  · cases hnone

end Preservation

/-! ### Runs -/

/-- **An engine call without a profile of its own runs with the last update** exactly when
its process takes the updates, or found the same profile when it was built. -/
theorem runs_with_update {cfg : Settings} {file : Option Content} {s : State}
    (hs : (sharing cfg file).Reachable anything s) {c : Nat} {job : Job} {controls : ControlProfile}
    {seen : List ControlProfile} {outcome : Except Exc RunExperimentResponse}
    (hc : s.call c = .ended job controls seen outcome) (hnone : job.request.controlOverrides = none)
    {updated : ControlProfile} (hupdated : seen.head? = some updated) :
    (controls = updated ↔ job.executor = api ∨
      ∃ store, s.store? job.executor = some store ∧ load store.found = updated) ∧
    ∀ run, outcome = .ok run → run.controlProfile = some controls := by
  have hended := (System.reachable_invariant init_sound step_sound hs).call c
  rw [hc] at hended
  obtain ⟨htook, hruns⟩ := hended
  obtain ⟨store, hstore, hapi, hworker⟩ := htook.stored hnone
  refine ⟨?_, hruns⟩
  by_cases hexecutor : job.executor = api
  · have hcontrols := hapi hexecutor
    rw [hupdated, Option.getD_some] at hcontrols
    exact ⟨fun _ => .inl hexecutor, fun _ => hcontrols⟩
  · have hcontrols := hworker hexecutor
    constructor
    · intro hequal
      exact .inr ⟨store, hstore, hcontrols.symm.trans hequal⟩
    · rintro (hsame | ⟨store', hstore', hfound⟩)
      · exact absurd hsame hexecutor
      · rw [hstore] at hstore'
        cases hstore'
        exact hcontrols.trans hfound

/-- A health run of one shot on the simulator, in a process. -/
def jobIn (executor : Nat) : Job where
  executor := executor
  request := { preset := .health, hardwareTarget := .simLocal, shotBudget := some 1 }

/-- What a call that ended ran with, and had seen. -/
def Call.ended? : Call → Option (Job × ControlProfile × List ControlProfile)
  | .ended job controls seen _ => some (job, controls, seen)
  | _ => none

/-- The profile of the run that a call returned. -/
def Call.ranWith : Call → Option ControlProfile
  | .ended _ _ _ (.ok run) => run.controlProfile
  | _ => none

/-- A worker that is built after an update runs with it. -/
theorem runs_with_update_built : ∃ s controls outcome, (sharing {} none).Reachable anything s ∧
    s.call 0 = .ended (jobIn 1) controls [{ driveBias := 6 / 5 }] outcome ∧ controls = { driveBias := 6 / 5 } := by
  have hrun : ((sharing {} none).run { file := none } [.build 0, .patch { driveBias := some (6 / 5) }, .wrote,
      .build 1, .start 0 (jobIn 1) (Engine.plainInputs none), .pick 0, .finish 0 (Engine.plainInputs none)]).map
      (fun s => ((s.call 0).ended?, (s.store? 1).map fun store => load store.found)) =
      some (some (jobIn 1, { driveBias := 6 / 5 }, [{ driveBias := 6 / 5 }]), some { driveBias := 6 / 5 }) := by
    decide +kernel
  obtain ⟨s, hs, hseen⟩ := Option.map_eq_some_iff.mp hrun
  obtain ⟨hended, hfound⟩ := Prod.mk.inj hseen
  obtain ⟨store, hstore, hload⟩ := Option.map_eq_some_iff.mp hfound
  obtain ⟨outcome, hcall⟩ : ∃ outcome, s.call 0 =
      .ended (jobIn 1) { driveBias := 6 / 5 } [{ driveBias := 6 / 5 }] outcome := by
    unfold Call.ended? at hended
    split at hended
    · rename_i outcome hcall
      cases hended
      exact ⟨outcome, hcall⟩
    · cases hended
  have hreach := System.run_reachable (S := sharing {} none) rfl hs
  exact ⟨s, _, outcome, hreach, hcall, (runs_with_update hreach hcall rfl rfl).1.mpr (.inr ⟨store, hstore, hload⟩)⟩

/-- A worker that was built before the update runs with the defaults, long after the
update returned. -/
theorem worker_stale : ((sharing {} none).run { file := none } [.build 0, .build 1,
      .patch { driveBias := some (6 / 5) }, .wrote, .start 0 (jobIn 1) (Engine.plainInputs none), .pick 0,
      .finish 0 (Engine.plainInputs none)]).map (fun s => (s.updates, (s.call 0).ranWith)) =
      some ([{ driveBias := 6 / 5 }], some {}) ∧ ({} : ControlProfile) ≠ { driveBias := 6 / 5 } := by
  constructor
  · decide +kernel
  · decide +kernel

end SynQc.ControlProfiles
