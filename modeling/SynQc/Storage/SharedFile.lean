import SynQc.Library.Roster
import SynQc.Library.Transition
import SynQc.Storage.ExperimentStore

/-! Stores of several processes on one persist file.

Each process has its runs in memory. `add` writes all of them to the file under the
store's lock, and reads the file's modification time afterwards. `get` and `list_recent`
first compare that time with the file's, and where the file is newer they read it and put
what they read in the place of the memory; the comparison and the read are outside the
lock. Every access to the file is a step of its own here, and so is every hold of the
lock that does not touch the file.

A write that comes between another process's write and its own next look at the file
takes that process's run away. `upToDate` excludes this: a process writes only when it
has every run of the file. -/
namespace SynQc.SharedFile
open Transition

/-- The persist file: its modification time and its runs, as they were written. -/
structure File where
  mtime : Time
  runs : List RunExperimentResponse

/-- The store object of a process. -/
structure Cache where
  store : ExperimentStore
  persistMtime : Option Time := none
  locked : Bool := false

/-- `self._persist_mtime and mtime <= self._persist_mtime` -/
def Cache.isCurrent (cache : Cache) (mtime : Time) : Bool :=
  cache.persistMtime.any fun seen => decide (seen ≠ 0 ∧ mtime ≤ seen)

/-- A process: not started, in the constructor after it read the file, or serving. -/
inductive Process where
  | absent
  | opening (data : List RunExperimentResponse)
  | ready (cache : Cache)

instance : Inhabited Process := ⟨.absent⟩

def Process.cache? : Process → Option Cache
  | .ready cache => some cache
  | _ => none

inductive Query where
  | get (runId : RunId)
  | listRecent (limit : Nat)

inductive Answer where
  | run (found : Option RunExperimentResponse)
  | recent (runs : List RunExperimentResponse)

/-- What `get` and `list_recent` read under the lock. -/
def answer (store : ExperimentStore) : Query → Answer
  | .get runId => .run (store.get runId)
  | .listRecent limit =>
    .recent ((store.runs.values.mergeSort fun a b => decide (b.createdAt ≤ a.createdAt)).take limit)

/-- A read in progress. `before` is what had been added when it began. -/
structure Reading where
  process : Nat
  query : Query
  before : List RunExperimentResponse

/-- Where a call of a store method stands. -/
inductive Call where
  | idle
  | stamping (process : Nat) (run : RunExperimentResponse)
  | added (process : Nat) (run : RunExperimentResponse)
  | comparing (r : Reading) (mtime : Time)
  | reading (r : Reading) (mtime : Time)
  | installing (r : Reading) (mtime : Time) (data : List RunExperimentResponse)
  | looking (r : Reading)
  | answered (r : Reading) (a : Answer)

instance : Inhabited Call := ⟨.idle⟩

/-- The file, the processes and their calls. `written` is every add with the modification
time it gave the file, and `added` the runs whose add has returned. -/
structure State where
  file : Option File
  processes : Roster Nat Process := Dict.empty
  calls : Roster Nat Call := Dict.empty
  written : List (RunExperimentResponse × Time) := []
  added : List RunExperimentResponse := []

namespace State

def process (s : State) (p : Nat) : Process := s.processes.phase p

def call (s : State) (c : Nat) : Call := s.calls.phase c

def cache? (s : State) (p : Nat) : Option Cache := (s.process p).cache?

def onDisk (s : State) : List RunExperimentResponse :=
  match s.file with
  | some file => file.runs
  | none => []

def setProcess (s : State) (p : Nat) (process : Process) : State :=
  {s with processes := s.processes.set p process}

def setCall (s : State) (c : Nat) (call : Call) : State := {s with calls := s.calls.set c call}

/-! ### The constructor -/

/-- The file is read, if there is one. -/
def start (maxEntries p : Nat) (s : State) : Option State :=
  match s.process p, s.file with
  | .absent, some file => some (s.setProcess p (.opening file.runs))
  | .absent, none => some (s.setProcess p (.ready { store := { maxEntries := maxEntries } }))
  | _, _ => none

/-- Its modification time is read. -/
def opened (maxEntries p : Nat) (s : State) : Option State :=
  match s.process p with
  | .opening data => some (s.setProcess p (.ready
      { store := ExperimentStore.load maxEntries data, persistMtime := s.file.map File.mtime }))
  | _ => none

/-! ### `add` -/

/-- Modification times only grow. -/
def isLater (s : State) (mtime : Time) : Bool := s.file.all fun file => decide (file.mtime < mtime)

/-- The run is stored and the file written; the lock stays held. -/
def write (c p : Nat) (run : RunExperimentResponse) (mtime : Time) (s : State) : Option State :=
  match s.call c, s.cache? p with
  | .idle, some cache =>
    if cache.locked ∨ ¬s.isLater mtime then none
    else some {
      file := some ⟨mtime, (cache.store.add run).runs.values⟩
      processes := s.processes.set p (.ready {cache with store := cache.store.add run, locked := true})
      calls := s.calls.set c (.stamping p run)
      written := (run, mtime) :: s.written
      added := s.added }
  | _, _ => none

/-- The file's modification time is read, and the add returns. -/
def stamp (c : Nat) (s : State) : Option State :=
  match s.call c with
  | .stamping p run =>
    match s.cache? p with
    | some cache => some {
        file := s.file
        processes := s.processes.set p
          (.ready {cache with persistMtime := (s.file.map File.mtime).or cache.persistMtime, locked := false})
        calls := s.calls.set c (.added p run)
        written := s.written
        added := run :: s.added }
    | none => none
  | _ => none

/-! ### `get` and `list_recent` -/

/-- The file's modification time is read, where there is a file. -/
def stat (c p : Nat) (query : Query) (s : State) : Option State :=
  match s.call c, s.cache? p with
  | .idle, some _ =>
    match s.file with
    | some file => some (s.setCall c (.comparing ⟨p, query, s.added⟩ file.mtime))
    | none => some (s.setCall c (.looking ⟨p, query, s.added⟩))
  | _, _ => none

def compare (c : Nat) (s : State) : Option State :=
  match s.call c with
  | .comparing r mtime =>
    match s.cache? r.process with
    | some cache => some (s.setCall c (if cache.isCurrent mtime then .looking r else .reading r mtime))
    | none => none
  | _ => none

def read (c : Nat) (s : State) : Option State :=
  match s.call c with
  | .reading r mtime =>
    match s.file with
    | some file => some (s.setCall c (.installing r mtime file.runs))
    | none => some (s.setCall c (.looking r))
  | _ => none

/-- What was read takes the place of the memory. -/
def install (c : Nat) (s : State) : Option State :=
  match s.call c with
  | .installing r mtime data =>
    match s.cache? r.process with
    | some cache =>
      if cache.locked then none
      else some ((s.setProcess r.process (.ready {cache with
        store := ExperimentStore.load cache.store.maxEntries data
        persistMtime := some mtime })).setCall c (.looking r))
    | none => none
  | _ => none

def look (c : Nat) (s : State) : Option State :=
  match s.call c with
  | .looking r =>
    match s.cache? r.process with
    | some cache => if cache.locked then none else some (s.setCall c (.answered r (answer cache.store r.query)))
    | none => none
  | _ => none

end State

inductive Event where
  | start (p : Nat)
  | opened (p : Nat)
  | write (c p : Nat) (run : RunExperimentResponse) (mtime : Time)
  | stamp (c : Nat)
  | stat (c p : Nat) (query : Query)
  | compare (c : Nat)
  | read (c : Nat)
  | install (c : Nat)
  | look (c : Nat)

/-- Processes that find this file, or none. -/
def sharing (maxEntries : Nat) (file : Option File) : System State Event where
  init s := s = { file := file }
  step
    | .start p => State.start maxEntries p
    | .opened p => State.opened maxEntries p
    | .write c p run mtime => State.write c p run mtime
    | .stamp c => State.stamp c
    | .stat c p query => State.stat c p query
    | .compare c => State.compare c
    | .read c => State.read c
    | .install c => State.install c
    | .look c => State.look c

/-- The runs that are added are runs of the list. -/
def addsFrom (among : List RunExperimentResponse) : Event → State → Prop
  | .write _ _ run _, _ => run ∈ among
  | _, _ => True

/-- The process has every run of the file. -/
def State.knowsFile (s : State) (p : Nat) : Bool :=
  match s.cache? p with
  | some cache => s.onDisk.all fun run => (cache.store.get run.id).isSome
  | none => true

/-- The runs are among those that were read. -/
def wereRead (runs data : List RunExperimentResponse) : Bool :=
  runs.all fun run => data.any fun other => decide (other.id = run.id)

/-- A process that writes the file, or takes its modification time over, has every run of
it; and what a reader puts in the place of the memory has every run of the memory. -/
def upToDate : Event → State → Bool
  | .write _ p _ _, s => s.knowsFile p
  | .stamp c, s =>
    match s.call c with
    | .stamping p _ => s.knowsFile p
    | _ => true
  | .install c, s =>
    match s.call c with
    | .installing r _ data => (s.cache? r.process).all fun cache => wereRead cache.store.runs.values data
    | _ => true
  | .opened p, s =>
    match s.process p with
    | .opening data => wereRead s.onDisk data
    | _ => true
  | _, _ => true

/-! ### What a step does -/

section Steps
variable {s t : State}

theorem cache?_eq {p : Nat} {cache : Cache} (h : s.cache? p = some cache) : s.process p = .ready cache := by
  unfold State.cache? at h
  cases hp : s.process p <;> rw [hp] at h <;> cases h
  rfl

/-- The file has had this modification time. -/
def State.Reached (s : State) (mtime : Time) : Prop := ∃ file, s.file = some file ∧ mtime ≤ file.mtime

/-- The run was written no later than this. -/
def State.WrittenBy (s : State) (run : RunExperimentResponse) (mtime : Time) : Prop :=
  ∃ entry ∈ s.written, entry.1 = run ∧ entry.2 ≤ mtime

theorem WrittenBy.mono {run : RunExperimentResponse} {a b : Time} (h : s.WrittenBy run a) (hab : a ≤ b) :
    s.WrittenBy run b := by
  obtain ⟨entry, hmem, hrun, hle⟩ := h
  exact ⟨entry, hmem, hrun, hle.trans hab⟩

/-- What every step keeps: the time of the file, what was written up to then, and what the
processes have. -/
structure Grows (s t : State) : Prop where
  file : ∀ mtime, s.Reached mtime → t.Reached mtime
  written : ∀ entry ∈ s.written, entry ∈ t.written
  past : ∀ run mtime, s.Reached mtime → t.WrittenBy run mtime → s.WrittenBy run mtime
  memory : ∀ p cache, s.cache? p = some cache →
    ∃ after, t.cache? p = some after ∧ ∀ run, cache.store.Has run → after.store.Has run

theorem Grows.writtenBy (h : Grows s t) {run : RunExperimentResponse} {mtime : Time}
    (hw : s.WrittenBy run mtime) : t.WrittenBy run mtime := by
  obtain ⟨entry, hmem, hrest⟩ := hw
  exact ⟨entry, h.written entry hmem, hrest⟩

end Steps

/-! ### The invariant -/

section Invariant
variable (maxEntries : Nat) (among : List RunExperimentResponse)

/-- A memory has every run that was written by the time it stands for. -/
structure CacheSound (s : State) (cache : Cache) : Prop where
  bound : cache.store.maxEntries = maxEntries
  within : cache.store.Within among
  reached : ∀ mtime, cache.persistMtime = some mtime → s.Reached mtime
  synced : ∀ mtime, cache.persistMtime = some mtime → ∀ run, s.WrittenBy run mtime → cache.store.Has run

def ProcessSound (s : State) : Process → Prop
  | .absent => True
  | .opening data => ∀ run ∈ data, run ∈ among
  | .ready cache => CacheSound maxEntries among s cache

/-- The reader will see what had been added when it began. -/
def CallSound (s : State) : Call → Prop
  | .idle | .added _ _ => True
  | .stamping _ run => ∃ mtime, s.WrittenBy run mtime
  | .comparing r mtime | .reading r mtime => s.Reached mtime ∧ ∀ run ∈ r.before, s.WrittenBy run mtime
  | .installing r mtime data => (s.Reached mtime ∧ ∀ run ∈ r.before, s.WrittenBy run mtime) ∧
      (∀ run ∈ data, run ∈ among) ∧ ∀ run, s.WrittenBy run mtime → run ∈ data
  | .looking r => ∃ cache, s.cache? r.process = some cache ∧ ∀ run ∈ r.before, cache.store.Has run
  | .answered r a => ∃ store : ExperimentStore, (∀ run ∈ r.before, store.Has run) ∧ a = answer store r.query

structure Sound (s : State) : Prop where
  disk : ∀ run ∈ s.onDisk, run ∈ among
  kept : ∀ entry ∈ s.written, s.Reached entry.2 ∧ entry.1 ∈ s.onDisk
  added : ∀ run ∈ s.added, ∃ mtime, s.WrittenBy run mtime
  process : ∀ p, ProcessSound maxEntries among s (s.process p)
  call : ∀ c, CallSound among s (s.call c)

end Invariant

section Preservation
variable {maxEntries : Nat} {among : List RunExperimentResponse} {s t : State}

/-- What a run written by some time is on the disk by the time of the file. -/
theorem Sound.onDisk (h : Sound maxEntries among s) {run : RunExperimentResponse} {mtime : Time}
    (hw : s.WrittenBy run mtime) : run ∈ s.onDisk := by
  obtain ⟨entry, hmem, rfl, _⟩ := hw
  exact (h.kept entry hmem).2

/-- By the time of the file, everything that was ever written is written. -/
theorem Sound.written_now (h : Sound maxEntries among s) {file : File} (hfile : s.file = some file)
    {run : RunExperimentResponse} {mtime : Time} (hw : s.WrittenBy run mtime) : s.WrittenBy run file.mtime := by
  obtain ⟨entry, hmem, hrun, _⟩ := hw
  obtain ⟨file', hfile', hle⟩ := (h.kept entry hmem).1
  rw [hfile] at hfile'
  cases hfile'
  exact ⟨entry, hmem, hrun, hle⟩

theorem Sound.cache (h : Sound maxEntries among s) {p : Nat} {cache : Cache} (hc : s.cache? p = some cache) :
    CacheSound maxEntries among s cache := by
  have hp := h.process p
  rw [cache?_eq hc] at hp
  exact hp

theorem CacheSound.grows {cache : Cache} (h : CacheSound maxEntries among s cache) (hgrows : Grows s t) :
    CacheSound maxEntries among t cache where
  bound := h.bound
  within := h.within
  reached mtime hm := hgrows.file mtime (h.reached mtime hm)
  synced mtime hm run hw := h.synced mtime hm run (hgrows.past run mtime (h.reached mtime hm) hw)

theorem ProcessSound.grows {process : Process} (h : ProcessSound maxEntries among s process) (hgrows : Grows s t) :
    ProcessSound maxEntries among t process := by
  cases process with
  | absent => trivial
  | opening data => exact h
  | ready cache => exact CacheSound.grows h hgrows

theorem CallSound.grows {call : Call} (h : CallSound among s call) (hgrows : Grows s t) :
    CallSound among t call := by
  have hbefore : ∀ r : Reading, ∀ mtime, (s.Reached mtime ∧ ∀ run ∈ r.before, s.WrittenBy run mtime) →
      t.Reached mtime ∧ ∀ run ∈ r.before, t.WrittenBy run mtime := by
    intro r mtime hr
    exact ⟨hgrows.file mtime hr.1, fun run hrun => hgrows.writtenBy (hr.2 run hrun)⟩
  cases call with
  | idle => trivial
  | added => trivial
  | stamping =>
    obtain ⟨mtime, hw⟩ := h
    exact ⟨mtime, hgrows.writtenBy hw⟩
  | comparing r mtime => exact hbefore r mtime h
  | reading r mtime => exact hbefore r mtime h
  | installing r mtime data =>
    obtain ⟨hr, hdata, hall⟩ := h
    exact ⟨hbefore r mtime hr, hdata, fun run hw => hall run (hgrows.past run mtime hr.1 hw)⟩
  | looking r =>
    obtain ⟨cache, hcache, hhas⟩ := h
    obtain ⟨after, hafter, hkeeps⟩ := hgrows.memory r.process cache hcache
    exact ⟨after, hafter, fun run hrun => hkeeps run (hhas run hrun)⟩
  | answered r a => exact h

theorem Grows.same (hfile : t.file = s.file) (hwritten : t.written = s.written)
    (hprocesses : t.processes = s.processes) : Grows s t where
  file mtime h := by
    rw [State.Reached, hfile]
    exact h
  written entry h := hwritten ▸ h
  past run mtime _ h := by
    rw [State.WrittenBy, hwritten] at h
    exact h
  memory p cache h := by
    refine ⟨cache, ?_, fun _ hrun => hrun⟩
    rw [State.cache?, State.process, hprocesses]
    exact h

theorem Grows.setCall (s : State) (c : Nat) (call : Call) : Grows s (s.setCall c call) := .same rfl rfl rfl

theorem Sound.setCall (h : Sound maxEntries among s) {c : Nat} {call : Call} (hcall : CallSound among s call) :
    Sound maxEntries among (s.setCall c call) where
  disk := h.disk
  kept := h.kept
  added := h.added
  process p := (h.process p).grows (Grows.setCall s c call)
  call c' := by
    show CallSound among _ (Roster.phase (s.calls.set c call) c')
    rw [Roster.phase_set]
    split
    · exact hcall.grows (Grows.setCall s c call)
    · exact (h.call c').grows (Grows.setCall s c call)

theorem cache?_setProcess (s : State) (p p' : Nat) (process : Process) :
    (s.setProcess p process).cache? p' = if p = p' then process.cache? else s.cache? p' := by
  show Process.cache? (Roster.phase (s.processes.set p process) p') = _
  rw [Roster.phase_set]
  split <;> rfl

/-- A process may change its memory for one that has as much. -/
theorem Grows.setProcess {p : Nat} {process : Process} (hkeeps : ∀ cache, s.cache? p = some cache →
    ∃ after, process.cache? = some after ∧ ∀ run, cache.store.Has run → after.store.Has run) :
    Grows s (s.setProcess p process) where
  file _ h := h
  written _ h := h
  past _ _ _ h := h
  memory p' cache h := by
    rw [cache?_setProcess]
    split
    · rename_i heq
      subst heq
      exact hkeeps cache h
    · exact ⟨cache, h, fun _ hrun => hrun⟩

theorem reached_lt {mtime seen : Time} (h : s.isLater mtime = true) (hseen : s.Reached seen) : seen < mtime := by
  obtain ⟨file, hfile, hle⟩ := hseen
  rw [State.isLater, hfile, Option.all_some, decide_eq_true_eq] at h
  exact lt_of_le_of_lt hle h

/-- The time of a write is after every time that anyone has seen. -/
theorem Grows.write (c : Nat) {p : Nat} (run : RunExperimentResponse) {mtime : Time} {cache : Cache}
    {store : ExperimentStore} (hcache : s.cache? p = some cache) (hlater : s.isLater mtime = true)
    (hmore : ∀ other, cache.store.Has other → store.Has other) :
    Grows s {
      file := some ⟨mtime, store.runs.values⟩
      processes := s.processes.set p (.ready {cache with store := store, locked := true})
      calls := s.calls.set c (.stamping p run)
      written := (run, mtime) :: s.written
      added := s.added } := by
  refine ⟨fun seen hseen => ⟨_, rfl, (reached_lt hlater hseen).le⟩, fun entry => List.mem_cons_of_mem _, ?_, ?_⟩
  · rintro other seen hseen ⟨entry, hmem, hother, hle⟩
    rcases List.mem_cons.mp hmem with rfl | hmem
    · exact absurd (lt_of_le_of_lt hle (reached_lt hlater hseen)) (lt_irrefl _)
    · exact ⟨entry, hmem, hother, hle⟩
  · intro p' before hbefore
    have hmemory := cache?_setProcess s p p' (.ready {cache with store := store, locked := true})
    by_cases heq : p = p'
    · subst heq
      rw [hcache] at hbefore
      cases hbefore
      rw [if_pos rfl] at hmemory
      exact ⟨_, hmemory, hmore⟩
    · rw [if_neg heq] at hmemory
      exact ⟨before, hmemory.trans hbefore, fun _ hhas => hhas⟩

theorem Sound.setProcess (h : Sound maxEntries among s) (p : Nat) (process : Process)
    (hp : ProcessSound maxEntries among s process) (hgrows : Grows s (s.setProcess p process)) :
    Sound maxEntries among (s.setProcess p process) where
  disk := h.disk
  kept := h.kept
  added := h.added
  process p' := by
    show ProcessSound maxEntries among _ (Roster.phase (s.processes.set p process) p')
    rw [Roster.phase_set]
    split
    · exact hp.grows hgrows
    · exact (h.process p').grows hgrows
  call c := (h.call c).grows hgrows

/-- An add that returns. -/
theorem Sound.addReturned (h : Sound maxEntries among s) {run : RunExperimentResponse} {mtime : Time}
    (hrun : s.WrittenBy run mtime) : Sound maxEntries among {s with added := run :: s.added} where
  disk := h.disk
  kept := h.kept
  added other hother := by
    rcases List.mem_cons.mp hother with rfl | hother
    · exact ⟨mtime, hrun⟩
    · exact h.added other hother
  process p := (h.process p).grows (.same rfl rfl rfl)
  call c := (h.call c).grows (.same rfl rfl rfl)

/-! ### Each step -/

theorem start_sound (h : Sound maxEntries among s) {p : Nat} (he : s.start maxEntries p = some t) :
    Sound maxEntries among t := by
  have hnew : ∀ process : Process, s.process p = .absent → Grows s (s.setProcess p process) := by
    intro process habsent
    apply Grows.setProcess
    intro cache hcache
    rw [cache?_eq hcache] at habsent
    cases habsent
  unfold State.start at he
  split at he
  · rename_i file hp hfile
    cases he
    refine h.setProcess p _ (fun run hrun => h.disk run ?_) (hnew _ hp)
    rw [State.onDisk, hfile]
    exact hrun
  · rename_i hp hfile
    cases he
    have hcache : CacheSound maxEntries among s { store := { maxEntries := maxEntries } } :=
      ⟨rfl, ExperimentStore.within_empty maxEntries, nofun, nofun⟩
    exact h.setProcess p _ hcache (hnew _ hp)
  · cases he

section Distinct
variable (hids : (among.map fun run => run.id).Nodup)
include hids

/-- The list has one run for an id, so a run is known by its id. -/
theorem Sound.has_onDisk (h : Sound maxEntries among s) {p : Nat} (hknows : s.knowsFile p = true) {cache : Cache}
    (hcache : s.cache? p = some cache) {run : RunExperimentResponse} (hrun : run ∈ s.onDisk) :
    cache.store.Has run := by
  rw [State.knowsFile, hcache] at hknows
  obtain ⟨found, hfound⟩ := Option.isSome_iff_exists.mp (List.all_eq_true.mp hknows run hrun)
  have hid := cache.store.keyed run.id found hfound
  have hmem := (h.cache hcache).within.get hfound
  rw [List.inj_on_of_nodup_map hids hmem (h.disk run hrun) hid] at hfound
  exact hfound

theorem mem_of_wereRead {runs data : List RunExperimentResponse} (hread : wereRead runs data = true)
    (hdata : ∀ run ∈ data, run ∈ among) {run : RunExperimentResponse} (hmem : run ∈ among) (hrun : run ∈ runs) :
    run ∈ data := by
  obtain ⟨other, hother, hid⟩ := List.any_eq_true.mp (List.all_eq_true.mp hread run hrun)
  rw [decide_eq_true_eq] at hid
  rw [← List.inj_on_of_nodup_map hids (hdata other hother) hmem hid]
  exact hother

theorem opened_sound (h : Sound maxEntries among s) {p : Nat} (hrule : upToDate (.opened p) s = true)
    (he : s.opened maxEntries p = some t) : Sound maxEntries among t := by
  unfold State.opened at he
  split at he
  · rename_i data hp
    cases he
    have hdata : ∀ run ∈ data, run ∈ among := by
      have hsound := h.process p
      rw [hp] at hsound
      exact hsound
    have hcache : CacheSound maxEntries among s
        { store := ExperimentStore.load maxEntries data, persistMtime := s.file.map File.mtime } := by
      refine ⟨ExperimentStore.maxEntries_load hids maxEntries hdata,
        ExperimentStore.within_load hids maxEntries hdata, fun mtime hm => ?_, fun mtime _ run hw => ?_⟩
      · obtain ⟨file, hfile, rfl⟩ := Option.map_eq_some_iff.mp hm
        exact ⟨file, hfile, le_refl _⟩
      · rw [upToDate, hp] at hrule
        have hdisk := h.onDisk hw
        exact ExperimentStore.has_load hids maxEntries hdata
          (mem_of_wereRead hids hrule hdata (h.disk run hdisk) hdisk)
    refine h.setProcess p _ hcache (Grows.setProcess fun cache hready => ?_)
    rw [cache?_eq hready] at hp
    cases hp
  · cases he

theorem write_sound (hfew : among.length < maxEntries) (h : Sound maxEntries among s) {c p : Nat}
    {run : RunExperimentResponse} {mtime : Time} (hrun : run ∈ among)
    (hrule : upToDate (.write c p run mtime) s = true) (he : s.write c p run mtime = some t) :
    Sound maxEntries among t := by
  unfold State.write at he
  split at he
  · rename_i cache _ hcache
    split at he
    · cases he
    · rename_i hfree
      cases he
      have hsound := h.cache hcache
      have hwithin : (cache.store.put run).Within among := hsound.within.put hrun
      have hadd : cache.store.add run = cache.store.put run := by
        apply ExperimentStore.add_eq_put
        have hsize := hwithin.size_le
        have hbound := hsound.bound
        omega
      have hmore : ∀ other, cache.store.Has other → (cache.store.put run).Has other :=
        fun other hother => hother.put hids hrun (hsound.within other hother)
      have hlater : s.isLater mtime = true := by
        by_contra hnot
        exact hfree (.inr hnot)
      have hgrows := Grows.write c run hcache hlater hmore
      rw [hadd]
      refine ⟨fun other hother => ?_, fun entry hmem => ?_, fun other hother => ?_, fun p' => ?_, fun c' => ?_⟩
      · exact hwithin other (ExperimentStore.mem_values.mp hother)
      · rcases List.mem_cons.mp hmem with rfl | hmem
        · exact ⟨⟨_, rfl, le_refl _⟩, ExperimentStore.mem_values.mpr (cache.store.has_put run)⟩
        · obtain ⟨hreached, hold⟩ := h.kept entry hmem
          exact ⟨hgrows.file _ hreached,
            ExperimentStore.mem_values.mpr (hmore _ (h.has_onDisk hids hrule hcache hold))⟩
      · obtain ⟨seen, hw⟩ := h.added other hother
        exact ⟨seen, hgrows.writtenBy hw⟩
      · show ProcessSound maxEntries among _ (Roster.phase (s.processes.set p _) p')
        rw [Roster.phase_set]
        split
        · have hafter := hsound.grows hgrows
          exact ⟨hsound.bound, hwithin, hafter.reached, fun seen hseen other hw =>
            hmore other (hafter.synced seen hseen other hw)⟩
        · exact (h.process p').grows hgrows
      · show CallSound among _ (Roster.phase (s.calls.set c _) c')
        rw [Roster.phase_set]
        split
        · exact ⟨mtime, (run, mtime), List.mem_cons_self, rfl, le_refl _⟩
        · exact (h.call c').grows hgrows
  · cases he

theorem stamp_sound (h : Sound maxEntries among s) {c : Nat} (hrule : upToDate (.stamp c) s = true)
    (he : s.stamp c = some t) : Sound maxEntries among t := by
  unfold State.stamp at he
  split at he
  · rename_i p run hcall
    rw [upToDate, hcall] at hrule
    split at he
    · rename_i cache hcache
      cases he
      have hsound := h.cache hcache
      obtain ⟨written, hw⟩ : ∃ mtime, s.WrittenBy run mtime := by
        have hstamping := h.call c
        rw [hcall] at hstamping
        exact hstamping
      have hstamped : ProcessSound maxEntries among s (.ready
          {cache with persistMtime := (s.file.map File.mtime).or cache.persistMtime, locked := false}) := by
        refine ⟨hsound.bound, hsound.within, fun mtime hm => ?_, fun mtime _ other hother => ?_⟩
        · rcases Option.or_eq_some_iff.mp hm with hm | ⟨_, hm⟩
          · obtain ⟨file, hfile, rfl⟩ := Option.map_eq_some_iff.mp hm
            exact ⟨file, hfile, le_refl _⟩
          · exact hsound.reached mtime hm
        · exact h.has_onDisk hids hrule hcache (h.onDisk hother)
      have hstep := (h.setProcess p _ hstamped (Grows.setProcess fun before hbefore => by
        rw [hcache] at hbefore
        cases hbefore
        exact ⟨_, rfl, fun _ hhas => hhas⟩)).setCall (c := c) (show CallSound among _ (.added p run) from trivial)
      exact hstep.addReturned hw
    · cases he
  · cases he

omit hids in
theorem stat_sound (h : Sound maxEntries among s) {c p : Nat} {query : Query}
    (he : s.stat c p query = some t) : Sound maxEntries among t := by
  unfold State.stat at he
  split at he
  · rename_i cache _ hcache
    split at he
    · rename_i file hfile
      cases he
      refine h.setCall ⟨⟨file, hfile, le_refl _⟩, fun run hrun => ?_⟩
      obtain ⟨mtime, hw⟩ := h.added run hrun
      exact h.written_now hfile hw
    · rename_i hfile
      cases he
      refine h.setCall ⟨cache, hcache, fun run hrun => ?_⟩
      -- without a file nothing was added
      obtain ⟨mtime, hw⟩ := h.added run hrun
      have hdisk := h.onDisk hw
      rw [State.onDisk, hfile] at hdisk
      cases hdisk
  · cases he

omit hids in
theorem compare_sound (h : Sound maxEntries among s) {c : Nat} (he : s.compare c = some t) :
    Sound maxEntries among t := by
  unfold State.compare at he
  split at he
  · rename_i r mtime hcall
    have hcomparing := h.call c
    rw [hcall] at hcomparing
    split at he
    · rename_i cache hcache
      cases he
      apply h.setCall
      split
      · rename_i hcurrent
        obtain ⟨seen, hseen, hle⟩ := Option.any_eq_true _ _ |>.mp hcurrent
        rw [decide_eq_true_eq] at hle
        exact ⟨cache, hcache, fun run hrun =>
          (h.cache hcache).synced seen hseen run (WrittenBy.mono (hcomparing.2 run hrun) hle.2)⟩
      · exact hcomparing
    · cases he
  · cases he

omit hids in
theorem read_sound (h : Sound maxEntries among s) {c : Nat} (he : s.read c = some t) :
    Sound maxEntries among t := by
  unfold State.read at he
  split at he
  · rename_i r mtime hcall
    have hreading := h.call c
    rw [hcall] at hreading
    split at he
    · rename_i file hfile
      cases he
      have hdisk : s.onDisk = file.runs := by rw [State.onDisk, hfile]
      refine h.setCall ⟨hreading, fun run hrun => h.disk run (hdisk ▸ hrun), fun run hw => ?_⟩
      rw [← hdisk]
      exact h.onDisk hw
    · rename_i hfile
      obtain ⟨⟨file, hthere, _⟩, _⟩ := hreading
      rw [hfile] at hthere
      cases hthere
  · cases he

theorem install_sound (h : Sound maxEntries among s) {c : Nat} (hrule : upToDate (.install c) s = true)
    (he : s.install c = some t) : Sound maxEntries among t := by
  unfold State.install at he
  split at he
  · rename_i r mtime data hcall
    have hinstalling := h.call c
    rw [hcall] at hinstalling
    obtain ⟨⟨hreached, hbefore⟩, hdata, hall⟩ := hinstalling
    split at he
    · rename_i cache hcache
      split at he
      · cases he
      · cases he
        have hbound := (h.cache hcache).bound
        have hload : ∀ run ∈ data, (ExperimentStore.load cache.store.maxEntries data).Has run :=
          fun run => ExperimentStore.has_load hids _ hdata
        have hloaded : ProcessSound maxEntries among s (.ready {cache with
            store := ExperimentStore.load cache.store.maxEntries data
            persistMtime := some mtime }) := by
          refine ⟨(ExperimentStore.maxEntries_load hids _ hdata).trans hbound,
            ExperimentStore.within_load hids _ hdata, fun seen hseen => ?_, fun seen hseen run hw => ?_⟩
          · cases hseen
            exact hreached
          · cases hseen
            exact hload run (hall run hw)
        refine (h.setProcess r.process _ hloaded (Grows.setProcess fun before hold => ?_)).setCall
          ⟨_, (cache?_setProcess s _ _ _).trans (if_pos rfl), fun run hrun => hload run (hall run (hbefore run hrun))⟩
        rw [hcache] at hold
        cases hold
        refine ⟨_, rfl, fun run hhas => hload run ?_⟩
        rw [upToDate, hcall] at hrule
        dsimp only at hrule
        rw [hcache, Option.all_some] at hrule
        exact mem_of_wereRead hids hrule hdata ((h.cache hcache).within run hhas)
          (ExperimentStore.mem_values.mpr hhas)
    · cases he
  · cases he

omit hids in
theorem look_sound (h : Sound maxEntries among s) {c : Nat} (he : s.look c = some t) :
    Sound maxEntries among t := by
  unfold State.look at he
  split at he
  · rename_i r hcall
    have hlooking := h.call c
    rw [hcall] at hlooking
    obtain ⟨cache, hcache, hhas⟩ := hlooking
    rw [hcache] at he
    dsimp only at he
    split at he
    · cases he
    · cases he
      exact h.setCall ⟨cache.store, hhas, rfl⟩
  · cases he

/-- What each step keeps, for a run's steps under both rules. -/
theorem step_sound (hfew : among.length < maxEntries) {file : Option File} (e : Event) (s t : State)
    (h : Sound maxEntries among s) (hrule : addsFrom among e s ∧ upToDate e s = true)
    (he : (sharing maxEntries file).step e s = some t) : Sound maxEntries among t := by
  obtain ⟨hadds, hcurrent⟩ := hrule
  cases e with
  | start p => exact start_sound h he
  | opened p => exact opened_sound hids h hcurrent he
  | write c p run mtime => exact write_sound hids hfew h hadds hcurrent he
  | stamp c => exact stamp_sound hids h hcurrent he
  | stat c p query => exact stat_sound h he
  | compare c => exact compare_sound h he
  | read c => exact read_sound h he
  | install c => exact install_sound hids h hcurrent he
  | look c => exact look_sound h he

end Distinct

theorem init_sound {file : Option File} (hfile : ∀ f, file = some f → ∀ run ∈ f.runs, run ∈ among) (s : State)
    (hs : (sharing maxEntries file).init s) : Sound maxEntries among s := by
  obtain rfl : s = { file := file } := hs
  refine ⟨fun run hrun => ?_, fun _ hnone => absurd hnone List.not_mem_nil,
    fun _ hnone => absurd hnone List.not_mem_nil,
    fun _ => (trivial : ProcessSound maxEntries among _ .absent), fun _ => (trivial : CallSound among _ .idle)⟩
  cases file with
  | none => cases hrun
  | some f => exact hfile f rfl run hrun

/-! ### Runs -/

/-- **A read that begins after an add returned sees the run**, in whatever process it is:
on runs where every process that writes the file is up to date with it. -/
theorem run_found (hids : (among.map fun run => run.id).Nodup) (hfew : among.length < maxEntries)
    {file : Option File} (hfile : ∀ f, file = some f → ∀ run ∈ f.runs, run ∈ among)
    (hs : (sharing maxEntries file).Reachable (fun e s => addsFrom among e s ∧ upToDate e s = true) s)
    {c : Nat} {r : Reading} {found : Option RunExperimentResponse} (hc : s.call c = .answered r (.run found))
    {run : RunExperimentResponse} (hrun : run ∈ r.before) (hquery : r.query = .get run.id) :
    found = some run := by
  have hsound := (System.reachable_invariant (init_sound hfile) (step_sound hids hfew) hs).call c
  rw [hc] at hsound
  obtain ⟨store, hhas, hanswer⟩ := hsound
  rw [hquery, answer, Answer.run.injEq] at hanswer
  rw [hanswer]
  exact hhas run hrun

/-- A run with this id. -/
def runOf (id : RunId) : RunExperimentResponse :=
  { id := id, preset := .health, hardwareTarget := .simLocal, kpis := {}, createdAt := id }

/-- Process 0 adds a run, process 1 reads it and adds another, and process 0 asks for that one. -/
theorem run_found_turns : ∃ s r found, (sharing 512 none).Reachable
      (fun e s => addsFrom [runOf 1, runOf 2] e s ∧ upToDate e s = true) s ∧
    s.call 3 = .answered r (.run found) ∧ runOf 2 ∈ r.before ∧ r.query = .get 2 ∧ found = some (runOf 2) := by
  have hadds : ∀ e ∈ [Event.start 0, .start 1, .write 0 0 (runOf 1) 1, .stamp 0, .stat 1 1 (.get 1), .compare 1,
      .read 1, .install 1, .look 1, .write 2 1 (runOf 2) 2, .stamp 2, .stat 3 0 (.get 2), .compare 3, .read 3,
      .install 3, .look 3], ∀ s, addsFrom [runOf 1, runOf 2] e s := by simp [addsFrom]
  have hwalk : ((sharing 512 none).walk upToDate { file := none } [.start 0, .start 1, .write 0 0 (runOf 1) 1,
      .stamp 0, .stat 1 1 (.get 1), .compare 1, .read 1, .install 1, .look 1, .write 2 1 (runOf 2) 2, .stamp 2,
      .stat 3 0 (.get 2), .compare 3, .read 3, .install 3, .look 3]).map (fun s => s.call 3) =
      some (.answered ⟨0, .get 2, [runOf 2, runOf 1]⟩ (.run (some (runOf 2)))) := by rfl
  obtain ⟨s, hs, hcall⟩ := Option.map_eq_some_iff.mp hwalk
  have hreach : (sharing 512 none).Reachable (fun e s => addsFrom [runOf 1, runOf 2] e s ∧ upToDate e s = true) s :=
    ⟨_, rfl, System.walk_leads (fun e he s hok => ⟨hadds e he s, hok⟩) hs⟩
  have hids : ([runOf 1, runOf 2].map fun run => run.id).Nodup := by decide
  have hnone : ∀ f : File, none = some f → ∀ run ∈ f.runs, run ∈ [runOf 1, runOf 2] := fun f hf => by cases hf
  have hbefore : runOf 2 ∈ [runOf 2, runOf 1] := List.mem_cons_self
  exact ⟨s, _, _, hreach, hcall, hbefore, rfl,
    run_found hids (by decide) hnone hreach hcall hbefore rfl⟩

/-- Two processes that each add a run without a look at the file in between: the first run
is nowhere any more, and the process that added it does not find it. -/
theorem run_lost : ∃ s r, (sharing 512 none).Reachable (addsFrom [runOf 1, runOf 2]) s ∧
    s.call 0 = .added 0 (runOf 1) ∧ runOf 1 ∈ r.before ∧ r.process = 0 ∧ r.query = .get 1 ∧
    s.call 2 = .answered r (.run none) ∧ s.onDisk = [runOf 2] := by
  have hadds : ∀ e ∈ [Event.start 0, .start 1, .write 0 0 (runOf 1) 1, .stamp 0, .write 1 1 (runOf 2) 2, .stamp 1,
      .stat 2 0 (.get 1), .compare 2, .read 2, .install 2, .look 2], ∀ s, addsFrom [runOf 1, runOf 2] e s := by
    simp [addsFrom]
  have hwalk : ((sharing 512 none).walk (fun _ _ => true) { file := none } [.start 0, .start 1,
      .write 0 0 (runOf 1) 1, .stamp 0, .write 1 1 (runOf 2) 2, .stamp 1, .stat 2 0 (.get 1), .compare 2, .read 2,
      .install 2, .look 2]).map (fun s => (s.call 0, s.call 2, s.onDisk)) =
      some (.added 0 (runOf 1), .answered ⟨0, .get 1, [runOf 2, runOf 1]⟩ (.run none), [runOf 2]) := by rfl
  obtain ⟨s, hs, hseen⟩ := Option.map_eq_some_iff.mp hwalk
  obtain ⟨hadded, hanswered, hdisk⟩ : s.call 0 = .added 0 (runOf 1) ∧
      s.call 2 = .answered ⟨0, .get 1, [runOf 2, runOf 1]⟩ (.run none) ∧ s.onDisk = [runOf 2] := by
    simpa only [Prod.mk.injEq] using hseen
  exact ⟨s, _, ⟨_, rfl, System.walk_leads (fun e he s _ => hadds e he s) hs⟩, hadded,
    List.mem_cons_of_mem _ List.mem_cons_self, rfl, rfl, hanswered, hdisk⟩

end Preservation

end SynQc.SharedFile
