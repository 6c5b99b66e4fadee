import SynQc.Storage.ExperimentStore

/-! Reloading a store from its persist file.

`get` and `list_recent` read the file again when it is newer than the store last saw it.
The file may be anything by then: gone, unreadable, no JSON, or JSON whose entries are no
runs. What is read is put into the store entry by entry, after the store was cleared, so
an entry that fails leaves the entries before it and nothing else; a comment in the source
says that a failed reload keeps the cache. Validating an entry is a parameter. -/
namespace SynQc.Reload

/-- A value `json.loads` returns; a number by its text. -/
inductive Json where
  | null
  | bool (value : Bool)
  | number (text : String)
  | str (value : String)
  | array (items : List Json)
  | object (fields : List (String × Json))

/-- What `for entry in data` goes through: the items of a list, the keys of an object, the
characters of a string. Of anything else it raises. -/
def Json.items : Json → Option (List Json)
  | .str value => some (value.toList.map fun c => .str c.toString)
  | .array items => some items
  | .object fields => some (fields.map fun field => .str field.1)
  | .null | .bool _ | .number _ => none

/-- What reading the file's text and parsing it gives. -/
inductive Content where
  | unreadable
  | notJson
  | json (data : Json)

/-- What `stat()` on the path gives. -/
inductive Stat where
  | missing
  | error (message : String)
  | mtime (t : Time)

/-- The persist path at the moment of a call. -/
structure File where
  stat : Stat
  content : Content

/-- A store with its persist file. -/
structure FileStore where
  store : ExperimentStore
  persistPath : Option String
  persistMtime : Option Time := none
  lastPersistOk : Bool := true

/-- `self._persist_mtime and mtime <= self._persist_mtime` -/
def FileStore.isCurrent (s : FileStore) (mtime : Time) : Bool :=
  s.persistMtime.any fun seen => decide (seen ≠ 0 ∧ mtime ≤ seen)

section Refresh
variable (validate : Json → Option RunExperimentResponse)

/-- The loop over the entries: whether it came to its end, and the store it left. -/
def refill (store : ExperimentStore) : List Json → Bool × ExperimentStore
  | [] => (true, store)
  | entry :: rest =>
    match validate entry with
    | some run => refill (store.put run) rest
    | none => (false, store)

/-- `self._runs.clear()` -/
def clear (store : ExperimentStore) : ExperimentStore := { maxEntries := store.maxEntries }

/-- The part of `_refresh_from_disk` inside the `try` that reads the file. -/
def reload (mtime : Time) (content : Content) (s : FileStore) : FileStore :=
  match content with
  | .unreadable => {s with lastPersistOk := false}
  | .notJson => {s with lastPersistOk := false}
  | .json data =>
    match data.items with
    | none => {s with store := clear s.store, lastPersistOk := false}
    | some items =>
      match refill validate (clear s.store) items with
      | (true, store) => {s with store := store, persistMtime := some mtime, lastPersistOk := true}
      | (false, store) => {s with store := store, lastPersistOk := false}

/-- `_refresh_from_disk`. Only a missing file is caught at `stat()`, other errors leave it. -/
def refreshFromDisk (file : File) (s : FileStore) : Except String Unit × FileStore :=
  match s.persistPath with
  | none => (.ok (), s)
  | some _ =>
    match file.stat with
    | .missing => (.ok (), s)
    | .error message => (.error message, s)
    | .mtime mtime =>
      if s.isCurrent mtime then (.ok (), s)
      else (.ok (), reload validate mtime file.content s)

def get (file : File) (runId : RunId) (s : FileStore) : Except String (Option RunExperimentResponse) × FileStore :=
  match refreshFromDisk validate file s with
  | (.ok _, s') => (.ok (s'.store.get runId), s')
  | (.error message, s') => (.error message, s')

/-! ### What the file holds

The file said without the loop: its entries, if every one is a run, and the entries before
the first that is none. -/

/-- All entries of the file, or nothing where one of them fails or there is none to go through. -/
def Json.entries? (data : Json) : Option (List RunExperimentResponse) :=
  data.items.bind fun items => items.mapM validate

def goodPrefix : List Json → List RunExperimentResponse
  | [] => []
  | entry :: rest =>
    match validate entry with
    | some run => run :: goodPrefix rest
    | none => []

/-- The entries before the first that fails. -/
def Json.readable (data : Json) : List RunExperimentResponse := goodPrefix validate (data.items.getD [])

end Refresh

/-- The entry of an id, the last one winning. -/
def lastFor (runs : List RunExperimentResponse) (runId : RunId) : Option RunExperimentResponse :=
  runs.reverse.find? fun run => run.id = runId

theorem lastFor_cons (run : RunExperimentResponse) (runs : List RunExperimentResponse) (runId : RunId) :
    lastFor (run :: runs) runId = (lastFor runs runId).or (if run.id = runId then some run else none) := by
  simp only [lastFor, List.reverse_cons, List.find?_append]
  by_cases h : run.id = runId
  · simp [h]
  · simp [h]

/-- Putting runs one after another leaves the last one of each id. -/
theorem get_foldl_put (runs : List RunExperimentResponse) (s : ExperimentStore) (runId : RunId) :
    (runs.foldl ExperimentStore.put s).get runId = (lastFor runs runId).or (s.get runId) := by
  induction runs generalizing s with
  | nil => rfl
  | cons run rest ih =>
    rw [List.foldl_cons, ih, lastFor_cons, ExperimentStore.get_put, Option.or_assoc]
    by_cases h : run.id = runId
    · rw [if_pos h, if_pos h]
      rfl
    · rw [if_neg h, if_neg h]
      rfl

section Refresh
variable (validate : Json → Option RunExperimentResponse)

/-- **The loop puts the entries before the first bad one, and ends where there is none.** -/
theorem refill_eq (items : List Json) (store : ExperimentStore) :
    refill validate store items =
      ((items.mapM validate).isSome, (goodPrefix validate items).foldl ExperimentStore.put store) := by
  induction items generalizing store with
  | nil => rfl
  | cons entry rest ih =>
    cases hentry : validate entry with
    | none => simp [refill, goodPrefix, List.mapM_cons, hentry]
    | some run =>
      simp only [refill, goodPrefix, List.mapM_cons, hentry, ih, List.foldl_cons]
      cases hrest : rest.mapM validate with
      | none => simp
      | some runs => simp

/-- Where every entry is a run, all of them come before the first bad one. -/
theorem goodPrefix_eq {items : List Json} {runs : List RunExperimentResponse}
    (h : items.mapM validate = some runs) : goodPrefix validate items = runs := by
  induction items generalizing runs with
  | nil =>
    cases h
    rfl
  | cons entry rest ih =>
    cases hentry : validate entry with
    | none => simp [List.mapM_cons, hentry] at h
    | some run =>
      cases hrest : rest.mapM validate with
      | none => simp [List.mapM_cons, hentry, hrest] at h
      | some others =>
        simp only [List.mapM_cons, hentry, hrest] at h
        cases h
        simp only [goodPrefix, hentry, ih hrest]

theorem readable_eq {data : Json} {runs : List RunExperimentResponse} (h : data.entries? validate = some runs) :
    data.readable validate = runs := by
  obtain ⟨items, hitems, hruns⟩ := Option.bind_eq_some_iff.mp h
  rw [Json.readable, hitems]
  exact goodPrefix_eq validate hruns

theorem get_clear (s : ExperimentStore) (runId : RunId) : (clear s).get runId = none := rfl

/-- Reading JSON leaves what comes before the first bad entry, whatever was there. -/
theorem get_reload (mtime : Time) (data : Json) (s : FileStore) (runId : RunId) :
    (reload validate mtime (.json data) s).store.get runId = lastFor (data.readable validate) runId := by
  cases hitems : data.items with
  | none =>
    simp only [reload, Json.readable, hitems]
    rfl
  | some items =>
    have hget : ((goodPrefix validate items).foldl ExperimentStore.put (clear s.store)).get runId =
        lastFor (goodPrefix validate items) runId := by
      rw [get_foldl_put, get_clear, Option.or_none]
    simp only [reload, Json.readable, hitems, refill_eq, Option.getD_some]
    cases (items.mapM validate).isSome with
    | true => exact hget
    | false => exact hget

/-- The store itself takes the file as loaded exactly when every entry was a run. -/
theorem lastPersistOk_reload (mtime : Time) (data : Json) (s : FileStore) :
    (reload validate mtime (.json data) s).lastPersistOk = (data.entries? validate).isSome := by
  cases hitems : data.items with
  | none => simp [reload, Json.entries?, hitems]
  | some items =>
    simp only [reload, Json.entries?, hitems, refill_eq, Option.bind_some]
    cases (items.mapM validate).isSome with
    | true => rfl
    | false => rfl

/-! ### A failed reload -/

/-- The call comes to the file's text: there is a path and a file newer than the last one seen. -/
def Looks (file : File) (s : FileStore) : Prop :=
  s.persistPath.isSome = true ∧ ∃ mtime, file.stat = .mtime mtime ∧ s.isCurrent mtime = false

/-- The entries the call loads, where it loads the file completely. -/
def Loads (file : File) (s : FileStore) (runs : List RunExperimentResponse) : Prop :=
  Looks file s ∧ ∃ data, file.content = .json data ∧ data.entries? validate = some runs

/-- After a complete load the store holds the file's entries, after any other call what it held. -/
structure Atomic (file : File) (s : FileStore) : Prop where
  loaded : ∀ runs, Loads validate file s runs →
    ∀ runId, (refreshFromDisk validate file s).2.store.get runId = lastFor runs runId
  kept : (¬∃ runs, Loads validate file s runs) →
    ∀ runId, (refreshFromDisk validate file s).2.store.get runId = s.store.get runId

/-- JSON that cannot be loaded completely is never read into a store that holds anything but
what comes before its first bad entry. -/
def Undamaging (file : File) (s : FileStore) : Prop :=
  ∀ data, Looks file s → file.content = .json data → data.entries? validate = none →
    ∀ runId, s.store.get runId = lastFor (data.readable validate) runId

theorem refresh_looks {file : File} {s : FileStore} (h : Looks file s) :
    ∃ mtime, (refreshFromDisk validate file s).2 = reload validate mtime file.content s := by
  obtain ⟨hpath, mtime, hstat, hcurrent⟩ := h
  obtain ⟨path, hpath⟩ := Option.isSome_iff_exists.mp hpath
  refine ⟨mtime, ?_⟩
  simp only [refreshFromDisk, hpath, hstat, hcurrent, Bool.false_eq_true, if_false]

theorem refresh_else {file : File} {s : FileStore} (h : ¬Looks file s) : (refreshFromDisk validate file s).2 = s := by
  cases hpath : s.persistPath with
  | none => simp only [refreshFromDisk, hpath]
  | some path =>
    cases hstat : file.stat with
    | missing => simp only [refreshFromDisk, hpath, hstat]
    | error message => simp only [refreshFromDisk, hpath, hstat]
    | mtime mtime =>
      cases hcurrent : s.isCurrent mtime with
      | true => simp only [refreshFromDisk, hpath, hstat, hcurrent, if_true]
      | false =>
        have hlooks : Looks file s := ⟨by rw [hpath]; rfl, mtime, hstat, hcurrent⟩
        exact absurd hlooks h

theorem get_refresh_json {file : File} {s : FileStore} {data : Json} (h : Looks file s)
    (hcontent : file.content = .json data) (runId : RunId) :
    (refreshFromDisk validate file s).2.store.get runId = lastFor (data.readable validate) runId := by
  obtain ⟨mtime, hrefresh⟩ := refresh_looks validate h
  rw [hrefresh, hcontent]
  exact get_reload validate mtime data s runId

/-- **A reload is all or nothing exactly when bad JSON never meets a store it would change.** -/
theorem atomic_iff_undamaging (file : File) (s : FileStore) : Atomic validate file s ↔ Undamaging validate file s := by
  constructor
  · intro hatomic data hlooks hcontent hentries runId
    have hnone : ¬∃ runs, Loads validate file s runs := by
      rintro ⟨runs, _, data', hcontent', hruns⟩
      cases hcontent.symm.trans hcontent'
      rw [hentries] at hruns
      cases hruns
    rw [← hatomic.kept hnone runId]
    exact get_refresh_json validate hlooks hcontent runId
  · intro hgood
    refine ⟨?_, ?_⟩
    · rintro runs ⟨hlooks, data, hcontent, hentries⟩ runId
      rw [get_refresh_json validate hlooks hcontent, readable_eq validate hentries]
    · intro hnone runId
      by_cases hlooks : Looks file s
      · cases hcontent : file.content with
        | unreadable =>
          obtain ⟨mtime, hrefresh⟩ := refresh_looks validate hlooks
          rw [hrefresh, hcontent]
          rfl
        | notJson =>
          obtain ⟨mtime, hrefresh⟩ := refresh_looks validate hlooks
          rw [hrefresh, hcontent]
          rfl
        | json data =>
          cases hentries : data.entries? validate with
          | some runs => exact absurd ⟨runs, hlooks, data, hcontent, hentries⟩ hnone
          | none =>
            rw [get_refresh_json validate hlooks hcontent]
            exact (hgood data hlooks hcontent hentries runId).symm
      · rw [refresh_else validate hlooks]

/-- After a complete load the next call with the same file does not read it again. -/
theorem refresh_loads {file : File} {s : FileStore} {runs : List RunExperimentResponse} {mtime : Time}
    (h : Loads validate file s runs) (hstat : file.stat = .mtime mtime) (hne : mtime ≠ 0) :
    ¬Looks file (refreshFromDisk validate file s).2 := by
  obtain ⟨⟨hpath, seen, hseen, hcurrent⟩, data, hcontent, hentries⟩ := h
  obtain ⟨path, hpath⟩ := Option.isSome_iff_exists.mp hpath
  obtain ⟨items, hitems, hruns⟩ := Option.bind_eq_some_iff.mp hentries
  cases hstat.symm.trans hseen
  have hafter : (refreshFromDisk validate file s).2.persistMtime = some mtime := by
    simp only [refreshFromDisk, hpath, hseen, hcurrent, Bool.false_eq_true, if_false, reload, hcontent, hitems,
      refill_eq, hruns, Option.isSome_some]
  rintro ⟨_, again, hagain, hnot⟩
  cases hstat.symm.trans hagain
  simp [FileStore.isCurrent, hafter, hne] at hnot

end Refresh

/-! ### A store that a bad entry empties -/

def storedRun (id : RunId) : RunExperimentResponse :=
  { id := id, preset := .health, hardwareTarget := .simLocal, kpis := {}, createdAt := id }

/-- The two objects that are runs here. -/
def validateId : Json → Option RunExperimentResponse
  | .object [("id", .number "1")] => some (storedRun 1)
  | .object [("id", .number "2")] => some (storedRun 2)
  | _ => none

/-- A store of two runs that has not yet seen the file. -/
def twoRuns : FileStore :=
  { store := (ExperimentStore.put {} (storedRun 1)).put (storedRun 2), persistPath := some "runs.json" }

/-- The second of the file's three entries is no object. -/
def badSecond : File :=
  { stat := .mtime 10
    content := .json (.array [.object [("id", .number "1")], .null, .object [("id", .number "2")]]) }

/-- Run 2 was in the store and is in the file, and is gone after the reload. -/
theorem bad_entry_loses_runs :
    ¬∀ (validate : Json → Option RunExperimentResponse) (file : File) (s : FileStore), Atomic validate file s := by
  intro hclaim
  have hnone : ¬∃ runs, Loads validateId badSecond twoRuns runs := by
    rintro ⟨runs, _, data, hcontent, hentries⟩
    cases hcontent
    have hbad : (Json.entries? validateId (.array [.object [("id", .number "1")], .null,
        .object [("id", .number "2")]])).isSome = false := by decide +kernel
    rw [hentries] at hbad
    cases hbad
  have hbefore : (twoRuns.store.get 2).isSome = true := by decide +kernel
  have hafter : ((refreshFromDisk validateId badSecond twoRuns).2.store.get 2).isSome = false := by decide +kernel
  rw [(hclaim validateId badSecond twoRuns).kept hnone 2, hbefore] at hafter
  cases hafter

end SynQc.Reload
