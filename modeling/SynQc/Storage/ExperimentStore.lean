import Mathlib.Data.List.MinMax
import Mathlib.Data.List.Perm.Subperm
import SynQc.Models

/-! The experiment store: a bounded history of runs.

Adding a run stores it under its id. Past the bound the oldest run is dropped, by
creation time and, among equals, the one that came first; that can be the run just
added. The JSON file behind a store is written after each add and read back as it was
written, so with one process at it the runs in memory are the store. -/
namespace SynQc

theorem keyed_empty (runId : RunId) (run : RunExperimentResponse)
    (h : (Dict.empty : Dict RunId RunExperimentResponse).get? runId = some run) : run.id = runId := by
  cases h

structure ExperimentStore where
  maxEntries : Nat := 512
  runs : Dict RunId RunExperimentResponse := Dict.empty
  /-- Runs are stored under their own ids. -/
  keyed : ∀ runId run, runs.get? runId = some run → run.id = runId := by
    exact keyed_empty

namespace ExperimentStore

/-- `sorted(runs.values(), key=created_at)[0].id`, on a store that is not empty. -/
def oldest (runs : Dict RunId RunExperimentResponse) : Option RunId :=
  (runs.values.argmin fun run => run.createdAt).map fun run => run.id

theorem keyed_set (s : ExperimentStore) (run : RunExperimentResponse) (runId : RunId) (found : RunExperimentResponse)
    (h : (s.runs.set run.id run).get? runId = some found) : found.id = runId := by
  rw [Dict.get?_set] at h
  split at h
  · rename_i hid
    cases h
    exact hid
  · exact s.keyed runId found h

theorem keyed_erase (s : ExperimentStore) (run : RunExperimentResponse) (id runId : RunId)
    (found : RunExperimentResponse) (h : ((s.runs.set run.id run).erase id).get? runId = some found) :
    found.id = runId := by
  rw [Dict.get?_erase] at h
  split at h
  · cases h
  · exact s.keyed_set run runId found h

def add (s : ExperimentStore) (run : RunExperimentResponse) : ExperimentStore :=
  if (s.runs.set run.id run).size > s.maxEntries then
    match oldest (s.runs.set run.id run) with
    | some id => ⟨s.maxEntries, (s.runs.set run.id run).erase id, s.keyed_erase run id⟩
    | none => ⟨s.maxEntries, s.runs.set run.id run, s.keyed_set run⟩
  else ⟨s.maxEntries, s.runs.set run.id run, s.keyed_set run⟩

def get (s : ExperimentStore) (runId : RunId) : Option RunExperimentResponse := s.runs.get? runId

/-- After an add an entry is what the add made it, or it was dropped. -/
theorem get_add (s : ExperimentStore) (run : RunExperimentResponse) (runId : RunId) :
    (s.add run).get runId = none ∨
      (s.add run).get runId = if run.id = runId then some run else s.get runId := by
  have hset : (s.runs.set run.id run).get? runId = if run.id = runId then some run else s.get runId :=
    Dict.get?_set _ _ _ _
  simp only [add]
  split
  · split
    · rename_i id _
      simp only [get, Dict.get?_erase]
      by_cases h : id = runId
      · exact .inl (if_pos h)
      · exact .inr ((if_neg h).trans hset)
    · exact .inr hset
  · exact .inr hset

/-- `self._runs[run.id] = run` -/
def put (s : ExperimentStore) (run : RunExperimentResponse) : ExperimentStore :=
  ⟨s.maxEntries, s.runs.set run.id run, s.keyed_set run⟩

/-- The runs of a file, put one after another into an empty store. -/
def load (maxEntries : Nat) (data : List RunExperimentResponse) : ExperimentStore :=
  data.foldl put { maxEntries := maxEntries }

/-- The store answers with this run for its id. -/
def Has (s : ExperimentStore) (run : RunExperimentResponse) : Prop := s.get run.id = some run

theorem get_put (s : ExperimentStore) (run : RunExperimentResponse) (runId : RunId) :
    (s.put run).get runId = if run.id = runId then some run else s.get runId := Dict.get?_set _ _ _ _

/-- Within the bound, an add drops nothing. -/
theorem add_eq_put {s : ExperimentStore} {run : RunExperimentResponse}
    (h : (s.put run).runs.size ≤ s.maxEntries) : s.add run = s.put run := by
  have hroom : ¬(s.runs.set run.id run).size > s.maxEntries := not_lt.mpr h
  simp only [add, if_neg hroom, put]

theorem mem_values {s : ExperimentStore} {run : RunExperimentResponse} : run ∈ s.runs.values ↔ s.Has run := by
  constructor
  · intro h
    obtain ⟨runId, hget⟩ := Dict.get?_of_mem_values h
    rw [← s.keyed runId run hget] at hget
    exact hget
  · intro h
    exact List.mem_map.mpr ⟨(run.id, run), Dict.mem_entries.mpr h, rfl⟩

/-! ### Stores of runs from one list

The runs of a list with distinct ids can all be in one store together. -/

section Among
variable {among : List RunExperimentResponse}

/-- Every run of the store is in the list. -/
def Within (among : List RunExperimentResponse) (s : ExperimentStore) : Prop := ∀ run, s.Has run → run ∈ among

theorem within_empty (maxEntries : Nat) : Within among { maxEntries := maxEntries } := by
  intro run h
  cases h

theorem Within.get {s : ExperimentStore} (h : s.Within among) {runId : RunId} {run : RunExperimentResponse}
    (hget : s.get runId = some run) : run ∈ among := by
  apply h
  rw [Has, s.keyed runId run hget]
  exact hget

theorem Within.put {s : ExperimentStore} (h : s.Within among) {run : RunExperimentResponse} (hrun : run ∈ among) :
    (s.put run).Within among := by
  intro other hother
  rw [Has, get_put] at hother
  split at hother
  · cases hother
    exact hrun
  · exact h other hother

/-- A store has at most the runs of the list, so it stays within a larger bound. -/
theorem Within.size_le {s : ExperimentStore} (h : s.Within among) : s.runs.size ≤ among.length := by
  have hkeys : s.runs.keys ⊆ among.map fun run => run.id := by
    intro runId hkey
    obtain ⟨run, hget⟩ := Dict.mem_keys.mp hkey
    exact List.mem_map.mpr ⟨run, h.get hget, s.keyed runId run hget⟩
  have hle := (s.runs.nodup.subperm hkeys).length_le
  rw [List.length_map, List.length_map] at hle
  exact hle

/-- Putting a run of the list takes no other run of the list away. -/
theorem Has.put (hids : (among.map fun run => run.id).Nodup) {s : ExperimentStore} {run other : RunExperimentResponse}
    (h : s.Has other) (hrun : run ∈ among) (hother : other ∈ among) : (s.put run).Has other := by
  rw [Has, get_put]
  split
  · rename_i hid
    rw [List.inj_on_of_nodup_map hids hrun hother hid]
  · exact h

theorem has_put (s : ExperimentStore) (run : RunExperimentResponse) : (s.put run).Has run := by
  rw [Has, get_put, if_pos rfl]

/-- What reading a file keeps of the store so far, and what it adds. -/
theorem foldl_put (hids : (among.map fun run => run.id).Nodup) {data : List RunExperimentResponse}
    (hdata : ∀ run ∈ data, run ∈ among) {s : ExperimentStore} (hs : s.Within among) :
    (data.foldl put s).Within among ∧ (data.foldl put s).maxEntries = s.maxEntries ∧
      ∀ run, (s.Has run ∨ run ∈ data) → (data.foldl put s).Has run := by
  induction data generalizing s with
  | nil =>
    refine ⟨hs, rfl, fun run h => ?_⟩
    rcases h with h | h
    · exact h
    · cases h
  | cons first rest ih =>
    have hfirst : first ∈ among := hdata first List.mem_cons_self
    obtain ⟨hwithin, hmax, hhas⟩ := ih (fun run h => hdata run (List.mem_cons_of_mem _ h)) (hs.put hfirst)
    refine ⟨hwithin, hmax, fun run h => hhas run ?_⟩
    rcases h with h | h
    · exact .inl (h.put hids hfirst (hs run h))
    · rcases List.mem_cons.mp h with rfl | h
      · exact .inl (has_put s run)
      · exact .inr h

theorem within_load (hids : (among.map fun run => run.id).Nodup) (maxEntries : Nat)
    {data : List RunExperimentResponse} (hdata : ∀ run ∈ data, run ∈ among) :
    (load maxEntries data).Within among := (foldl_put hids hdata (within_empty maxEntries)).1

theorem maxEntries_load (hids : (among.map fun run => run.id).Nodup) (maxEntries : Nat)
    {data : List RunExperimentResponse} (hdata : ∀ run ∈ data, run ∈ among) :
    (load maxEntries data).maxEntries = maxEntries := (foldl_put hids hdata (within_empty maxEntries)).2.1

theorem has_load (hids : (among.map fun run => run.id).Nodup) (maxEntries : Nat)
    {data : List RunExperimentResponse} (hdata : ∀ run ∈ data, run ∈ among) {run : RunExperimentResponse}
    (h : run ∈ data) : (load maxEntries data).Has run :=
  (foldl_put hids hdata (within_empty maxEntries)).2.2 run (.inr h)

end Among

/-- Room for a run of some creation time: the store is below its bound, or holds a run as old. -/
def HasRoom (s : ExperimentStore) (createdAt : Time) : Prop :=
  s.runs.size < s.maxEntries ∨ ∃ old ∈ s.runs.values, old.createdAt ≤ createdAt

/-- A new run that is the oldest in a full store goes at once. -/
theorem get_add_oldest {s : ExperimentStore} {run : RunExperimentResponse} (hnew : s.get run.id = none)
    (hfull : ¬s.runs.size < s.maxEntries) (holdest : oldest (s.runs.set run.id run) = some run.id) :
    (s.add run).get run.id ≠ some run := by
  have hsize := Dict.size_set_none hnew run
  have hover : s.runs.size + 1 > s.maxEntries := by omega
  have hgone : (s.add run).get run.id = none := by
    simp only [add, hsize, if_pos hover, holdest, get, Dict.get?_erase, if_true]
  rw [hgone]
  exact (Option.some_ne_none run).symm

/-- A new run is kept exactly when there is room for it. -/
theorem get_add_self {s : ExperimentStore} {run : RunExperimentResponse} (hnew : s.get run.id = none) :
    (s.add run).get run.id = some run ↔ s.HasRoom run.createdAt := by
  have hsize := Dict.size_set_none hnew run
  by_cases hfull : s.runs.size < s.maxEntries
  · have hkept : (s.add run).get run.id = some run := by
      simp only [add, hsize, if_neg (show ¬s.runs.size + 1 > s.maxEntries by omega), get, Dict.get?_set_self]
    exact ⟨fun _ => .inl hfull, fun _ => hkept⟩
  · -- one run goes: the first of the oldest, counting the new run last
    have hvalues := Dict.values_set_none hnew run
    have hover : s.runs.size + 1 > s.maxEntries := by omega
    cases hold : s.runs.values.argmin fun run => run.createdAt with
    | none =>
      have hempty : s.runs.values = [] := List.argmin_eq_none.mp hold
      have holdest : oldest (s.runs.set run.id run) = some run.id := by
        simp only [oldest, hvalues, List.argmin_concat, hold, Option.map_some]
      refine ⟨fun h => absurd h (get_add_oldest hnew hfull holdest), ?_⟩
      rintro (h | ⟨old, hmem, _⟩)
      · exact absurd h hfull
      · rw [hempty] at hmem
        cases hmem
    | some old =>
      have hmem : old ∈ s.runs.values := List.argmin_mem hold
      by_cases hlt : run.createdAt < old.createdAt
      · have holdest : oldest (s.runs.set run.id run) = some run.id := by
          simp only [oldest, hvalues, List.argmin_concat, hold, if_pos hlt, Option.map_some]
        refine ⟨fun h => absurd h (get_add_oldest hnew hfull holdest), ?_⟩
        rintro (h | ⟨older, holder, hle⟩)
        · exact absurd h hfull
        · have hmin : old.createdAt ≤ older.createdAt := List.le_of_mem_argmin holder hold
          exact absurd (lt_of_lt_of_le hlt (hmin.trans hle)) (lt_irrefl _)
      · have holdest : oldest (s.runs.set run.id run) = some old.id := by
          simp only [oldest, hvalues, List.argmin_concat, hold, if_neg hlt, Option.map_some]
        have hne : old.id ≠ run.id := by
          intro heq
          obtain ⟨runId, hget⟩ := Dict.get?_of_mem_values hmem
          rw [← s.keyed runId old hget, heq] at hget
          cases hget.symm.trans hnew
        have hkept : (s.add run).get run.id = some run := by
          simp only [add, hsize, if_pos hover, holdest, get, Dict.get?_erase, if_neg hne,
            Dict.get?_set_self]
        exact ⟨fun _ => .inr ⟨old, hmem, not_lt.mp hlt⟩, fun _ => hkept⟩

end ExperimentStore

end SynQc
