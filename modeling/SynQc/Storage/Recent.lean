import SynQc.Library.Newest
import SynQc.Storage.ExperimentStore

/-! The newest runs.

A store without a file keeps the newest of all runs added to it, in whatever order their
creation times come, and lists the newest of those (`newest_listed`). Runs have distinct
ids; a run that replaces another of its id is not counted among the dropped. -/
namespace SynQc

structure ExperimentSummary where
  id : RunId
  preset : ExperimentPreset
  hardwareTarget : HardwareTarget
  kpis : KpiBundle
  createdAt : Time
  shots : Option ShotUsage := none
  qubitsUsed : Int := 0
  controlProfile : Option ControlProfile := none
  errorCode : Option ErrorCode := none
  errorMessage : Option String := none
  errorDetail : Option Detail := none
  actionHint : Option String := none

def RunExperimentResponse.summary (r : RunExperimentResponse) : ExperimentSummary where
  id := r.id
  preset := r.preset
  hardwareTarget := r.hardwareTarget
  kpis := r.kpis
  createdAt := r.createdAt
  shots := r.shots
  qubitsUsed := r.qubitsUsed
  controlProfile := r.controlProfile
  errorCode := r.errorCode
  errorMessage := r.errorMessage
  errorDetail := r.errorDetail
  actionHint := r.actionHint

/-- `xs[:limit]` -/
def sliceTo {α : Type} (limit : Int) (xs : List α) : List α :=
  if 0 ≤ limit then xs.take limit.toNat else xs.take (xs.length - limit.natAbs)

namespace ExperimentStore

/-- The runs that `list_recent` lists, the newest first. -/
def recent (s : ExperimentStore) (limit : Int) : List RunExperimentResponse :=
  sliceTo limit (newestFirst (fun r => r.createdAt) s.runs.values)

def listRecent (s : ExperimentStore) (limit : Int := 50) : List ExperimentSummary :=
  (s.recent limit).map RunExperimentResponse.summary

/-! ### What is kept -/

theorem maxEntries_add (s : ExperimentStore) (run : RunExperimentResponse) : (s.add run).maxEntries = s.maxEntries := by
  rw [add]
  split
  · split <;> rfl
  · rfl

theorem maxEntries_adds (s : ExperimentStore) (runs : List RunExperimentResponse) :
    (runs.foldl add s).maxEntries = s.maxEntries := by
  induction runs generalizing s with
  | nil => rfl
  | cons run rest ih => rw [List.foldl_cons, ih, maxEntries_add]

/-- An add of a run with a new id keeps the newest. -/
theorem newest_add {s : ExperimentStore} {added : List RunExperimentResponse} {run : RunExperimentResponse}
    (h : Newest (fun r => r.createdAt) s.maxEntries added s.runs.values) (hnew : s.get run.id = none) :
    Newest (fun r => r.createdAt) s.maxEntries (added ++ [run]) (s.add run).runs.values := by
  have hvalues : (s.runs.set run.id run).values = s.runs.values ++ [run] := Dict.values_set_none hnew run
  have hsize : (s.runs.set run.id run).size = s.runs.size + 1 := Dict.size_set_none hnew run
  have hlength : s.runs.values.length = s.runs.size := List.length_map _
  by_cases hroom : s.runs.values.length < s.maxEntries
  · have hadd : (s.add run).runs.values = s.runs.values ++ [run] := by
      rw [add, if_neg (by omega)]
      exact hvalues
    rw [hadd]
    exact h.keep hroom
  · obtain ⟨old, hold⟩ : ∃ old, (s.runs.set run.id run).values.argmin (fun r => r.createdAt) = some old := by
      rw [← Option.ne_none_iff_exists', ne_eq, List.argmin_eq_none, hvalues]
      simp
    obtain ⟨runId, hget⟩ := Dict.get?_of_mem_values (List.argmin_mem hold)
    obtain rfl := s.keyed_set run runId old hget
    have holdest : oldest (s.runs.set run.id run) = some old.id := by rw [oldest, hold, Option.map_some]
    have hadd : (s.add run).runs.values = ((s.runs.set run.id run).erase old.id).values := by
      simp only [add, if_pos (show (s.runs.set run.id run).size > s.maxEntries by omega), holdest]
    have hleast : ∀ r ∈ s.runs.values ++ [run], old.createdAt ≤ r.createdAt := by
      intro r hr
      rw [← hvalues] at hr
      exact List.le_of_mem_argmin hr hold
    have hperm := Dict.values_erase_perm hget
    rw [hvalues] at hperm
    rw [hadd]
    exact h.drop hroom hleast hperm

theorem get_new {s : ExperimentStore} {added : List RunExperimentResponse} {bound : Nat} {run : RunExperimentResponse}
    (h : Newest (fun r => r.createdAt) bound added s.runs.values) (hdistinct : ∀ r ∈ added, r.id ≠ run.id) :
    s.get run.id = none := by
  cases hget : s.get run.id with
  | none => rfl
  | some old =>
    have hid := s.keyed run.id old hget
    have hhas : s.Has old := by rwa [Has, hid]
    exact absurd hid (hdistinct old (h.mem_added (mem_values.mpr hhas)))

/-- Adding runs with distinct ids keeps the newest. -/
theorem newest_adds (s : ExperimentStore) (hempty : s.runs = Dict.empty) {added : List RunExperimentResponse}
    (hids : (added.map fun r => r.id).Nodup) :
    Newest (fun r => r.createdAt) s.maxEntries added (added.foldl add s).runs.values := by
  induction added using List.reverseRecOn with
  | nil =>
    show Newest _ _ _ s.runs.values
    rw [hempty]
    exact .nil _ _
  | append_singleton added run ih =>
    rw [List.map_append, List.nodup_append] at hids
    obtain ⟨hids, -, hdistinct⟩ := hids
    have hnewest := ih hids
    have hnew : (added.foldl add s).get run.id = none :=
      get_new hnewest fun r hr => hdistinct r.id (List.mem_map_of_mem hr) run.id (by simp)
    rw [← maxEntries_adds s added] at hnewest ⊢
    rw [List.foldl_append, List.foldl_cons, List.foldl_nil]
    exact newest_add hnewest hnew

/-- **A store keeps as many of the runs added to it as it may, none of those it dropped is newer
than one it keeps, and a listing has the newest of those, the newest first.** -/
theorem newest_listed (maxEntries : Nat) {added : List RunExperimentResponse} (hids : (added.map fun r => r.id).Nodup) :
    let s := added.foldl add { maxEntries := maxEntries }
    s.runs.size = min maxEntries added.length ∧
      (∀ run, s.Has run → run ∈ added) ∧
      (∀ dropped ∈ added, ¬s.Has dropped → ∀ run, s.Has run → dropped.createdAt ≤ run.createdAt) ∧
      ∀ limit : Int, 0 < limit → ∃ listed : List RunExperimentResponse,
        s.listRecent limit = listed.map RunExperimentResponse.summary ∧ listed.Nodup ∧ (∀ run ∈ listed, s.Has run) ∧
          (listed.length : Int) = min limit s.runs.size ∧ (listed.Pairwise fun a b => b.createdAt ≤ a.createdAt) ∧
          ∀ run ∈ listed, ∀ unlisted, s.Has unlisted → unlisted ∉ listed → unlisted.createdAt ≤ run.createdAt := by
  intro s
  have hnewest : Newest (fun r => r.createdAt) maxEntries added s.runs.values :=
    newest_adds { maxEntries := maxEntries } rfl hids
  have hperm : (newestFirst (fun r => r.createdAt) s.runs.values).Perm s.runs.values := newestFirst_perm _ _
  have hsize : s.runs.values.length = s.runs.size := List.length_map _
  refine ⟨?_, fun run hrun => hnewest.mem_added (mem_values.mpr hrun), ?_, fun limit hlimit => ?_⟩
  · rw [← hsize]
    exact hnewest.length
  · exact fun dropped hadded hgone run hrun =>
      hnewest.le_of_dropped hadded (fun hmem => hgone (mem_values.mp hmem)) (mem_values.mpr hrun)
  · have hrecent : s.recent limit = (newestFirst (fun r => r.createdAt) s.runs.values).take limit.toNat :=
      if_pos (by omega)
    refine ⟨s.recent limit, rfl, ?_, ?_, ?_, ?_, ?_⟩
    · rw [hrecent]
      exact (hperm.nodup_iff.mpr (hnewest.nodup hids.of_map)).sublist (List.take_sublist _ _)
    · intro run hrun
      rw [hrecent] at hrun
      exact mem_values.mp (hperm.mem_iff.mp (List.mem_of_mem_take hrun))
    · rw [hrecent, List.length_take, hperm.length_eq, hsize]
      omega
    · rw [hrecent]
      exact (newestFirst_pairwise _ _).sublist (List.take_sublist _ _)
    · intro run hrun unlisted hhas hunlisted
      rw [hrecent] at hrun hunlisted
      exact newestFirst_take _ _ _ hrun (mem_values.mpr hhas) hunlisted

def runAt (id : RunId) (createdAt : Time) : RunExperimentResponse :=
  { id := id, preset := .latency, hardwareTarget := .simLocal, kpis := {}, createdAt := createdAt }

theorem newest_listed_three :
    let s := [runAt 1 5, runAt 2 9, runAt 3 7].foldl add { maxEntries := 2 }
    s.runs.size = 2 ∧ ∀ dropped ∈ [runAt 1 5, runAt 2 9, runAt 3 7], ¬s.Has dropped →
      ∀ run, s.Has run → dropped.createdAt ≤ run.createdAt := by
  intro s
  have hids : ([runAt 1 5, runAt 2 9, runAt 3 7].map fun r => r.id).Nodup := by decide
  exact ⟨(newest_listed 2 hids).1, (newest_listed 2 hids).2.2.1⟩

end ExperimentStore

end SynQc
