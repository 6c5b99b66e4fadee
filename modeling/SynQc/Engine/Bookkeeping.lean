import SynQc.Engine.Multicall
import SynQc.Engine.Qiskit

/-! Shot bookkeeping: the counts of a run against the shots it says it used.

A run states its shots three times, and all three are the corrected `shots_used`. The
correction only raises it: where a backend reports more shots than its counts add up to,
the counts stay behind. The simulations never do. A live reply may, and the Qiskit client's
does as soon as a Grover run takes two batches; a workflow's counts are two halves of the
budget, rounded down. -/
namespace SynQc.Engine

/-- The counts add up to the shots, in all places that state them. -/
structure Consistent (run : RunExperimentResponse) (counts : Counts) : Prop where
  used : counts.sum = run.kpis.shotsUsed
  executed : (run.shots.bind fun shots => shots.executed) = some run.kpis.shotsUsed
  contract : (run.sampling.map fun sampling => sampling.shotsExecuted) = some run.kpis.shotsUsed

/-- The backend that is asked reports no more shots than its counts add up to. Only an Aer
run and a live reply that is used can. -/
def World.Covers (s : Settings) (w : World) (target : HardwareTarget) (preset : ExperimentPreset)
    (shotBudget : Int) : Prop :=
  match target with
  | .simLocal => preset = .groverDemo → ∀ r,
      energyAwareSearch w.runGrover ["10101", "01010"] (65 / 100)
        (min shotBudget s.maxShotsPerExperiment).toNat = .ok r → r.1 ≤ r.2.1.sum
  | _ => ∀ client result kpis, w.live = some client → client preset shotBudget = .ok result →
      ProviderBackend.runLive w client preset shotBudget = .ok kpis → result.reported ≤ result.rawCounts.sum

/-! ### Backends -/

section Backends
variable {s : Settings} {w : World} {target : HardwareTarget} {preset : ExperimentPreset} {shotBudget : Int}
  {kpis : KpiBundle} {counts : Counts}

theorem LocalSimulator.reported_iff (h : LocalSimulator.runExperiment s w preset shotBudget = .ok kpis)
    (hcounts : kpis.rawCounts = some counts) :
    kpis.shotsUsed ≤ counts.sum ↔ w.Covers s .simLocal preset shotBudget := by
  unfold LocalSimulator.runExperiment at h
  split at h
  · rename_i hgrover
    unfold LocalSimulator.runGroverPreset at h
    simp only at h
    split at h
    · cases h
    · cases h
    · rename_i shotsUsed last success hsearch
      split at h
      · cases h
      · cases h
        cases hcounts
        constructor
        · intro hle _ r hr
          rw [hsearch] at hr
          cases hr
          exact hle
        · intro hall
          exact hall hgrover _ hsearch
  · rename_i hother
    simp only at h
    split at h
    · cases h
    · cases h
      cases hcounts
      exact ⟨fun _ hgrover => absurd hgrover hother, fun _ => le_refl _⟩

/-- A simulation reports what it counts. -/
theorem ProviderBackend.simulate_reported (h : ProviderBackend.simulate s w preset shotBudget = .ok kpis)
    (hcounts : kpis.rawCounts = some counts) : kpis.shotsUsed ≤ counts.sum := by
  unfold ProviderBackend.simulate at h
  simp only at h
  split at h
  · cases h
  · cases h
    cases hcounts
    exact le_refl _

theorem ProviderBackend.runLive_reported {client : LiveClient}
    (h : ProviderBackend.runLive w client preset shotBudget = .ok kpis) :
    ∃ result, client preset shotBudget = .ok result ∧ kpis.rawCounts = some result.rawCounts ∧
      kpis.shotsUsed = result.reported := by
  unfold ProviderBackend.runLive at h
  split at h
  · cases h
  · cases h
  · rename_i result hresult
    split at h
    · cases h
    · split at h
      · cases h
      · cases h
        exact ⟨result, hresult, rfl, rfl⟩

theorem World.covers_live (htarget : target ≠ .simLocal) :
    w.Covers s target preset shotBudget ↔ ∀ client result kpis, w.live = some client →
      client preset shotBudget = .ok result → ProviderBackend.runLive w client preset shotBudget = .ok kpis →
      result.reported ≤ result.rawCounts.sum := by
  cases target with
  | simLocal => exact absurd rfl htarget
  | _ => exact Iff.rfl

theorem ProviderBackend.reported_iff (htarget : target ≠ .simLocal)
    (h : ProviderBackend.runExperiment s w preset shotBudget = .ok kpis) (hcounts : kpis.rawCounts = some counts) :
    kpis.shotsUsed ≤ counts.sum ↔ w.Covers s target preset shotBudget := by
  rw [World.covers_live htarget]
  unfold ProviderBackend.runExperiment at h
  split at h
  · rename_i client hlive
    split at h
    · rename_i answered hrun
      cases h
      obtain ⟨result, hresult, hraw, hreported⟩ := ProviderBackend.runLive_reported hrun
      rw [hraw, Option.some.injEq] at hcounts
      rw [hreported, ← hcounts]
      constructor
      · intro hle client' result' kpis' hlive' hresult' _
        rw [hlive, Option.some.injEq] at hlive'
        rw [← hlive', hresult] at hresult'
        cases hresult'
        exact hle
      · intro hall
        exact hall client result kpis hlive hresult hrun
    · rename_i exc hrun
      -- the live reply is dropped
      split at h
      · refine ⟨fun _ client' result' kpis' hlive' _ hrun' => ?_,
          fun _ => ProviderBackend.simulate_reported h hcounts⟩
        rw [hlive, Option.some.injEq] at hlive'
        rw [← hlive', hrun] at hrun'
        cases hrun'
      · split at h <;> cases h
  · rename_i hlive
    split at h
    · refine ⟨fun _ client' result' kpis' hlive' _ _ => ?_,
        fun _ => ProviderBackend.simulate_reported h hcounts⟩
      rw [hlive] at hlive'
      cases hlive'
    · cases h

/-- Every backend reports within its counts just when what it asks does. -/
theorem Providers.reported_iff (h : Providers.runExperiment s w target preset shotBudget = .ok kpis)
    (hcounts : kpis.rawCounts = some counts) :
    kpis.shotsUsed ≤ counts.sum ↔ w.Covers s target preset shotBudget := by
  unfold Providers.runExperiment at h
  split at h
  · cases h
  · split at h
    · cases h
    · split at h
      · rename_i hrun
        cases h
        unfold Providers.runBackend at hrun
        split at hrun
        · exact LocalSimulator.reported_iff hrun hcounts
        · rename_i htarget
          exact ProviderBackend.reported_iff htarget hrun hcounts
      · cases h
      · cases h

end Backends

/-! ### Runs -/

section Runs
variable {s : Settings} {i : RunInputs} {req : RunExperimentRequest} {runId : Option RunId}
  {run : RunExperimentResponse} {counts : Counts}

/-- A run states its shots in three places, and none of them is negative. -/
theorem execute_shots {effective : Int × Bool} (h : execute s i req runId effective = .ok run) :
    (run.shots.bind fun shots => shots.executed) = some run.kpis.shotsUsed ∧
      (run.sampling.map fun sampling => sampling.shotsExecuted) = some run.kpis.shotsUsed ∧
      0 ≤ run.kpis.shotsUsed := by
  unfold execute at h
  simp only at h
  split at h
  · cases h
  · split at h
    · cases h
    · rename_i sampling hsampling
      cases h
      have hbounds := SamplingSpec.build_bounds hsampling
      rw [SamplingSpec.build_ok hbounds.1 hbounds.2] at hsampling
      cases hsampling
      exact ⟨rfl, rfl, hbounds.2⟩

theorem finalKpis_rawCounts (i : RunInputs) (controls : ControlProfile) (effective : Int × Bool) (kpis : KpiBundle) :
    (finalKpis i controls effective kpis).rawCounts = kpis.rawCounts := by
  unfold finalKpis warn
  split <;> rfl

/-- The correction makes the shots the counts, unless they are more. -/
theorem correctedShots_eq_sum {used : Int} (hnonneg : 0 ≤ correctedShots used (some counts)) :
    counts.sum = correctedShots used (some counts) ↔ used ≤ counts.sum := by
  unfold correctedShots at hnonneg ⊢
  simp only at hnonneg ⊢
  split at hnonneg
  · rename_i hraised
    rw [if_pos hraised]
    exact ⟨fun _ => by omega, fun _ => rfl⟩
  · rename_i hkept
    rw [if_neg hkept]
    omega

theorem runExperiment_consistent (h : runExperiment s i req runId = .ok run)
    (hcounts : run.kpis.rawCounts = some counts) :
    Consistent run counts ↔ i.world.Covers s req.hardwareTarget req.preset (effectiveShots s req) := by
  obtain ⟨effective, heffective, hrun⟩ := runExperiment_ok h
  obtain ⟨hexecuted, hcontract, hnonneg⟩ := execute_shots hrun
  obtain ⟨provided, controls, hprovided, hkpis, _⟩ := execute_ok hrun
  have hraw : provided.rawCounts = some counts := by
    rw [hkpis, finalKpis_rawCounts] at hcounts
    exact hcounts
  have hused : run.kpis.shotsUsed = correctedShots provided.shotsUsed (some counts) := by
    rw [hkpis, finalKpis_shotsUsed, hraw]
  rw [applyShotGuardrails_ok heffective] at hprovided
  rw [← Providers.reported_iff hprovided hraw, ← correctedShots_eq_sum (hused ▸ hnonneg)]
  constructor
  · intro hconsistent
    rw [← hused]
    exact hconsistent.used
  · intro hequal
    exact ⟨hequal.trans hused.symm, hexecuted, hcontract⟩

end Runs

namespace Multicall
variable {s : Settings} {clock : Clock} {experimentId : RunId} {req : RunExperimentRequest}
  {run : RunExperimentResponse} {counts : Counts}

/-- Two halves make the budget just when it is even. -/
theorem runMulticallAgent_consistent (h : runMulticallAgent s clock experimentId req = .ok run)
    (hcounts : run.kpis.rawCounts = some counts) : Consistent run counts ↔ 2 ∣ requestedShots s req := by
  unfold runMulticallAgent at h
  split at h
  · cases h
  · simp only at h
    split at h
    · cases h
    · rename_i sampling hsampling
      cases h
      cases hcounts
      have hbounds := SamplingSpec.build_bounds hsampling
      rw [SamplingSpec.build_ok hbounds.1 hbounds.2] at hsampling
      cases hsampling
      have hsum : Counts.sum ((Dict.empty.set "00" (requestedShots s req / 2)).set "11" (requestedShots s req / 2)) =
          requestedShots s req / 2 + (requestedShots s req / 2 + 0) := rfl
      constructor
      · intro hconsistent
        have hused : _ = requestedShots s req := hconsistent.used
        rw [hsum] at hused
        omega
      · intro heven
        refine ⟨?_, rfl, rfl⟩
        show _ = requestedShots s req
        rw [hsum]
        omega

end Multicall

/-- What the Qiskit client means for the run: a Grover reply that is used came in one batch. -/
theorem Qiskit.covers_iff {q : Qiskit} (hq : q.Faithful) {s : Settings} {w : World} (hlive : w.live = some q.client)
    {target : HardwareTarget} (htarget : target ≠ .simLocal) {preset : ExperimentPreset} {shotBudget : Int} :
    w.Covers s target preset shotBudget ↔
      ∀ kpis, ProviderBackend.runLive w q.client preset shotBudget = .ok kpis →
        preset = .groverDemo → q.OneBatch (max 1 shotBudget).toNat := by
  rw [World.covers_live htarget]
  constructor
  · intro hall kpis hrun
    obtain ⟨result, hresult, _⟩ := ProviderBackend.runLive_reported hrun
    exact (client_counted hq hresult).mp (hall q.client result kpis hlive hresult hrun)
  · intro hall client result kpis hlive' hresult hrun
    rw [hlive, Option.some.injEq] at hlive'
    subst hlive'
    exact (client_counted hq hresult).mpr (hall kpis hrun)

/-- **The counts of a run add up to its shots**, in all three places, exactly when what its
backend reports is covered by its counts; for a workflow, when the budget is even; and for
the Qiskit client, when a Grover run took one batch. -/
theorem shots_consistent (s : Settings) :
    (∀ i req runId run counts, runExperiment s i req runId = .ok run → run.kpis.rawCounts = some counts →
      (Consistent run counts ↔ i.world.Covers s req.hardwareTarget req.preset (effectiveShots s req))) ∧
    (∀ clock experimentId req run counts, Multicall.runMulticallAgent s clock experimentId req = .ok run →
      run.kpis.rawCounts = some counts → (Consistent run counts ↔ 2 ∣ requestedShots s req)) ∧
    (∀ (q : Qiskit) i req runId run counts, q.Faithful → i.world.live = some q.client →
      req.hardwareTarget ≠ .simLocal → runExperiment s i req runId = .ok run → run.kpis.rawCounts = some counts →
      (Consistent run counts ↔
        ∀ kpis, ProviderBackend.runLive i.world q.client req.preset (effectiveShots s req) = .ok kpis →
          req.preset = .groverDemo → q.OneBatch (max 1 (effectiveShots s req)).toNat)) := by
  refine ⟨fun _ _ _ _ _ h hcounts => runExperiment_consistent h hcounts,
    fun _ _ _ _ _ h hcounts => Multicall.runMulticallAgent_consistent h hcounts, ?_⟩
  intro q i req runId run counts hq hlive htarget h hcounts
  rw [← Qiskit.covers_iff hq hlive htarget]
  exact runExperiment_consistent h hcounts

/-- A backend that never measures the marked state. -/
def Qiskit.silent : Qiskit where
  execute _ _ shots := .ok (Dict.empty.set "00" (shots : Int))

/-- What a run's counts add up to, and the shots it says it used. -/
def shotsOf (outcome : Except Exc RunExperimentResponse) : Option (Int × Int) :=
  match outcome with
  | .ok run => run.kpis.rawCounts.map fun counts => (counts.sum, run.kpis.shotsUsed)
  | .error _ => none

/-- A workflow of three shots counts two of them; a Grover run of two batches counts the
second. -/
theorem shots_left_over :
    shotsOf (Multicall.runMulticallAgent {} ⟨0, fun _ => 1, 2⟩ 1
      { preset := .multicallDualClocking, hardwareTarget := .simLocal, shotBudget := some 3 }) = some (2, 3) ∧
    shotsOf (runExperiment {} (plainInputs (some Qiskit.silent.client))
      { preset := .groverDemo, hardwareTarget := .ibmQuantum, shotBudget := some 128 }) = some (64, 128) := by
  constructor
  · decide +kernel
  · decide +kernel

end SynQc.Engine
