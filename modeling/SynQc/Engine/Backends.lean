import Mathlib.Algebra.Field.Rat
import Mathlib.Tactic.Linarith
import SynQc.Library.Double
import SynQc.Models

/-! Backends: from a preset and a shot budget to KPIs.

Two backends are registered: the local simulator, and one shell for all providers, which
asks its live client first and falls back to a simulation where the deployment allows
one. What a run takes from outside the program (draws, KPI estimates, Aer runs, the reply
of a live client) is a `World`.

A backend is meant to obey its budget. The simulations do, since `rng.choices` returns as
many draws as asked for (`sampleCounts_sum`), and the Grover search does as far as Aer
does. A live client is believed whatever it reports; `World.Obeys` says what it would have
to report. -/
namespace SynQc.Engine
open Binary64

/-! ### Counts -/

/-- `counts[o] += 1` -/
def bump (c : Counts) (o : String) : Counts := c.set o ((c.get? o).getD 0 + 1)

/-- `{o: 0 for o in outcomes}` -/
def zeros (outcomes : List String) : Counts := outcomes.foldl (fun c o => c.set o 0) Dict.empty

/-- `rng.choices(outcomes, k=shots)` with the draws tallied; `pick` is the generator. -/
def sampleCounts (outcomes : List String) (shots : Int) (pick : Nat → Nat) : Counts :=
  (List.range shots.toNat).foldl
    (fun c i => bump c (outcomes.getD (pick i % outcomes.length) "")) (zeros outcomes)

theorem bump_sum (c : Counts) (o : String) : (bump c o).sum = c.sum + 1 := by
  unfold Counts.sum bump
  cases h : c.get? o with
  | none =>
    rw [Dict.total_set_none h]
    rfl
  | some n =>
    have hset := Dict.total_set_some h (fun _ v => v) (n + 1)
    simp only [Option.getD_some] at hset ⊢
    omega

theorem bumps_sum (f : Nat → String) (n : Nat) (c : Counts) :
    ((List.range n).foldl (fun c i => bump c (f i)) c).sum = c.sum + n := by
  induction n with
  | zero => simp
  | succ n ih =>
    rw [List.range_succ, List.foldl_append, List.foldl_cons, List.foldl_nil, bump_sum, ih]
    push_cast
    omega

theorem zeros_sum (outcomes : List String) : (zeros outcomes).sum = 0 := by
  suffices h : ∀ c : Counts, (∀ o n, c.get? o = some n → n = 0) → c.sum = 0 →
      Counts.sum (outcomes.foldl (fun c o => c.set o 0) c) = 0 by
    refine h _ (fun o n h => ?_) rfl
    rw [Dict.get?_empty] at h
    cases h
  induction outcomes with
  | nil => exact fun _ _ hsum => hsum
  | cons o rest ih =>
    intro c hzero hsum
    refine ih _ (fun o' n h => ?_) ?_
    · rw [Dict.get?_set] at h
      split at h
      · cases h
        rfl
      · exact hzero _ _ h
    · unfold Counts.sum at hsum ⊢
      have hset := c.total_set o (fun _ v => v) 0
      cases h : c.get? o with
      | none => simpa [h, hsum] using hset
      | some n => simpa [h, hsum, hzero o n h] using hset

/-- A simulation measures exactly the shots it was asked for. -/
theorem sampleCounts_sum (outcomes : List String) (shots : Int) (pick : Nat → Nat) :
    (sampleCounts outcomes shots pick).sum = shots.toNat := by
  unfold sampleCounts
  rw [bumps_sum, zeros_sum, Int.zero_add]

/-! ### The world -/

structure ProviderLiveResult where
  rawCounts : Counts
  expectedDistribution : Option (Dict String ℚ) := none
  fidelity : Option ℚ := none
  latencyUs : Option ℚ := none
  backaction : Option ℚ := none
  shotsUsed : Option Int := none

/-- A client of the provider's SDK. -/
abbrev LiveClient := ExperimentPreset → Int → Except Exc ProviderLiveResult

/-- What `run_grover` raises: `GroverDependencyError`, or whatever Qiskit does. -/
inductive GroverExc where
  | dependency (message : String)
  | other (exc : Exc)

/-- What one backend call takes from outside. -/
structure World where
  /-- The draws of `rng.choices`. -/
  pick : Nat → Nat
  /-- `fidelity_dist_from_counts` against the expected distribution. -/
  fidelityOf : Counts → Except Exc ℚ
  latencyUs : ℚ
  backaction : ℚ
  /-- An Aer run of the Grover circuit with a number of shots. -/
  runGrover : Nat → Except GroverExc Counts
  live : Option LiveClient := none

/-- `result.shots_used or sum(raw_counts.values())` -/
def ProviderLiveResult.reported (r : ProviderLiveResult) : Int :=
  match r.shotsUsed with
  | some n => if n = 0 then r.rawCounts.sum else n
  | none => r.rawCounts.sum

/-- The world stays within the budget: a live reply reports and counts no more shots than
it was given, and an Aer run counts no more than it was asked for. -/
structure World.Obeys (w : World) (preset : ExperimentPreset) (shotBudget : Int) : Prop where
  live : ∀ client r, w.live = some client → client preset shotBudget = .ok r →
    r.reported ≤ shotBudget ∧ r.rawCounts.sum ≤ shotBudget
  grover : ∀ shots counts, w.runGrover shots = .ok counts → counts.sum ≤ shots

/-! ### The local simulator -/

def jointOutcomes : List String := (List.range 32).map fun i =>
  String.ofList ((List.range 5).map fun b => if i / 2 ^ (4 - b) % 2 = 1 then '1' else '0')

/-- The outcomes of `_expected_distribution`, in order. -/
def expectedOutcomes : ExperimentPreset → List String
  | .groverDemo => ["10101", "01010"] ++ jointOutcomes.filter fun s => s ≠ "10101" ∧ s ≠ "01010"
  | .latency | .backendCompare | .helloQuantumSim => ["00", "01", "10", "11"]
  | _ => ["00", "11", "01", "10"]

/-- `try: … except ValueError: None` around the fidelity estimate. -/
def estimateFidelity (w : World) (counts : Counts) : Except Exc (Option ℚ) :=
  match w.fidelityOf counts with
  | .ok f => .ok (some f)
  | .error (.valueError _) => .ok none
  | .error exc => .error exc

def statusOf (fidelity : Option ℚ) : ExperimentStatus :=
  match fidelity with
  | some f => if f < double (9 / 10) then .fail else if f < double (94 / 100) then .warn else .ok
  | none => .ok

def successProbability (counts : Counts) (marked : List String) : ℚ :=
  if counts.sum = 0 then 0
  else Dict.total (fun o n => if o ∈ marked then n else 0) counts / counts.sum

/-- The loop of `energy_aware_search`: grow the shots by 1.8 until the success estimate is
good enough or the cap is reached. -/
def energyAwareSearch.loop (runGrover : Nat → Except GroverExc Counts) (marked : List String)
    (targetSuccess : ℚ) (cap shots : Nat) : Except GroverExc (Nat × Counts × ℚ) :=
  if shots ≤ cap then
    match runGrover shots with
    | .error exc => .error exc
    | .ok counts =>
      let success := successProbability counts marked
      if targetSuccess ≤ success then .ok (shots, counts, success)
      else if min cap ((shots * 9 + 4) / 5) = shots then .ok (shots, counts, success)
      else loop runGrover marked targetSuccess cap (min cap ((shots * 9 + 4) / 5))
  else
    match runGrover cap with
    | .error exc => .error exc
    | .ok counts => .ok (cap, counts, successProbability counts marked)
termination_by cap - shots
decreasing_by omega

/-- `min_shots_for_confidence(0.08, 0.05)` -/
def minShots : Nat := 289

def energyAwareSearch (runGrover : Nat → Except GroverExc Counts) (marked : List String)
    (targetSuccess : ℚ) (maxShotsCap : Nat) : Except GroverExc (Nat × Counts × ℚ) :=
  energyAwareSearch.loop runGrover marked targetSuccess maxShotsCap (max 16 (min minShots maxShotsCap))

/-- The search ends within its cap, with the counts of the last run. -/
theorem energyAwareSearch_within {runGrover : Nat → Except GroverExc Counts} {marked : List String}
    {targetSuccess : ℚ} {cap : Nat} {r : Nat × Counts × ℚ}
    (h : energyAwareSearch runGrover marked targetSuccess cap = .ok r) :
    r.1 ≤ cap ∧ runGrover r.1 = .ok r.2.1 := by
  unfold energyAwareSearch at h
  generalize max 16 (min minShots cap) = shots at h
  induction shots using energyAwareSearch.loop.induct runGrover marked targetSuccess cap with
  | case1 shots hle exc hrun =>
    rw [energyAwareSearch.loop, if_pos hle, hrun] at h
    cases h
  | case2 shots hle counts hrun success hgood =>
    rw [energyAwareSearch.loop, if_pos hle, hrun] at h
    simp only [success] at hgood
    simp only [hgood, if_true] at h
    cases h
    exact ⟨hle, hrun⟩
  | case3 shots hle counts hrun success hbad hcap =>
    rw [energyAwareSearch.loop, if_pos hle, hrun] at h
    simp only [success] at hbad
    simp only [hbad, hcap, if_false, if_true] at h
    cases h
    exact ⟨hle, hrun⟩
  | case4 shots hle counts hrun success hbad hnext ih =>
    rw [energyAwareSearch.loop, if_pos hle, hrun] at h
    simp only [success] at hbad
    simp only [hbad, hnext, if_false] at h
    exact ih h
  | case5 shots hle exc hrun =>
    rw [energyAwareSearch.loop, if_neg hle, hrun] at h
    cases h
  | case6 shots hle counts hrun =>
    rw [energyAwareSearch.loop, if_neg hle, hrun] at h
    cases h
    exact ⟨Nat.le_refl _, hrun⟩

namespace LocalSimulator

def runGroverPreset (s : Settings) (w : World) (shotBudget : Int) : Except Exc KpiBundle :=
  let shotsCap := min shotBudget s.maxShotsPerExperiment
  match energyAwareSearch w.runGrover ["10101", "01010"] (65 / 100) shotsCap.toNat with
  | .error (.dependency _) =>
    .error (.provider "Grover preset requires the qiskit and qiskit-aer extras to run real circuits"
      .providerSimDisabled
      (some "Install the 'backend[qiskit]' extra or enable a live provider target for Grover runs."))
  | .error (.other exc) => .error exc
  | .ok (shotsUsed, counts, _) =>
    match w.fidelityOf counts with
    | .error exc => .error exc
    | .ok fidelity =>
      .ok {
        fidelity := some fidelity
        latencyUs := some w.latencyUs
        backaction := some w.backaction
        rawCounts := some counts
        shotsUsed := shotsUsed
        shotBudget := shotBudget
        status := statusOf (some fidelity) }

def runExperiment (s : Settings) (w : World) (preset : ExperimentPreset) (shotBudget : Int) :
    Except Exc KpiBundle :=
  if preset = .groverDemo then runGroverPreset s w shotBudget
  else
    let shotsUsed := min shotBudget s.maxShotsPerExperiment
    let rawCounts := sampleCounts (expectedOutcomes preset) shotsUsed w.pick
    -- LATENCY has no target fidelity
    match if preset = .latency then .ok none else estimateFidelity w rawCounts with
    | .error exc => .error exc
    | .ok fidelity =>
      .ok {
        fidelity := fidelity
        latencyUs := some w.latencyUs
        backaction := some w.backaction
        rawCounts := some rawCounts
        shotsUsed := rawCounts.sum
        shotBudget := shotBudget
        status := statusOf fidelity }

end LocalSimulator

/-! ### Provider shells -/

namespace ProviderBackend

def statusOf (fidelity : Option ℚ) (backaction : ℚ) : ExperimentStatus :=
  match fidelity with
  | some f =>
    if f < double (9 / 10) then .fail
    else if f < double (94 / 100) then .warn
    else if double (35 / 100) < backaction then .warn
    else .ok
  | none => if double (35 / 100) < backaction then .warn else .ok

def simulate (s : Settings) (w : World) (preset : ExperimentPreset) (shotBudget : Int) :
    Except Exc KpiBundle :=
  let shotsUsed := min shotBudget s.maxShotsPerExperiment
  let rawCounts := sampleCounts (expectedOutcomes preset) shotsUsed w.pick
  match if preset = .latency then .ok none else estimateFidelity w rawCounts with
  | .error exc => .error exc
  | .ok fidelity =>
    .ok {
      fidelity := fidelity
      latencyUs := some w.latencyUs
      backaction := some w.backaction
      rawCounts := some rawCounts
      shotsUsed := rawCounts.sum
      shotBudget := shotBudget
      status := statusOf fidelity w.backaction }

/-- `_normalize_distribution` accepts a distribution with positive mass. -/
def positiveMass (dist : Dict String ℚ) : Bool :=
  decide (0 < Dict.total (fun _ v => max 0 v) dist)

def runLive (w : World) (client : LiveClient) (preset : ExperimentPreset) (shotBudget : Int) :
    Except Exc KpiBundle :=
  match client preset shotBudget with
  | .error (.providerClientError message code actionHint detail) =>
    .error (.providerClientError message code actionHint detail)
  | .error exc => .error (.provider ("Live provider call failed: " ++ exc.str))
  | .ok result =>
    if result.expectedDistribution.any fun dist => dist.size ≠ 0 ∧ !positiveMass dist then
      .error (.provider
        "Invalid expected_distribution from provider: distribution must have positive mass")
    else
      match
        match result.fidelity with
        | some f => Except.ok (some f)
        | none => estimateFidelity w result.rawCounts
      with
      | .error exc => .error exc
      | .ok fidelity =>
        let backaction := result.backaction.getD w.backaction
        .ok {
          fidelity := fidelity
          latencyUs := some (result.latencyUs.getD w.latencyUs)
          backaction := some backaction
          rawCounts := some result.rawCounts
          shotsUsed := result.reported
          shotBudget := shotBudget
          status := statusOf fidelity backaction }

/-- The live path wraps every exception in a `ProviderClientError`; with provider
simulation allowed it is dropped and the run is simulated. -/
def runExperiment (s : Settings) (w : World) (preset : ExperimentPreset) (shotBudget : Int) :
    Except Exc KpiBundle :=
  match w.live with
  | some client =>
    match runLive w client preset shotBudget with
    | .ok kpis => .ok kpis
    | .error exc =>
      if s.allowProviderSimulation then simulate s w preset shotBudget
      else
        match exc with
        | .providerClientError .. => .error exc
        | _ => .error (.provider ("Live provider call failed: " ++ exc.str))
  | none =>
    if s.allowProviderSimulation then simulate s w preset shotBudget
    else
      .error (.other ("Provider simulation is disabled for this deployment. " ++
        "To exercise provider stubs in simulation mode, set SYNQC_ALLOW_PROVIDER_SIMULATION=true " ++
        "or provide a live provider client via SYNQC_PROVIDER_PAYLOAD_<BACKEND_ID>."))

end ProviderBackend

/-- `FilePayloadProviderClient`: the reply is read from a file or the environment, and the
shot budget is not looked at. -/
def filePayloadClient (payload : Except Exc ProviderLiveResult) : LiveClient := fun _ _ => payload

/-! ### The provider registry -/

namespace Providers

/-- `caps.max_shots` -/
def maxShots (s : Settings) : HardwareTarget → Option Int
  | .simLocal => none
  | .ibmQuantum => some 32000
  | .awsBraket => some 100000
  | .azureQuantum => some 500000
  | .ionqCloud => some 100000
  | .rigettiForest => some 100000
  | .unknown _ => some s.maxShotsPerExperiment

def runBackend (s : Settings) (w : World) (target : HardwareTarget) (preset : ExperimentPreset)
    (shotBudget : Int) : Except Exc KpiBundle :=
  match target with
  | .simLocal => LocalSimulator.runExperiment s w preset shotBudget
  | _ => ProviderBackend.runExperiment s w preset shotBudget

def runExperiment (s : Settings) (w : World) (target : HardwareTarget) (preset : ExperimentPreset)
    (shotBudget : Int) : Except Exc KpiBundle :=
  match target with
  | .unknown id => .error (.other ("\"Unknown hardware_target '" ++ id ++ "'\""))
  | _ =>
    match (maxShots s target).filter fun cap => cap < shotBudget with
    | some cap =>
      .error (.providerClientError
        ("Requested shots (" ++ toString shotBudget ++ ") exceed provider limit (" ++ toString cap ++ ")")
        .providerCapacity (some "Lower the shot budget for this target or select a simulator.")
        ((Dict.empty.set "requested" (.int shotBudget)).set "max" (.int cap)))
    | none =>
      match runBackend s w target preset shotBudget with
      | .ok kpis => .ok kpis
      | .error (.providerClientError message code actionHint detail) =>
        .error (.providerClientError message code actionHint detail)
      | .error exc => .error (.provider ("Provider execution failed: " ++ exc.str))

end Providers

/-! ### Obeying the budget -/

/-- KPIs that report and count at most `n` shots. -/
structure Within (n : Int) (kpis : KpiBundle) : Prop where
  used : kpis.shotsUsed ≤ n
  counted : ∀ counts, kpis.rawCounts = some counts → counts.sum ≤ n

section Obeying
variable {s : Settings} {w : World} {preset : ExperimentPreset} {shotBudget : Int} {kpis : KpiBundle}

theorem sampled_within (outcomes : List String) {cap : Int} (hpos : 0 < shotBudget) (pick : Nat → Nat) :
    (sampleCounts outcomes (min shotBudget cap) pick).sum ≤ shotBudget := by
  rw [sampleCounts_sum]
  omega

theorem LocalSimulator.runGroverPreset_within (hobeys : w.Obeys preset shotBudget)
    (hpos : 0 < shotBudget) (h : runGroverPreset s w shotBudget = .ok kpis) : Within shotBudget kpis := by
  unfold runGroverPreset at h
  simp only at h
  split at h
  · cases h
  · cases h
  · rename_i shotsUsed counts _ hsearch
    obtain ⟨hcap, hrun⟩ := energyAwareSearch_within hsearch
    have hcounts := hobeys.grover _ _ hrun
    simp only at hcap hcounts
    split at h
    · cases h
    · cases h
      refine ⟨show (shotsUsed : Int) ≤ shotBudget by omega, ?_⟩
      rintro _ ⟨⟩
      omega

theorem LocalSimulator.runExperiment_within (hobeys : w.Obeys preset shotBudget)
    (hpos : 0 < shotBudget) (h : runExperiment s w preset shotBudget = .ok kpis) :
    Within shotBudget kpis := by
  unfold runExperiment at h
  split at h
  · exact runGroverPreset_within hobeys hpos h
  · simp only at h
    split at h
    · cases h
    · cases h
      refine ⟨sampled_within _ hpos _, ?_⟩
      rintro _ ⟨⟩
      exact sampled_within _ hpos _

theorem ProviderBackend.simulate_within (hpos : 0 < shotBudget)
    (h : simulate s w preset shotBudget = .ok kpis) : Within shotBudget kpis := by
  unfold simulate at h
  simp only at h
  split at h
  · cases h
  · cases h
    refine ⟨sampled_within _ hpos _, ?_⟩
    rintro _ ⟨⟩
    exact sampled_within _ hpos _

theorem ProviderBackend.runLive_within {client : LiveClient} (hobeys : w.Obeys preset shotBudget)
    (hlive : w.live = some client) (h : runLive w client preset shotBudget = .ok kpis) :
    Within shotBudget kpis := by
  unfold runLive at h
  split at h
  · cases h
  · cases h
  · rename_i result hresult
    obtain ⟨hreported, hcounted⟩ := hobeys.live client result hlive hresult
    split at h
    · cases h
    · split at h
      · cases h
      · cases h
        refine ⟨hreported, ?_⟩
        rintro _ ⟨⟩
        exact hcounted

theorem ProviderBackend.runExperiment_within (hobeys : w.Obeys preset shotBudget)
    (hpos : 0 < shotBudget) (h : runExperiment s w preset shotBudget = .ok kpis) :
    Within shotBudget kpis := by
  unfold runExperiment at h
  split at h
  · rename_i client hlive
    split at h
    · rename_i hrun
      cases h
      exact runLive_within hobeys hlive hrun
    · split at h
      · exact simulate_within hpos h
      · split at h <;> cases h
  · split at h
    · exact simulate_within hpos h
    · cases h

/-- In a world that stays within the budget, so do the KPIs of every backend. -/
theorem Providers.runExperiment_within {target : HardwareTarget} (hobeys : w.Obeys preset shotBudget)
    (hpos : 0 < shotBudget) (h : runExperiment s w target preset shotBudget = .ok kpis) :
    Within shotBudget kpis := by
  unfold runExperiment at h
  split at h
  · cases h
  · split at h
    · cases h
    · split at h
      · rename_i hrun
        cases h
        unfold runBackend at hrun
        split at hrun
        · exact LocalSimulator.runExperiment_within hobeys hpos hrun
        · exact ProviderBackend.runExperiment_within hobeys hpos hrun
      · cases h
      · cases h

end Obeying

end SynQc.Engine
