import Mathlib.Data.List.Sort
import SynQc.Engine.Backends

/-! `ProviderMetricsRecorder`: what the calls of provider clients are counted as.

A provider run is counted as a success of the live client, a failure of it, or a
simulation; a failure that falls back to a simulation counts twice. The counters are kept
twice as well: in Prometheus, for good, and in a summary for each target, since the last
reset. A *tally* is what a list of recorded outcomes amounts to; the summary is the tally of
what was recorded since the last reset (`tally_of_records`), and what `run_experiment`
records is what happened to its runs (`health_counts_runs`). -/
namespace SynQc.Metrics

open Engine

/-- What is recorded; a failure under the code it is counted as. -/
inductive Outcome where
  | success
  | failure (code : String)
  | simulated
  deriving DecidableEq

/-- The label `status` of an outcome. -/
def Outcome.status : Outcome → String
  | .success => "success"
  | .failure _ => "failure"
  | .simulated => "simulated"

/-- The label `error_code` of an outcome. -/
def Outcome.errorCode : Outcome → String
  | .success => "none"
  | .failure code => code
  | .simulated => "none"

/-- An entry of `_summary`. -/
structure ProviderStats where
  success : Nat := 0
  failure : Nat := 0
  simulated : Nat := 0
  errorCodes : Dict String Nat := Dict.empty

/-- The changes of one record function to the entry of its target. -/
def ProviderStats.add (stats : ProviderStats) : Outcome → ProviderStats
  | .success => {stats with success := stats.success + 1}
  | .failure code =>
    {stats with
      failure := stats.failure + 1
      errorCodes := stats.errorCodes.set code ((stats.errorCodes.get? code).getD 0 + 1)}
  | .simulated => {stats with simulated := stats.simulated + 1}

structure ProviderMetricsRecorder where
  /-- `synqc_provider_runs_total`, by target, status and error code. -/
  runs : Dict (String × String × String) Int := Dict.empty
  /-- What `synqc_provider_latency_seconds` observed, by target and status, the last first. -/
  latency : List ((String × String) × ℚ) := []
  summary : Dict String ProviderStats := Dict.empty

/-- `text or "unknown"` -/
def orUnknown (text : String) : String := if text = "" then "unknown" else text

namespace ProviderMetricsRecorder

/-- The three record functions are this with their outcome. -/
def record (hardwareTarget : String) (outcome : Outcome) (latencySeconds : Option ℚ)
    (r : ProviderMetricsRecorder) : ProviderMetricsRecorder :=
  let target := orUnknown hardwareTarget
  { runs := r.runs.incr (target, outcome.status, outcome.errorCode) 1
    latency := ((target, outcome.status), latencySeconds.getD 0) :: r.latency
    summary := r.summary.set target (((r.summary.get? target).getD {}).add outcome) }

def recordSuccess (hardwareTarget : String) (latencySeconds : Option ℚ) :
    ProviderMetricsRecorder → ProviderMetricsRecorder :=
  record hardwareTarget .success latencySeconds

def recordFailure (hardwareTarget : String) (errorCode : Option String) (latencySeconds : Option ℚ) :
    ProviderMetricsRecorder → ProviderMetricsRecorder :=
  record hardwareTarget (.failure (orUnknown (errorCode.getD ""))) latencySeconds

def recordSimulated (hardwareTarget : String) (latencySeconds : Option ℚ) :
    ProviderMetricsRecorder → ProviderMetricsRecorder :=
  record hardwareTarget .simulated latencySeconds

/-- The Prometheus counters remain. -/
def reset (r : ProviderMetricsRecorder) : ProviderMetricsRecorder := {r with summary := Dict.empty}

structure Totals where
  success : Nat
  failure : Nat
  simulated : Nat
  deriving DecidableEq

structure HealthSummary where
  totals : Totals
  targets : Dict String ProviderStats
  failingTargets : List String

def healthSummary (r : ProviderMetricsRecorder) : HealthSummary where
  totals :=
    { success := r.summary.total fun _ stats => stats.success
      failure := r.summary.total fun _ stats => stats.failure
      simulated := r.summary.total fun _ stats => stats.simulated }
  targets := r.summary
  failingTargets :=
    ((r.summary.entries.filter fun entry => 0 < entry.2.failure).map Prod.fst).mergeSort fun a b => decide (a ≤ b)

/-- What some record calls in a row make of a recorder, whatever latencies they report. -/
inductive Records : ProviderMetricsRecorder → List (String × Outcome) → ProviderMetricsRecorder → Prop where
  | done (r : ProviderMetricsRecorder) : Records r [] r
  | more {r r' : ProviderMetricsRecorder} {target : String} {outcome : Outcome} {latency : Option ℚ}
      {rest : List (String × Outcome)} (next : Records (r.record target outcome latency) rest r') :
      Records r ((orUnknown target, outcome) :: rest) r'

end ProviderMetricsRecorder

/-! ### `ProviderBackend.run_experiment`, with what it records -/

/-- The clock readings of one run of a backend. -/
structure Readings where
  start : ℚ := 0
  liveEnd : ℚ := 0
  simStart : ℚ := 0
  simEnd : ℚ := 0

/-- One call of a provider backend, with all it depends on. -/
structure ProviderCall where
  id : String
  settings : Settings
  world : World
  preset : ExperimentPreset
  shotBudget : Int
  readings : Readings := {}

namespace ProviderCall

/-- The part of `run_experiment` after the live path. -/
def fallBack (c : ProviderCall) (r : ProviderMetricsRecorder) : Except Exc KpiBundle × ProviderMetricsRecorder :=
  match ProviderBackend.runExperiment c.settings {c.world with live := none} c.preset c.shotBudget with
  | .ok kpis => (.ok kpis, r.recordSimulated c.id (some (max 0 (c.readings.simEnd - c.readings.simStart))))
  | .error exc => (.error exc, r)

def runExperiment (c : ProviderCall) (r : ProviderMetricsRecorder) :
    Except Exc KpiBundle × ProviderMetricsRecorder :=
  let latency := some (max 0 (c.readings.liveEnd - c.readings.start))
  match c.world.live with
  | some client =>
    match ProviderBackend.runLive c.world client c.preset c.shotBudget with
    | .ok kpis => (.ok kpis, r.recordSuccess c.id latency)
    | .error (.providerClientError message code actionHint detail) =>
      let r := r.recordFailure c.id (some code.value) latency
      if c.settings.allowProviderSimulation then c.fallBack r
      else (.error (.providerClientError message code actionHint detail), r)
    | .error exc =>
      let r := r.recordFailure c.id (some ErrorCode.providerError.value) latency
      if c.settings.allowProviderSimulation then c.fallBack r
      else (.error (.provider ("Live provider call failed: " ++ exc.str)), r)
  | none => c.fallBack r

/-- Recording changes no result. -/
theorem runExperiment_result (c : ProviderCall) (r : ProviderMetricsRecorder) :
    (c.runExperiment r).1 = ProviderBackend.runExperiment c.settings c.world c.preset c.shotBudget := by
  have hfallBack : ∀ r, (c.fallBack r).1 =
      ProviderBackend.runExperiment c.settings {c.world with live := none} c.preset c.shotBudget := by
    intro r
    unfold fallBack
    split
    · rename_i hrun
      exact hrun.symm
    · rename_i hrun
      exact hrun.symm
  cases hlive : c.world.live with
  | none =>
    simp only [runExperiment, hlive, hfallBack, ProviderBackend.runExperiment]
    rfl
  | some client =>
    simp only [runExperiment, ProviderBackend.runExperiment, hlive]
    cases hrun : ProviderBackend.runLive c.world client c.preset c.shotBudget with
    | ok kpis => rfl
    | error exc =>
      cases hallow : c.settings.allowProviderSimulation with
      | true =>
        cases exc <;>
        · simp only [if_true, hfallBack, ProviderBackend.runExperiment, hallow]
          rfl
      | false => cases exc <;> rfl

/-- What the live client's run is recorded as, where there is a live client. -/
def liveOutcome (c : ProviderCall) : Option Outcome :=
  c.world.live.map fun client =>
    match ProviderBackend.runLive c.world client c.preset c.shotBudget with
    | .ok _ => .success
    | .error (.providerClientError _ code _ _) => .failure code.value
    | .error _ => .failure ErrorCode.providerError.value

/-- The call returned KPIs. -/
def returned (c : ProviderCall) : Bool :=
  (ProviderBackend.runExperiment c.settings c.world c.preset c.shotBudget).toOption.isSome

/-- KPIs that are not the live client's are simulated ones. -/
def outcomes (c : ProviderCall) : List Outcome :=
  c.liveOutcome.toList ++ if c.returned ∧ c.liveOutcome ≠ some .success then [.simulated] else []

/-- The entries of the call in the log of all that was recorded. -/
def log (c : ProviderCall) : List (String × Outcome) := c.outcomes.map fun outcome => (orUnknown c.id, outcome)

theorem orUnknown_value (code : ErrorCode) : orUnknown code.value = code.value := by
  cases code <;> decide

theorem fallBack_records (c : ProviderCall) (r : ProviderMetricsRecorder) :
    r.Records (if (c.fallBack r).1.toOption.isSome then [(orUnknown c.id, .simulated)] else []) (c.fallBack r).2 := by
  unfold fallBack
  split
  · exact .more (.done _)
  · exact .done _

/-- The call records its outcomes. -/
theorem runExperiment_records (c : ProviderCall) (r : ProviderMetricsRecorder) :
    r.Records c.log (c.runExperiment r).2 := by
  have hresult := c.runExperiment_result r
  have hreturned : c.returned = (c.runExperiment r).1.toOption.isSome := by rw [hresult]; rfl
  unfold log outcomes
  rw [hreturned]
  cases hlive : c.world.live with
  | none =>
    have hrun : c.runExperiment r = c.fallBack r := by simp only [runExperiment, hlive]
    have hnone : c.liveOutcome = none := by simp only [liveOutcome, hlive, Option.map_none]
    rw [hrun, hnone]
    have hrecords := c.fallBack_records r
    split at hrecords <;> rename_i hsome <;> simpa [hsome] using hrecords
  | some client =>
    cases hrun : ProviderBackend.runLive c.world client c.preset c.shotBudget with
    | ok kpis =>
      have houtcome : c.liveOutcome = some .success := by simp only [liveOutcome, hlive, Option.map_some, hrun]
      rw [houtcome]
      simp only [runExperiment, hlive, hrun, ne_eq, not_true_eq_false, and_false, if_false, List.append_nil]
      exact .more (.done _)
    | error exc =>
      obtain ⟨code, houtcome, hnext⟩ : ∃ code : ErrorCode, c.liveOutcome = some (.failure code.value) ∧
          ∃ latency exc', c.runExperiment r =
            let r := r.recordFailure c.id (some code.value) latency
            if c.settings.allowProviderSimulation then c.fallBack r else (.error exc', r) := by
        cases exc <;>
        · simp only [runExperiment, liveOutcome, hlive, hrun, Option.map_some]
          exact ⟨_, rfl, _, _, rfl⟩
      obtain ⟨latency, exc', hnext⟩ := hnext
      rw [houtcome, hnext]
      have hcode : Outcome.failure code.value = .failure (orUnknown ((some code.value).getD "")) := by
        rw [Option.getD_some, orUnknown_value]
      cases c.settings.allowProviderSimulation with
      | true =>
        rw [hcode]
        have hrecords := (c.fallBack_records (r.recordFailure c.id (some code.value) latency)).more
        split at hrecords <;> rename_i hsome <;> simpa [hsome] using hrecords
      | false =>
        rw [hcode]
        exact .more (.done _)

end ProviderCall

/-! ### The summary as a tally -/

def Outcome.isFailure : Outcome → Bool
  | .failure _ => true
  | _ => false

/-- The run got its KPIs. -/
def Outcome.isAnswer : Outcome → Bool
  | .failure _ => false
  | _ => true

theorem countP_answers {α : Type} (f : α → Outcome) (l : List α) :
    (l.countP fun a => f a = .success) + (l.countP fun a => f a = .simulated) = l.countP fun a => (f a).isAnswer := by
  induction l with
  | nil => rfl
  | cons a rest ih =>
    simp only [List.countP_cons, ← ih]
    cases f a <;> simp [Outcome.isAnswer] <;> omega

/-- The outcomes logged for a target. -/
def outcomesOf (target : String) (log : List (String × Outcome)) : List Outcome :=
  (log.filter fun entry => entry.1 = target).map Prod.snd

theorem outcomesOf_append (target : String) (log log' : List (String × Outcome)) :
    outcomesOf target (log ++ log') = outcomesOf target log ++ outcomesOf target log' := by
  simp only [outcomesOf, List.filter_append, List.map_append]

theorem countP_outcomesOf (target : String) (p : Outcome → Bool) (log : List (String × Outcome)) :
    (outcomesOf target log).countP p = log.countP fun entry => decide (entry.1 = target) && p entry.2 := by
  simp only [outcomesOf, List.countP_map, List.countP_filter]
  refine List.countP_congr fun entry _ => ?_
  simp [and_comm]

/-- The entry counts these outcomes. -/
structure ProviderStats.Counts (stats : ProviderStats) (outcomes : List Outcome) : Prop where
  success : stats.success = outcomes.countP fun outcome => outcome = .success
  failure : stats.failure = outcomes.countP Outcome.isFailure
  simulated : stats.simulated = outcomes.countP fun outcome => outcome = .simulated
  codes : ∀ code, (stats.errorCodes.get? code).getD 0 = outcomes.countP fun outcome => outcome = .failure code
  sum : (stats.errorCodes.total fun _ n => n) = stats.failure

theorem ProviderStats.counts_nil : ({} : ProviderStats).Counts [] := ⟨rfl, rfl, rfl, fun _ => rfl, rfl⟩

theorem ProviderStats.Counts.add {stats : ProviderStats} {outcomes : List Outcome} (h : stats.Counts outcomes)
    (outcome : Outcome) : (stats.add outcome).Counts (outcomes ++ [outcome]) := by
  obtain ⟨hsuccess, hfailure, hsimulated, hcodes, hsum⟩ := h
  cases outcome with
  | success =>
    refine ⟨?_, ?_, ?_, fun code => ?_, hsum⟩
    · simp [ProviderStats.add, hsuccess]
    · simp [ProviderStats.add, hfailure, Outcome.isFailure]
    · simp [ProviderStats.add, hsimulated]
    · simp [ProviderStats.add, hcodes]
  | simulated =>
    refine ⟨?_, ?_, ?_, fun code => ?_, hsum⟩
    · simp [ProviderStats.add, hsuccess]
    · simp [ProviderStats.add, hfailure, Outcome.isFailure]
    · simp [ProviderStats.add, hsimulated]
    · simp [ProviderStats.add, hcodes]
  | failure code' =>
    refine ⟨?_, ?_, ?_, fun code => ?_, ?_⟩
    · simp [ProviderStats.add, hsuccess]
    · simp [ProviderStats.add, hfailure, Outcome.isFailure]
    · simp [ProviderStats.add, hsimulated]
    · rw [List.countP_append, ← hcodes code]
      by_cases hcode : code' = code
      · subst hcode
        simp [ProviderStats.add]
      · simp [ProviderStats.add, Dict.get?_set_ne _ _ hcode, hcode]
    · have hset := stats.errorCodes.total_set code' (fun _ n => n) ((stats.errorCodes.get? code').getD 0 + 1)
      cases hget : stats.errorCodes.get? code' with
      | none =>
        simp only [hget, Option.elim_none, Option.getD_none] at hset
        simp only [ProviderStats.add, hget, Option.getD_none]
        omega
      | some n =>
        simp only [hget, Option.elim_some, Option.getD_some] at hset
        simp only [ProviderStats.add, hget, Option.getD_some]
        omega

/-- The summary is the tally of a log. -/
structure Tally (r : ProviderMetricsRecorder) (log : List (String × Outcome)) : Prop where
  entry : ∀ target, ((r.summary.get? target).getD {}).Counts (outcomesOf target log)
  success : r.healthSummary.totals.success = log.countP fun entry => entry.2 = .success
  failure : r.healthSummary.totals.failure = log.countP fun entry => entry.2.isFailure
  simulated : r.healthSummary.totals.simulated = log.countP fun entry => entry.2 = .simulated

theorem tally_reset (r : ProviderMetricsRecorder) : Tally r.reset [] :=
  ⟨fun _ => ProviderStats.counts_nil, rfl, rfl, rfl⟩

/-- Adding an outcome moves a total by what it moves in the entry. -/
theorem total_add_outcome {f : ProviderStats → Nat} {p : Outcome → Bool}
    (hadd : ∀ stats outcome, f (stats.add outcome) = f stats + if p outcome then 1 else 0) (hnew : f {} = 0)
    (d : Dict String ProviderStats) (target : String) (outcome : Outcome) :
    ((d.set target (((d.get? target).getD {}).add outcome)).total fun _ stats => f stats) =
      (d.total fun _ stats => f stats) + if p outcome then 1 else 0 := by
  have hset := d.total_set target (fun _ stats => f stats) (((d.get? target).getD {}).add outcome)
  rw [hadd] at hset
  cases hget : d.get? target with
  | none =>
    simp only [hget, Option.elim_none, Option.getD_none, hnew] at hset ⊢
    omega
  | some stats =>
    simp only [hget, Option.elim_some, Option.getD_some] at hset ⊢
    omega

theorem Tally.record {r : ProviderMetricsRecorder} {log : List (String × Outcome)} (h : Tally r log) (target : String)
    (outcome : Outcome) (latency : Option ℚ) :
    Tally (r.record target outcome latency) (log ++ [(orUnknown target, outcome)]) := by
  obtain ⟨hentry, hsuccess, hfailure, hsimulated⟩ := h
  refine ⟨fun target' => ?_, ?_, ?_, ?_⟩
  · rw [outcomesOf_append]
    by_cases htarget : orUnknown target = target'
    · subst htarget
      simpa [ProviderMetricsRecorder.record, outcomesOf] using (hentry (orUnknown target)).add outcome
    · simpa [ProviderMetricsRecorder.record, outcomesOf, htarget, Dict.get?_set_ne _ _ htarget] using hentry target'
  · have htotal := total_add_outcome (f := ProviderStats.success) (p := fun o => decide (o = .success))
      (by intro stats o; cases o <;> simp [ProviderStats.add]) rfl r.summary (orUnknown target) outcome
    simp only [ProviderMetricsRecorder.healthSummary, ProviderMetricsRecorder.record] at hsuccess ⊢
    rw [htotal, hsuccess, List.countP_append, List.countP_singleton]
  · have htotal := total_add_outcome (f := ProviderStats.failure) (p := Outcome.isFailure)
      (by intro stats o; cases o <;> simp [ProviderStats.add, Outcome.isFailure]) rfl
      r.summary (orUnknown target) outcome
    simp only [ProviderMetricsRecorder.healthSummary, ProviderMetricsRecorder.record] at hfailure ⊢
    rw [htotal, hfailure, List.countP_append, List.countP_singleton]
  · have htotal := total_add_outcome (f := ProviderStats.simulated) (p := fun o => decide (o = .simulated))
      (by intro stats o; cases o <;> simp [ProviderStats.add]) rfl r.summary (orUnknown target) outcome
    simp only [ProviderMetricsRecorder.healthSummary, ProviderMetricsRecorder.record] at hsimulated ⊢
    rw [htotal, hsimulated, List.countP_append, List.countP_singleton]

theorem Tally.records {r r' : ProviderMetricsRecorder} {log entries : List (String × Outcome)} (h : Tally r log)
    (hrecords : r.Records entries r') : Tally r' (log ++ entries) := by
  induction hrecords generalizing log with
  | done r =>
    rw [List.append_nil]
    exact h
  | more next ih =>
    have hnext := ih (h.record _ _ _)
    rwa [List.append_assoc] at hnext

/-! ### Runs of provider calls -/

/-- The recorder after a list of calls. -/
def recorded (r : ProviderMetricsRecorder) (calls : List ProviderCall) : ProviderMetricsRecorder :=
  calls.foldl (fun r c => (c.runExperiment r).2) r

theorem tally_of_calls (r : ProviderMetricsRecorder) (log : List (String × Outcome)) (calls : List ProviderCall)
    (h : Tally r log) : Tally (recorded r calls) (log ++ calls.flatMap ProviderCall.log) := by
  induction calls generalizing r log with
  | nil =>
    rw [List.flatMap_nil, List.append_nil]
    exact h
  | cons c rest ih =>
    have hrest := ih _ _ (h.records (c.runExperiment_records r))
    rwa [List.append_assoc] at hrest

/-- The live client of the call failed. -/
def ProviderCall.liveFailed (c : ProviderCall) : Bool := c.liveOutcome.any Outcome.isFailure

theorem ProviderCall.returned_of_success {c : ProviderCall} (h : c.liveOutcome = some .success) :
    c.returned = true := by
  unfold liveOutcome at h
  cases hlive : c.world.live with
  | none =>
    rw [hlive] at h
    cases h
  | some client =>
    rw [hlive, Option.map_some, Option.some.injEq] at h
    cases hrun : ProviderBackend.runLive c.world client c.preset c.shotBudget with
    | ok kpis => simp [returned, ProviderBackend.runExperiment, hlive, hrun, Except.toOption]
    | error exc =>
      rw [hrun] at h
      cases exc <;> cases h

theorem ProviderCall.liveOutcome_ne_simulated (c : ProviderCall) : c.liveOutcome ≠ some .simulated := by
  unfold liveOutcome
  intro h
  cases hlive : c.world.live with
  | none =>
    rw [hlive] at h
    cases h
  | some client =>
    rw [hlive, Option.map_some, Option.some.injEq] at h
    split at h <;> cases h

/-- A call that returned was answered once, by its client or a simulation; another was not. -/
theorem ProviderCall.outcomes_answers (c : ProviderCall) :
    c.outcomes.countP Outcome.isAnswer = if c.returned then 1 else 0 := by
  have hsuccess := fun h => c.returned_of_success h
  have hsimulated := c.liveOutcome_ne_simulated
  unfold outcomes
  cases houtcome : c.liveOutcome with
  | none => cases c.returned <;> rfl
  | some outcome =>
    cases outcome with
    | success => simp [hsuccess houtcome, Outcome.isAnswer]
    | failure code => cases c.returned <;> simp [Outcome.isAnswer]
    | simulated => exact absurd houtcome hsimulated

/-- Whatever else is counted is counted of the live client. -/
theorem ProviderCall.outcomes_live (c : ProviderCall) {p : Outcome → Bool} (hp : p .simulated = false) :
    c.outcomes.countP p = if c.liveOutcome.any p then 1 else 0 := by
  have hrest : (if c.returned ∧ c.liveOutcome ≠ some .success then [Outcome.simulated] else []).countP p = 0 := by
    split
    · rw [List.countP_singleton, hp]
      rfl
    · rfl
  rw [outcomes, List.countP_append, hrest]
  cases c.liveOutcome with
  | none => rfl
  | some outcome => simp

section Counting
variable {p : Outcome → Bool} {q : ProviderCall → Bool}

/-- What each call puts into the log once or not at all is counted over all calls. -/
theorem countP_calls (h : ∀ c : ProviderCall, c.outcomes.countP p = if q c then 1 else 0) (calls : List ProviderCall) :
    ((calls.flatMap ProviderCall.log).countP fun entry => p entry.2) = calls.countP q := by
  induction calls with
  | nil => rfl
  | cons c rest ih =>
    have hlog : (c.log.countP fun entry => p entry.2) = c.outcomes.countP p := by
      rw [ProviderCall.log, List.countP_map]
      rfl
    rw [List.flatMap_cons, List.countP_append, ih, hlog, h, List.countP_cons, Nat.add_comm]

theorem countP_calls_of (h : ∀ c : ProviderCall, c.outcomes.countP p = if q c then 1 else 0) (target : String)
    (calls : List ProviderCall) :
    (outcomesOf target (calls.flatMap ProviderCall.log)).countP p =
      calls.countP fun c => decide (orUnknown c.id = target) && q c := by
  induction calls with
  | nil => rfl
  | cons c rest ih =>
    have hlog : (outcomesOf target c.log).countP p =
        if decide (orUnknown c.id = target) && q c then 1 else 0 := by
      rw [countP_outcomesOf, ProviderCall.log, List.countP_map]
      by_cases htarget : orUnknown c.id = target
      · simpa [Function.comp_def, htarget] using h c
      · simp [Function.comp_def, htarget]
    rw [List.flatMap_cons, outcomesOf_append, List.countP_append, ih, hlog, List.countP_cons, Nat.add_comm]

end Counting

theorem failingTargets_sorted (r : ProviderMetricsRecorder) : r.healthSummary.failingTargets.Pairwise (· < ·) := by
  have hsorted := List.pairwise_mergeSort' (fun a b : String => a ≤ b)
    ((r.summary.entries.filter fun entry => 0 < entry.2.failure).map Prod.fst)
  have hnodup : r.healthSummary.failingTargets.Nodup :=
    (List.mergeSort_perm _ _).nodup_iff.mpr (r.summary.nodup.sublist (List.filter_sublist.map Prod.fst))
  refine hsorted.imp₂ (fun a b hle hne => ?_) hnodup
  by_contra hlt
  exact hne (String.le_antisymm hle (String.not_lt.mp hlt))

theorem mem_failingTargets (r : ProviderMetricsRecorder) (target : String) :
    target ∈ r.healthSummary.failingTargets ↔ 0 < ((r.summary.get? target).getD {}).failure := by
  simp only [ProviderMetricsRecorder.healthSummary, List.mem_mergeSort, List.mem_map, List.mem_filter,
    decide_eq_true_eq]
  constructor
  · intro h
    obtain ⟨⟨target', stats⟩, ⟨hmem, hfail⟩, rfl⟩ := h
    rw [Dict.mem_entries.mp hmem]
    exact hfail
  · intro h
    cases hget : r.summary.get? target with
    | none =>
      rw [hget] at h
      cases h
    | some stats =>
      rw [hget] at h
      exact ⟨(target, stats), ⟨Dict.mem_entries.mpr hget, h⟩, rfl⟩

/-- **The health summary counts what became of the provider calls since the last reset**: the
calls that returned KPIs are its successes and simulations, in all and for each target; the
calls whose live client failed are its failures, under the code of the error; and the failing
targets are those of such calls, in order and without repetition. -/
theorem health_counts_runs (r : ProviderMetricsRecorder) (calls : List ProviderCall) :
    let health := (recorded r.reset calls).healthSummary
    health.totals.success + health.totals.simulated = calls.countP ProviderCall.returned ∧
    health.totals.failure = calls.countP ProviderCall.liveFailed ∧
    (∀ target,
      let stats := (health.targets.get? target).getD {}
      stats.success = calls.countP (fun c => decide (orUnknown c.id = target) && c.liveOutcome.any (· = .success)) ∧
      stats.success + stats.simulated = calls.countP (fun c => decide (orUnknown c.id = target) && c.returned) ∧
      stats.failure = calls.countP (fun c => decide (orUnknown c.id = target) && c.liveFailed) ∧
      (stats.errorCodes.total fun _ n => n) = stats.failure ∧
      ∀ code, (stats.errorCodes.get? code).getD 0 =
        calls.countP fun c => decide (orUnknown c.id = target) && c.liveOutcome.any (· = .failure code)) ∧
    health.failingTargets.Pairwise (· < ·) ∧
    ∀ target, target ∈ health.failingTargets ↔ ∃ c ∈ calls, orUnknown c.id = target ∧ c.liveFailed = true := by
  have h := tally_of_calls r.reset [] calls (tally_reset r)
  rw [List.nil_append] at h
  have hfailure : ∀ target, (((recorded r.reset calls).summary.get? target).getD {}).failure =
      calls.countP (fun c => decide (orUnknown c.id = target) && c.liveFailed) := by
    intro target
    rw [(h.entry target).failure]
    exact countP_calls_of (fun c => c.outcomes_live rfl) target calls
  refine ⟨?_, ?_, fun target => ⟨?_, ?_, hfailure target, (h.entry target).sum, fun code => ?_⟩, ?_, fun target => ?_⟩
  · rw [h.success, h.simulated, countP_answers]
    exact countP_calls (fun c => c.outcomes_answers) calls
  · rw [h.failure]
    exact countP_calls (fun c => c.outcomes_live rfl) calls
  · rw [← countP_calls_of (fun c => c.outcomes_live rfl) target calls]
    exact (h.entry target).success
  · rw [← countP_calls_of (fun c => c.outcomes_answers) target calls]
    exact (congrArg₂ (· + ·) (h.entry target).success (h.entry target).simulated).trans (countP_answers id _)
  · rw [← countP_calls_of (fun c => c.outcomes_live rfl) target calls]
    exact (h.entry target).codes code
  · exact failingTargets_sorted _
  · rw [mem_failingTargets, hfailure, List.countP_pos_iff]
    simp only [Bool.and_eq_true, decide_eq_true_eq]

end SynQc.Metrics
