import SynQc.Engine.Backends

/-! `QiskitProviderClient.run`: the live client of `ibm_quantum`.

A preset is one circuit, run with the whole budget. The Grover preset is run in batches
instead, of 64 shots first and of twice as many each next time, until the marked state is
found often enough or the budget is spent. What it reports is the shots of all batches and
the counts of the last one. -/
namespace SynQc.Engine

/-- An installation of Qiskit. -/
structure Qiskit where
  /-- What `_ensure_qiskit_available` raises. -/
  missing : Option Exc := none
  /-- The circuits of one run in turn: built, transpiled and run with a number of shots. -/
  execute : Nat → ExperimentPreset → Nat → Except Exc Counts

namespace Qiskit

/-- A backend counts every shot it was asked for. -/
def Faithful (q : Qiskit) : Prop :=
  ∀ batch preset shots counts, q.execute batch preset shots = .ok counts → counts.sum = shots

/-- `grover_utils.success_probability` -/
def successProbability (counts : Counts) (marked : List String) : ℚ :=
  if counts.sum ≤ 0 then 0
  else Dict.total (fun o n => if o ∈ marked then n else 0) counts / counts.sum

def expectedBaseline (preset : ExperimentPreset) : Dict String ℚ :=
  let baseline : List (String × ℚ) :=
    match preset with
    | .latency => [("00", 55 / 100), ("01", 22 / 100), ("10", 14 / 100), ("11", 9 / 100)]
    | .backendCompare => [("00", 42 / 100), ("01", 22 / 100), ("10", 20 / 100), ("11", 16 / 100)]
    | .helloQuantumSim => [("00", 70 / 100), ("01", 15 / 100), ("10", 10 / 100), ("11", 5 / 100)]
    | .groverDemo => [("00", 50 / 100), ("01", 0), ("10", 0), ("11", 50 / 100)]
    | _ => [("00", 64 / 100), ("11", 28 / 100), ("01", 5 / 100), ("10", 3 / 100)]
  baseline.foldl (fun d e => d.set e.1 e.2) Dict.empty

/-- The loop of the Grover preset: the counts of the last batch, and the shots of all. -/
def groverBatches (q : Qiskit) (shots batch configShots totalShotsUsed : Nat) : Except Exc (Counts × Nat) :=
  if min configShots (shots - totalShotsUsed) = 0 then .error (.valueError "shots must be positive")
  else
    match q.execute batch .groverDemo (min configShots (shots - totalShotsUsed)) with
    | .error exc => .error exc
    | .ok counts =>
      if 9 / 10 ≤ successProbability counts ["11"] ∨
          shots - (totalShotsUsed + min configShots (shots - totalShotsUsed)) = 0 then
        .ok (counts, totalShotsUsed + min configShots (shots - totalShotsUsed))
      else
        groverBatches q shots (batch + 1) (min (min configShots (shots - totalShotsUsed) * 2) shots)
          (totalShotsUsed + min configShots (shots - totalShotsUsed))
termination_by shots - totalShotsUsed
decreasing_by omega

/-- The taxonomy of a failure, by words in its message. -/
def mapException (exc : Exc) : Exc :=
  match exc with
  | .providerClientError .. => exc
  | _ =>
    let mentions (word : String) : Bool := (exc.str.toLower.splitOn word).length > 1
    if mentions "credential" ∨ mentions "token" then
      .provider exc.str .providerCredentials (some "Set SYNQC_QISKIT_RUNTIME_TOKEN or run with Aer simulation.")
    else if mentions "queue" ∨ mentions "busy" then
      .provider exc.str .providerQueueBackpressure (some "Wait for capacity or select a different backend.")
    else .provider exc.str .providerError (some "Retry later or switch to Aer simulation.")

def run (q : Qiskit) (preset : ExperimentPreset) (shots : Nat) : Except Exc ProviderLiveResult :=
  match q.missing with
  | some exc => .error exc
  | none =>
    if preset = .groverDemo then
      match q.groverBatches shots 0 (min 64 shots) 0 with
      | .error exc => .error exc
      | .ok (counts, totalShotsUsed) =>
        .ok {
          rawCounts := counts
          expectedDistribution := some (expectedBaseline preset)
          fidelity := some (successProbability counts ["11"])
          shotsUsed := some totalShotsUsed }
    else
      match q.execute 0 preset shots with
      | .error exc => .error exc
      | .ok counts =>
        .ok {
          rawCounts := counts
          expectedDistribution := some (expectedBaseline preset)
          shotsUsed := some shots }

def client (q : Qiskit) : LiveClient := fun preset shotBudget =>
  match q.run preset (max 1 shotBudget).toNat with
  | .ok result => .ok result
  | .error exc => .error (mapException exc)

/-- The first batch ends the loop: it finds the marked state, or is the whole budget. -/
def OneBatch (q : Qiskit) (shots : Nat) : Prop :=
  shots ≤ 64 ∨ ∀ counts, q.execute 0 .groverDemo 64 = .ok counts → 9 / 10 ≤ successProbability counts ["11"]

section Batches
variable {q : Qiskit} {shots batch configShots total used : Nat} {counts : Counts}

/-- A later batch's counts leave out the shots of the earlier ones. -/
theorem groverBatches_used (hq : q.Faithful)
    (h : q.groverBatches shots batch configShots total = .ok (counts, used)) :
    0 < used ∧ total + counts.sum ≤ (used : Int) := by
  induction batch, configShots, total using groverBatches.induct q shots with
  | case1 batch configShots total hzero =>
    rw [groverBatches, if_pos hzero] at h
    cases h
  | case2 batch configShots total hzero exc hrun =>
    rw [groverBatches, if_neg hzero, hrun] at h
    cases h
  | case3 batch configShots total hzero last hrun hstop =>
    rw [groverBatches, if_neg hzero, hrun] at h
    simp only [hstop, if_true] at h
    cases h
    have hsum := hq _ _ _ _ hrun
    exact ⟨by omega, by omega⟩
  | case4 batch configShots total hzero last hrun hstop ih =>
    rw [groverBatches, if_neg hzero, hrun] at h
    simp only [hstop, if_false] at h
    obtain ⟨hpos, hmore⟩ := ih h
    exact ⟨hpos, by omega⟩

theorem groverBatches_one (hq : q.Faithful)
    (h : q.groverBatches shots 0 (min 64 shots) 0 = .ok (counts, used)) :
    (used : Int) ≤ counts.sum ↔ q.OneBatch shots := by
  have hfirst : min (min 64 shots) (shots - 0) = min 64 shots := by omega
  rw [groverBatches, hfirst, Nat.zero_add] at h
  split at h
  · cases h
  · split at h
    · cases h
    · rename_i hpos first hrun
      have hsum := hq _ _ _ _ hrun
      split at h
      · rename_i hstop
        cases h
        refine ⟨fun _ => ?_, fun _ => le_of_eq hsum.symm⟩
        by_cases hsmall : shots ≤ 64
        · exact .inl hsmall
        · rw [show min 64 shots = 64 by omega] at hrun hstop
          refine .inr fun other hother => ?_
          rw [hrun] at hother
          cases hother
          exact hstop.resolve_right (by omega)
      · rename_i hgoes
        have hmore := (groverBatches_used hq h).2
        have hlarge : ¬shots ≤ 64 := fun hsmall => hgoes (.inr (by omega))
        constructor
        · intro hle
          omega
        · rintro (hsmall | hfound)
          · exact absurd hsmall hlarge
          · rw [show min 64 shots = 64 by omega] at hrun
            exact absurd (.inl (hfound first hrun)) hgoes

end Batches

/-- What the client reports is what its counts add up to, where one batch was enough. -/
theorem client_counted {q : Qiskit} (hq : q.Faithful) {preset : ExperimentPreset} {shotBudget : Int}
    {result : ProviderLiveResult} (h : q.client preset shotBudget = .ok result) :
    result.reported ≤ result.rawCounts.sum ↔
      (preset = .groverDemo → q.OneBatch (max 1 shotBudget).toNat) := by
  unfold client at h
  split at h
  · rename_i answer hrun
    cases h
    unfold run at hrun
    split at hrun
    · cases hrun
    · split at hrun
      · rename_i hgrover
        split at hrun
        · cases hrun
        · rename_i counts used hbatches
          cases hrun
          have hused : used ≠ 0 := (groverBatches_used hq hbatches).1.ne'
          have hreported : ProviderLiveResult.reported
              { rawCounts := counts, expectedDistribution := some (expectedBaseline preset),
                fidelity := some (successProbability counts ["11"]), shotsUsed := some (used : Int) } = used :=
            if_neg (Int.natCast_ne_zero.mpr hused)
          rw [hreported, groverBatches_one hq hbatches]
          exact ⟨fun hone _ => hone, fun hone => hone hgrover⟩
      · rename_i hother
        split at hrun
        · cases hrun
        · rename_i counts hexecute
          cases hrun
          have hsum : counts.sum = ((max 1 shotBudget).toNat : Int) := hq _ _ _ _ hexecute
          have hreported : ProviderLiveResult.reported
              { rawCounts := counts, expectedDistribution := some (expectedBaseline preset),
                shotsUsed := some ((max 1 shotBudget).toNat : Int) } = counts.sum := by
            rw [ProviderLiveResult.reported, hsum]
            exact ite_self _
          rw [hreported]
          exact ⟨fun _ hgrover => absurd hgrover hother, fun _ => le_refl _⟩
  · cases h

end Qiskit

end SynQc.Engine
