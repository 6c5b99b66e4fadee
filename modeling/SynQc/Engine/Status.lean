import SynQc.Engine.Run
import SynQc.Storage.ControlProfiles

/-! The status of a run against the status of its parts.

A backend sets the status from the fidelity it measured. The engine then moves the fidelity
by the drive bias and does not look at the thresholds again, and it sets the status to WARN
where the backaction is high and a guard is off, also where the backend had set FAIL. The
bump for large shot budgets, which the source says is not to touch a FAIL, does not. So a
run may say less than its backend did, or than its own fidelity does
(`status_holds_iff`). The sums are rounded to doubles before they are compared, which moves a
fidelity by less than a last place (`shifted_near`). -/
namespace SynQc.Engine
open Binary64

/-- OK < WARN < FAIL -/
def severity : ExperimentStatus → Nat
  | .ok => 0
  | .warn => 1
  | .fail => 2

/-- The status of a run is at least what the backend said, and at least what the backends'
thresholds say of the fidelity it reports. -/
structure NotUnderstated (provided : KpiBundle) (run : RunExperimentResponse) : Prop where
  backend : severity provided.status ≤ severity run.kpis.status
  reported : severity (statusOf run.kpis.fidelity) ≤ severity run.kpis.status

/-! ### What the profile does -/

/-- The fidelity as the drive bias moves it, before it is cut off at 0 and 1. -/
def shifted (controls : ControlProfile) (fidelity : ℚ) : ℚ :=
  double (fidelity + double (double (8 / 100) * double (controls.driveBias - 1)))

/-- The backaction as the probe window and the thermal guard move it, before it is cut off. -/
def disturbed (controls : ControlProfile) (backaction : ℚ) : ℚ :=
  let delta := double (double (5 / 100) * double (double (double controls.probeWindowNs / 500) - 1))
  double (backaction + if controls.thermalGuardEnabled then delta else double (delta + double (4 / 100)))

/-- The profile sets the status to WARN. -/
def Overrides (kpis : KpiBundle) (controls : ControlProfile) : Prop :=
  (∃ backaction, kpis.backaction = some backaction ∧ double (32 / 100) < disturbed controls backaction) ∧
    (controls.thermalGuardEnabled = false ∨ controls.safetyClampNs = 0)

theorem fail_threshold : 0 < double (9 / 10) ∧ double (9 / 10) ≤ 1 := by
  decide +kernel

theorem warn_threshold : 0 < double (94 / 100) ∧ double (94 / 100) ≤ 1 := by
  decide +kernel

theorem backaction_threshold : 0 < double (32 / 100) ∧ double (32 / 100) < 1 := by
  decide +kernel

theorem thresholds_le : double (9 / 10) ≤ double (94 / 100) := by
  decide +kernel

theorem cut_lt {x bound : ℚ} (hpos : 0 < bound) (hle : bound ≤ 1) : max 0 (min 1 x) < bound ↔ x < bound := by
  rw [max_lt_iff, min_lt_iff]
  constructor
  · rintro ⟨_, h | h⟩
    · exact absurd h (not_lt.mpr hle)
    · exact h
  · exact fun h => ⟨hpos, .inr h⟩

theorem lt_cut {x bound : ℚ} (hpos : 0 < bound) (hlt : bound < 1) : bound < max 0 (min 1 x) ↔ bound < x := by
  rw [lt_max_iff, lt_min_iff]
  constructor
  · rintro (h | ⟨_, h⟩)
    · exact absurd h (not_lt.mpr hpos.le)
    · exact h
  · exact fun h => .inr ⟨hlt, h⟩

theorem applyControlProfile_overrides {kpis : KpiBundle} {controls : ControlProfile} (h : Overrides kpis controls) :
    (applyControlProfile kpis controls).status = .warn := by
  obtain ⟨⟨backaction, hsome, hhigh⟩, hguard⟩ := h
  have hcut : double (32 / 100) < max 0 (min 1 (disturbed controls backaction)) :=
    (lt_cut backaction_threshold.1 backaction_threshold.2).mpr hhigh
  have hguard' : (!controls.thermalGuardEnabled) = true ∨ controls.safetyClampNs = 0 :=
    hguard.imp (fun hoff => by rw [hoff]; rfl) id
  simp only [applyControlProfile, hsome, Option.map_some, Option.any_some]
  exact if_pos ⟨decide_eq_true hcut, hguard'⟩

theorem applyControlProfile_keeps {kpis : KpiBundle} {controls : ControlProfile} (h : ¬Overrides kpis controls) :
    (applyControlProfile kpis controls).status = kpis.status := by
  refine if_neg ?_
  rintro ⟨hany, hguard⟩
  cases hsome : kpis.backaction with
  | none =>
    rw [hsome] at hany
    cases hany
  | some backaction =>
    rw [hsome] at hany
    have hcut : double (32 / 100) < max 0 (min 1 (disturbed controls backaction)) := of_decide_eq_true hany
    have hhigh := (lt_cut backaction_threshold.1 backaction_threshold.2).mp hcut
    refine h ⟨⟨backaction, hsome, hhigh⟩, hguard.imp (fun hoff => ?_) id⟩
    rw [Bool.not_eq_true'] at hoff
    exact hoff

/-- What the thresholds say of a moved fidelity is what they say of it before the cut. -/
theorem statusOf_shifted (controls : ControlProfile) (fidelity : Option ℚ) :
    statusOf (fidelity.map fun f => max 0 (min 1 (shifted controls f))) =
      statusOf (fidelity.map (shifted controls)) := by
  cases fidelity with
  | none => rfl
  | some f =>
    have hfail : max 0 (min 1 (shifted controls f)) < double (9 / 10) ↔ shifted controls f < double (9 / 10) :=
      cut_lt fail_threshold.1 fail_threshold.2
    have hwarn : max 0 (min 1 (shifted controls f)) < double (94 / 100) ↔ shifted controls f < double (94 / 100) :=
      cut_lt warn_threshold.1 warn_threshold.2
    simp only [statusOf, Option.map_some, hfail, hwarn]

/-! ### The status of a run -/

/-- The bump for a budget above the default, on anything but the local simulator. -/
def WarnsForTarget (s : Settings) (req : RunExperimentRequest) : Prop :=
  req.hardwareTarget ≠ .simLocal ∧ effectiveShots s req > s.defaultShotBudget

/-- When the status holds. A FAIL must not be overridden; below that, the moved fidelity must
stay at 0.90, and at 0.94 where nothing makes the run a WARN, all of it as rounded. -/
def StatusHolds (s : Settings) (req : RunExperimentRequest) (controls : ControlProfile) (provided : KpiBundle) : Prop :=
  if provided.status = .fail then ¬Overrides provided controls
  else ∀ f, provided.fidelity = some f → double (9 / 10) ≤ shifted controls f ∧
    (provided.status = .warn ∨ Overrides provided controls ∨ WarnsForTarget s req ∨
      double (94 / 100) ≤ shifted controls f)

/-! ### How far rounding moves the fidelity -/

theorem drive_gain_near {bias : ℚ} (hbias : |bias - 1| ≤ 1 / 2) :
    |double (double (8 / 100) * double (bias - 1)) - 8 / 100 * (bias - 1)| ≤ 2 ^ (-55 : ℤ) := by
  have hbelow : |(8 : ℚ) / 100| < 2 ^ (-3 : ℤ) := by norm_num [abs_of_pos]
  have hbelow' : |bias - 1| < 2 ^ (0 : ℤ) := by
    rw [zpow_zero]
    linarith
  have hunit := double_error_of_lt (by decide) hbelow
  have hoffset := double_error_of_lt (by decide) hbelow'
  generalize double (8 / 100) = unit at *
  generalize double (bias - 1) = offset at *
  have hunit8 : |unit| ≤ 1 / 10 := by
    have := abs_sub_abs_le_abs_sub unit (8 / 100)
    norm_num [abs_of_pos] at this hunit ⊢
    linarith
  have hoffset1 : |offset| ≤ 1 := by
    have := abs_sub_abs_le_abs_sub offset (bias - 1)
    norm_num at hoffset
    linarith
  have hproduct : |unit * offset - 8 / 100 * (bias - 1)| ≤ 2 ^ (-56 : ℤ) := by
    calc |unit * offset - 8 / 100 * (bias - 1)|
        = |unit * (offset - (bias - 1)) + (unit - 8 / 100) * (bias - 1)| := by ring_nf
      _ ≤ |unit| * |offset - (bias - 1)| + |unit - 8 / 100| * |bias - 1| := by
        rw [← abs_mul, ← abs_mul]
        exact abs_add_le _ _
      _ ≤ 1 / 10 * 2 ^ (0 - 54 : ℤ) + 2 ^ (-3 - 54 : ℤ) * (1 / 2) := by gcongr
      _ ≤ 2 ^ (-56 : ℤ) := by norm_num
  have hsmall : |unit * offset| < 2 ^ (-3 : ℤ) := by
    rw [abs_mul]
    calc |unit| * |offset| ≤ 1 / 10 * 1 := by gcongr
      _ < 2 ^ (-3 : ℤ) := by norm_num
  have hround := double_error_of_lt (by decide) hsmall
  calc |double (unit * offset) - 8 / 100 * (bias - 1)|
      ≤ |double (unit * offset) - unit * offset| + |unit * offset - 8 / 100 * (bias - 1)| := abs_sub_le _ _ _
    _ ≤ 2 ^ (-3 - 54 : ℤ) + 2 ^ (-56 : ℤ) := add_le_add hround hproduct
    _ ≤ 2 ^ (-55 : ℤ) := by norm_num

/-- By less than the last place of one, for a fidelity and a bias within their bounds. -/
theorem shifted_near {controls : ControlProfile} {f : ℚ} (hf : |f| ≤ 1) (hbias : |controls.driveBias - 1| ≤ 1 / 2) :
    |shifted controls f - (f + 8 / 100 * (controls.driveBias - 1))| ≤ 2 ^ (-52 : ℤ) := by
  have hgain := drive_gain_near hbias
  rw [shifted]
  generalize double (double (8 / 100) * double (controls.driveBias - 1)) = gain at *
  have hlarge : |8 / 100 * (controls.driveBias - 1)| ≤ 1 / 25 := by
    rw [abs_mul, abs_of_pos (by norm_num)]
    linarith
  have hgain1 : |gain| < 1 := by
    have := abs_sub_abs_le_abs_sub gain (8 / 100 * (controls.driveBias - 1))
    norm_num at hgain
    linarith
  have hsum : |f + gain| < 2 ^ (1 : ℤ) := by
    have := abs_add_le f gain
    norm_num
    linarith
  have hround := double_error_of_lt (by decide) hsum
  calc |double (f + gain) - (f + 8 / 100 * (controls.driveBias - 1))|
      ≤ |double (f + gain) - (f + gain)| + |f + gain - (f + 8 / 100 * (controls.driveBias - 1))| := abs_sub_le _ _ _
    _ ≤ 2 ^ (1 - 54 : ℤ) + 2 ^ (-55 : ℤ) := by
      rw [add_sub_add_left_eq_sub]
      exact add_le_add hround hgain
    _ ≤ 2 ^ (-52 : ℤ) := by norm_num

/-- A fidelity that is moved to no less than 0.94 and a last place has the status of its backend. -/
theorem statusHolds_of_margin {s : Settings} {req : RunExperimentRequest} {controls : ControlProfile}
    {provided : KpiBundle} (hvalid : ControlProfiles.isValid controls = true) (hbackend : provided.status ≠ .fail)
    (hfidelity : ∀ f, provided.fidelity = some f →
      |f| ≤ 1 ∧ 94 / 100 + 2 ^ (-52 : ℤ) ≤ f + 8 / 100 * (controls.driveBias - 1)) :
    StatusHolds s req controls provided := by
  have hbias : |controls.driveBias - 1| ≤ 1 / 2 := by
    rw [ControlProfiles.isValid] at hvalid
    simp only [Bool.and_eq_true, decide_eq_true_eq] at hvalid
    obtain ⟨⟨⟨⟨⟨hlow, hhigh⟩, -⟩, -⟩, -⟩, -⟩ := hvalid
    rw [abs_le]
    constructor <;> linarith
  have hrounded : double (94 / 100) ≤ 94 / 100 := by
    decide +kernel
  rw [StatusHolds, if_neg hbackend]
  intro f hf
  obtain ⟨hone, hmargin⟩ := hfidelity f hf
  have hnear := (abs_le.mp (shifted_near hone hbias)).1
  have hhigh : double (94 / 100) ≤ shifted controls f := by linarith
  exact ⟨thresholds_le.trans hhigh, .inr (.inr (.inr hhigh))⟩

theorem finalKpis_status (i : RunInputs) (controls : ControlProfile) (effective : Int × Bool) (kpis : KpiBundle) :
    (finalKpis i controls effective kpis).status =
      if effective.2 ∧ (applyControlProfile kpis controls).status ≠ .fail then .warn
      else (applyControlProfile kpis controls).status := by
  show (warn effective.2 (fillShots effective.1 (applyControlProfile kpis controls))).status = _
  unfold warn
  split
  · rename_i hbump
    exact (if_pos hbump).symm
  · rename_i hbump
    exact (if_neg hbump).symm

section Final
variable {i : RunInputs} {controls : ControlProfile} {effective : Int × Bool} {kpis : KpiBundle}

theorem final_overridden (h : Overrides kpis controls) : (finalKpis i controls effective kpis).status = .warn := by
  rw [finalKpis_status, applyControlProfile_overrides h]
  split
  · rfl
  · rfl

theorem final_fail (h : ¬Overrides kpis controls) (hfail : kpis.status = .fail) :
    (finalKpis i controls effective kpis).status = .fail := by
  rw [finalKpis_status, applyControlProfile_keeps h, hfail]
  exact if_neg fun hbump => hbump.2 rfl

theorem final_bumped (h : ¬Overrides kpis controls) (hfail : kpis.status ≠ .fail) (hbump : effective.2 = true) :
    (finalKpis i controls effective kpis).status = .warn := by
  rw [finalKpis_status, applyControlProfile_keeps h]
  exact if_pos ⟨hbump, hfail⟩

theorem final_kept (h : ¬Overrides kpis controls) (hbump : effective.2 = false) :
    (finalKpis i controls effective kpis).status = kpis.status := by
  rw [finalKpis_status, applyControlProfile_keeps h, hbump]
  exact if_neg fun hboth => Bool.false_ne_true hboth.1

end Final

theorem finalKpis_fidelity (i : RunInputs) (controls : ControlProfile) (effective : Int × Bool) (kpis : KpiBundle) :
    (finalKpis i controls effective kpis).fidelity = kpis.fidelity.map fun f => max 0 (min 1 (shifted controls f)) := by
  unfold finalKpis warn
  split
  · rfl
  · rfl

theorem severity_le_ok {status : ExperimentStatus} : severity status ≤ severity .ok ↔ status = .ok := by
  cases status <;> decide

theorem severity_le_warn {status : ExperimentStatus} : severity status ≤ severity .warn ↔ status ≠ .fail := by
  cases status <;> decide

theorem severity_le_fail (status : ExperimentStatus) : severity status ≤ severity .fail := by
  cases status <;> decide

theorem statusOf_ne_fail {fidelity : Option ℚ} :
    statusOf fidelity ≠ .fail ↔ ∀ f, fidelity = some f → double (9 / 10) ≤ f := by
  cases fidelity with
  | none => simp [statusOf]
  | some f =>
    by_cases hfail : f < double (9 / 10)
    · simp [statusOf, hfail]
    · by_cases hwarn : f < double (94 / 100)
      · simp [statusOf, hfail, hwarn, not_lt.mp hfail]
      · simp [statusOf, hfail, hwarn, not_lt.mp hfail]

theorem statusOf_eq_ok {fidelity : Option ℚ} :
    statusOf fidelity = .ok ↔ ∀ f, fidelity = some f → double (94 / 100) ≤ f := by
  cases fidelity with
  | none => simp [statusOf]
  | some f =>
    by_cases hfail : f < double (9 / 10)
    · have hlt : ¬double (94 / 100) ≤ f := not_le.mpr (hfail.trans_le thresholds_le)
      simp [statusOf, hfail, hlt]
    · by_cases hwarn : f < double (94 / 100)
      · simp [statusOf, hfail, hwarn]
      · simp [statusOf, hfail, hwarn, not_lt.mp hwarn]

/-- A bound on the moved fidelity is one on the fidelity moved. -/
theorem forall_shifted {controls : ControlProfile} {fidelity : Option ℚ} {bound : ℚ} :
    (∀ f, fidelity.map (shifted controls) = some f → bound ≤ f) ↔
      ∀ f, fidelity = some f → bound ≤ shifted controls f := by
  constructor
  · intro h f hf
    exact h (shifted controls f) (by rw [hf]; rfl)
  · intro h shiftedF hshifted
    obtain ⟨f, hf, rfl⟩ := Option.map_eq_some_iff.mp hshifted
    exact h f hf

/-- What the thresholds ask of the moved fidelity, for a run that ends as a WARN. -/
theorem statusOf_ne_fail_shifted {controls : ControlProfile} {fidelity : Option ℚ} :
    statusOf (fidelity.map (shifted controls)) ≠ .fail ↔
      ∀ f, fidelity = some f → double (9 / 10) ≤ shifted controls f := by
  rw [statusOf_ne_fail]
  exact forall_shifted

/-- And for one that ends as OK. -/
theorem statusOf_eq_ok_shifted {controls : ControlProfile} {fidelity : Option ℚ} :
    statusOf (fidelity.map (shifted controls)) = .ok ↔
      ∀ f, fidelity = some f → double (94 / 100) ≤ shifted controls f := by
  rw [statusOf_eq_ok]
  exact forall_shifted

section Holds
variable {s : Settings} {i : RunInputs} {req : RunExperimentRequest} {runId : Option RunId} {run : RunExperimentResponse}
  {provided : KpiBundle}

/-- What the two bounds come to, given the status the run ends with. -/
theorem notUnderstated_iff {controls : ControlProfile}
    (hfidelity : run.kpis.fidelity = provided.fidelity.map fun f => max 0 (min 1 (shifted controls f))) :
    NotUnderstated provided run ↔ severity provided.status ≤ severity run.kpis.status ∧
      severity (statusOf (provided.fidelity.map (shifted controls))) ≤ severity run.kpis.status := by
  rw [← statusOf_shifted, ← hfidelity]
  exact ⟨fun h => ⟨h.backend, h.reported⟩, fun h => ⟨h.1, h.2⟩⟩

/-- **The status of a run is never understated exactly when no FAIL is overridden and the drive
bias takes no fidelity below its threshold.** -/
theorem status_holds_iff (h : runExperiment s i req runId = .ok run)
    (hprovided : Providers.runExperiment s i.world req.hardwareTarget req.preset (effectiveShots s req) = .ok provided) :
    NotUnderstated provided run ↔ StatusHolds s req (req.controlOverrides.getD i.controls) provided := by
  obtain ⟨effective, heffective, hrun⟩ := runExperiment_ok h
  have hshape := applyShotGuardrails_ok heffective
  have hbudget : effective.1 = effectiveShots s req := congrArg Prod.fst hshape
  have hbump : effective.2 = true ↔ WarnsForTarget s req := by
    rw [congrArg Prod.snd hshape]
    exact decide_eq_true_iff
  have hkpis := execute_kpis (hbudget ▸ hprovided) hrun
  generalize req.controlOverrides.getD i.controls = controls at hkpis ⊢
  rw [notUnderstated_iff (by rw [hkpis, finalKpis_fidelity]), hkpis, StatusHolds]
  by_cases hover : Overrides provided controls
  · rw [final_overridden hover, severity_le_warn, severity_le_warn, statusOf_ne_fail_shifted]
    by_cases hfail : provided.status = .fail
    · rw [if_pos hfail]
      exact ⟨fun hboth => absurd hfail hboth.1, fun hnot => absurd hover hnot⟩
    · rw [if_neg hfail]
      exact ⟨fun hboth f hf => ⟨hboth.2 f hf, .inr (.inl hover)⟩, fun hall => ⟨hfail, fun f hf => (hall f hf).1⟩⟩
  · by_cases hfail : provided.status = .fail
    · rw [final_fail hover hfail, if_pos hfail]
      exact ⟨fun _ => hover, fun _ => ⟨severity_le_fail _, severity_le_fail _⟩⟩
    · rw [if_neg hfail]
      by_cases hwarns : WarnsForTarget s req
      · rw [final_bumped hover hfail (hbump.mpr hwarns), severity_le_warn, severity_le_warn, statusOf_ne_fail_shifted]
        exact ⟨fun hboth f hf => ⟨hboth.2 f hf, .inr (.inr (.inl hwarns))⟩,
          fun hall => ⟨hfail, fun f hf => (hall f hf).1⟩⟩
      · have hoff : effective.2 = false := Bool.eq_false_iff.mpr fun hon => hwarns (hbump.mp hon)
        rw [final_kept hover hoff]
        cases hstatus : provided.status with
        | fail => exact absurd hstatus hfail
        | warn =>
          rw [severity_le_warn, severity_le_warn, statusOf_ne_fail_shifted]
          exact ⟨fun hboth f hf => ⟨hboth.2 f hf, .inl rfl⟩, fun hall => ⟨nofun, fun f hf => (hall f hf).1⟩⟩
        | ok =>
          rw [severity_le_ok, severity_le_ok, statusOf_eq_ok_shifted]
          constructor
          · intro hboth f hf
            have hhigh := hboth.2 f hf
            exact ⟨thresholds_le.trans hhigh, .inr (.inr (.inr hhigh))⟩
          · intro hall
            refine ⟨rfl, fun f hf => ?_⟩
            rcases (hall f hf).2 with hok | hok | hok | hok
            · cases hok
            · exact absurd hok hover
            · exact absurd hok hwarns
            · exact hok

end Holds

/-- A reported fidelity just below its threshold, which exact arithmetic puts on it. -/
example : shifted { driveBias := double (98 / 100) } (double (9016 / 10000)) < double (9 / 10) := by
  decide +kernel

/-! ### A FAIL that becomes a WARN -/

/-- A provider's reply with a low fidelity and a high backaction. -/
def poorReply : LiveClient := fun _ _ =>
  .ok { rawCounts := Dict.empty.set "00" 100, fidelity := some (85 / 100), backaction := some (5 / 10) }

/-- A request for its KPIs with the thermal guard off. -/
def unguarded : RunExperimentRequest :=
  { preset := .health, hardwareTarget := .ibmQuantum, shotBudget := some 100,
    controlOverrides := some { thermalGuardEnabled := false } }

/-- The same request with a profile that has the guard on. -/
def guarded : RunExperimentRequest :=
  { preset := .health, hardwareTarget := .ibmQuantum, shotBudget := some 100, controlOverrides := some {} }

theorem status_holds_guarded :
    ∃ run provided, runExperiment {} (plainInputs (some poorReply)) guarded = .ok run ∧ provided.status = .fail ∧
      (NotUnderstated provided run ↔
        StatusHolds {} guarded (guarded.controlOverrides.getD (plainInputs (some poorReply)).controls) provided) := by
  have hrun : ∃ run, runExperiment {} (plainInputs (some poorReply)) guarded = .ok run := ⟨_, rfl⟩
  have hprovided : ∃ provided, Providers.runExperiment {} (plainInputs (some poorReply)).world guarded.hardwareTarget
      guarded.preset (effectiveShots {} guarded) = .ok provided ∧ provided.status = .fail := ⟨_, rfl, by decide +kernel⟩
  obtain ⟨run, hrun⟩ := hrun
  obtain ⟨provided, hprovided, hfail⟩ := hprovided
  exact ⟨run, provided, hrun, hfail, status_holds_iff hrun hprovided⟩

/-- The backend says FAIL, and so does the fidelity; the run is a WARN. -/
theorem fail_becomes_warn :
    ¬∀ (s : Settings) (i : RunInputs) (req : RunExperimentRequest) (runId : Option RunId) (run : RunExperimentResponse)
      (provided : KpiBundle), ControlProfiles.isValid (req.controlOverrides.getD i.controls) = true →
      runExperiment s i req runId = .ok run →
      Providers.runExperiment s i.world req.hardwareTarget req.preset (effectiveShots s req) = .ok provided →
        NotUnderstated provided run := by
  intro hclaim
  have hrun : ∃ run, runExperiment {} (plainInputs (some poorReply)) unguarded = .ok run ∧ run.kpis.status = .warn :=
    ⟨_, rfl, by decide +kernel⟩
  have hprovided : ∃ provided, Providers.runExperiment {} (plainInputs (some poorReply)).world .ibmQuantum .health
      (effectiveShots {} unguarded) = .ok provided ∧ provided.status = .fail := ⟨_, rfl, by decide +kernel⟩
  obtain ⟨run, hrun, hwarn⟩ := hrun
  obtain ⟨provided, hprovided, hfail⟩ := hprovided
  have hle := (hclaim {} _ unguarded none run provided (by decide +kernel) hrun hprovided).backend
  rw [hwarn, hfail] at hle
  exact absurd hle (by decide)

end SynQc.Engine
