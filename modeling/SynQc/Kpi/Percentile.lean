import Mathlib.Data.Rat.Floor
import SynQc.Kpi.Fidelity
import SynQc.Library.Fallible
import SynQc.Library.OrderStatistics

/-! The confidence intervals of `stats.py`: `percentile_ci` and `bootstrap_ci`.

The interval goes from one sample to another, by their ranks: the `alpha / 2` and `1 - alpha / 2` quantiles of
the ranks, rounded outwards. So it holds at least a fraction `1 - alpha` of the samples, for every number of
them and with samples that are equal (`percentileCi_covers`). -/
namespace SynQc.Kpi
open OrderStatistics Fallible

/-! ### The indices -/

/-- `lo_idx`, where `last` is the last index. -/
def loIdx (last : ℤ) (alpha : ℚ) : ℤ := max 0 ⌊alpha / 2 * last⌋

/-- `hi_idx` -/
def hiIdx (last : ℤ) (alpha : ℚ) : ℤ := min last ⌈(1 - alpha / 2) * last⌉

section Indices
variable {last : ℤ} {alpha : ℚ}

theorem loIdx_eq (hlast : 0 ≤ last) (h0 : 0 ≤ alpha) : loIdx last alpha = ⌊alpha / 2 * last⌋ := by
  have hlast' : (0 : ℚ) ≤ last := by exact_mod_cast hlast
  exact max_eq_right (Int.floor_nonneg.mpr (by positivity))

theorem hiIdx_eq (hlast : 0 ≤ last) (h0 : 0 ≤ alpha) : hiIdx last alpha = ⌈(1 - alpha / 2) * last⌉ := by
  have hlast' : (0 : ℚ) ≤ last := by exact_mod_cast hlast
  have hpart : 0 ≤ alpha / 2 * last := by positivity
  refine min_eq_right (Int.ceil_le.mpr ?_)
  linarith

/-- They are as far apart as the fraction of the last index. -/
theorem indices_apart (hlast : 0 ≤ last) (h0 : 0 ≤ alpha) :
    (1 - alpha) * last ≤ hiIdx last alpha - loIdx last alpha := by
  rw [loIdx_eq hlast h0, hiIdx_eq hlast h0]
  have hlo := Int.floor_le (alpha / 2 * last)
  have hhi := Int.le_ceil ((1 - alpha / 2) * last)
  linarith

/-- The indices are in range and in order. -/
theorem indices_le (hlast : 0 ≤ last) (h0 : 0 ≤ alpha) (h1 : alpha ≤ 1) :
    0 ≤ loIdx last alpha ∧ loIdx last alpha ≤ hiIdx last alpha ∧ hiIdx last alpha ≤ last := by
  have hlast' : (0 : ℚ) ≤ last := by exact_mod_cast hlast
  have hapart := indices_apart hlast h0
  have hfraction : 0 ≤ (1 - alpha) * last := mul_nonneg (sub_nonneg.mpr h1) hlast'
  refine ⟨le_max_left _ _, ?_, min_le_left _ _⟩
  exact_mod_cast sub_nonneg.mp (hfraction.trans hapart)

end Indices

/-! ### The interval -/

/-- `s[i]`, from the end where `i` is negative. -/
def subscript {β : Type*} (s : List β) (i : ℤ) : Except Exc β :=
  let j := if i < 0 then i + s.length else i
  if j < 0 then .error (.other "list index out of range")
  else
    match s[j.toNat]? with
    | some x => .ok x
    | none => .error (.other "list index out of range")

theorem subscript_natCast {β : Type*} {s : List β} {i : ℕ} (h : i < s.length) : subscript s i = .ok s[i] := by
  have hnonneg : ¬(i : ℤ) < 0 := not_lt.mpr (Int.natCast_nonneg i)
  rw [subscript, if_neg hnonneg, if_neg hnonneg, Int.toNat_natCast, List.getElem?_eq_getElem h]

section Interval
variable {β : Type*} [LinearOrder β]

def percentileCi (samples : List β) (alpha : ℚ) : Except Exc (β × β) :=
  if samples = [] then .error (.valueError "samples is empty")
  else do
    let s := ranked samples
    let lo ← subscript s (loIdx (s.length - 1) alpha)
    let hi ← subscript s (hiIdx (s.length - 1) alpha)
    return (lo, hi)


theorem percentileCi_perm {samples samples' : List β} (h : samples'.Perm samples) (alpha : ℚ) :
    percentileCi samples' alpha = percentileCi samples alpha := by
  rw [percentileCi, percentileCi, ranked_eq_of_perm h]
  have hnil : samples' = [] ↔ samples = [] := by
    rw [← List.length_eq_zero_iff, h.length_eq, List.length_eq_zero_iff]
  simp only [hnil]

/-- The interval is from one sample to another, with the fraction of the samples in it. -/
theorem exists_percentileCi {samples : List β} {alpha : ℚ} (hne : samples ≠ []) (h0 : 0 ≤ alpha) (h1 : alpha ≤ 1) :
    ∃ lo hi, percentileCi samples alpha = .ok (lo, hi) ∧ lo ∈ samples ∧ hi ∈ samples ∧ lo ≤ hi ∧
      (1 - alpha) * samples.length ≤ samples.countP (between lo hi) := by
  have hlast : (0 : ℤ) ≤ samples.length - 1 := by
    have := List.length_pos_iff.mpr hne
    omega
  obtain ⟨hlo, hle, hhi⟩ := indices_le hlast h0 h1
  have hapart := indices_apart hlast h0
  lift loIdx (samples.length - 1) alpha to ℕ using hlo with i hi
  lift hiIdx (samples.length - 1) alpha to ℕ using by omega with j hj
  have hij : i ≤ j := by omega
  have hj' : j < (ranked samples).length := by
    rw [length_ranked]
    omega
  refine ⟨(ranked samples)[i], (ranked samples)[j], ?_, getElem_ranked_mem _, getElem_ranked_mem hj',
    getElem_ranked_le hij hj', ?_⟩
  · rw [percentileCi, if_neg hne]
    simp only [length_ranked, ← hi, ← hj]
    rw [subscript_natCast (by omega), subscript_natCast hj']
    rfl
  · have hcount : ((j + 1 - i : ℕ) : ℚ) ≤ samples.countP (between (ranked samples)[i] (ranked samples)[j]) := by
      exact_mod_cast ranks_le_countP hij hj'
    rw [Nat.cast_sub (by omega)] at hcount
    push_cast at hapart hcount
    linarith

/-- **The interval covers**: its ends are samples, in order, the indices are those of samples, no less than a
fraction `1 - alpha` of the samples are in it, and only the samples matter, not their order. -/
theorem percentileCi_covers {samples : List β} {alpha : ℚ} (hne : samples ≠ []) (h0 : 0 ≤ alpha) (h1 : alpha ≤ 1) :
    (0 ≤ loIdx (samples.length - 1) alpha ∧ loIdx (samples.length - 1) alpha < samples.length) ∧
      (0 ≤ hiIdx (samples.length - 1) alpha ∧ hiIdx (samples.length - 1) alpha < samples.length) ∧
      (∃ lo hi, percentileCi samples alpha = .ok (lo, hi) ∧ lo ∈ samples ∧ hi ∈ samples ∧ lo ≤ hi ∧
        (1 - alpha) * samples.length ≤ samples.countP (between lo hi)) ∧
      ∀ samples' : List β, samples'.Perm samples → percentileCi samples' alpha = percentileCi samples alpha := by
  have hpos := List.length_pos_iff.mpr hne
  obtain ⟨hlo, hle, hhi⟩ := indices_le (show (0 : ℤ) ≤ samples.length - 1 by omega) h0 h1
  exact ⟨⟨hlo, by omega⟩, ⟨by omega, by omega⟩, exists_percentileCi hne h0 h1,
    fun samples' h => percentileCi_perm h alpha⟩

end Interval

/-- Five samples, two of them equal, of which half have to be covered. -/
theorem percentileCi_covers_ties :
    percentileCi [4, 1, 2, 1, 3] (1 / 2) = .ok ((1 : ℚ), 3) ∧
      (1 - 1 / 2) * (([4, 1, 2, 1, 3] : List ℚ).length : ℚ) ≤ ([4, 1, 2, 1, 3] : List ℚ).countP (between 1 3) ∧
      percentileCi [1, 1, 2, 3, 4] (1 / 2) = .ok ((1 : ℚ), 3) := by
  have hne : ([4, 1, 2, 1, 3] : List ℚ) ≠ [] := by decide
  have hperm : ([4, 1, 2, 1, 3] : List ℚ).Perm [1, 1, 2, 3, 4] := by decide +kernel
  have hranked : ranked ([4, 1, 2, 1, 3] : List ℚ) = [1, 1, 2, 3, 4] :=
    ((ranked_perm _).trans hperm).eq_of_pairwise' (ranked_sorted _) (by decide +kernel)
  have hvalue : (percentileCi ([4, 1, 2, 1, 3] : List ℚ) (1 / 2)).toOption = some (1, 3) := by
    rw [percentileCi, if_neg hne, hranked]
    decide +kernel
  obtain ⟨-, -, ⟨lo, hi, hci, -, -, -, hcovered⟩, horder⟩ :=
    percentileCi_covers hne (show (0 : ℚ) ≤ 1 / 2 by norm_num) (by norm_num)
  rw [hci] at hvalue
  obtain ⟨rfl, rfl⟩ := Prod.mk.inj (Option.some.inj hvalue)
  exact ⟨hci, hcovered, (horder [1, 1, 2, 3, 4] hperm.symm).trans hci⟩

/-! ### Resampling -/

/-- `Random(seed).choices(outcomes, weights=probs, k=n)` -/
abbrev Choices := (seed : ℤ) → List String → List ℚ → (n : ℕ) → List String

/-- It returns as many outcomes as it is asked for, of those that it is given. -/
def Choices.Draws (choices : Choices) : Prop :=
  ∀ seed outcomes probs n, (choices seed outcomes probs n).length = n ∧
    ∀ d ∈ choices seed outcomes probs n, d ∈ outcomes

def normalizeCounts (counts : Counts) : Except Exc (List String × List ℚ × ℤ) :=
  if counts.keys = [] then .error (.valueError "counts is empty")
  else if counts.sum ≤ 0 then .error (.valueError "counts total must be > 0")
  else .ok (counts.keys, counts.values.map fun (c : ℤ) => (c : ℚ) / counts.sum, counts.sum)

def multinomialResample (choices : Choices) (counts : Counts) (n : Option ℤ) (seed : ℤ) : Except Exc Counts := do
  let (outcomes, probs, total) ← normalizeCounts counts
  let n := n.getD total
  if n ≤ 0 then .error (.valueError "n must be > 0")
  else
    let draws := choices seed outcomes probs n.toNat
    return draws.foldl (fun out d => out.incr d 1) (Dict.empty.setEach outcomes fun _ => 0)

/-- Each draw of an outcome counts it once more, and brings no new one in. -/
theorem countDraws_spec {outcomes draws : List String} (hdraws : ∀ d ∈ draws, d ∈ outcomes) (out : Counts)
    (hout : ∀ k, out.get? k ≠ none ↔ k ∈ outcomes) :
    (draws.foldl (fun out d => out.incr d 1) out).sum = out.sum + draws.length ∧
      ∀ k, (draws.foldl (fun out d => out.incr d 1) out).get? k ≠ none ↔ k ∈ outcomes := by
  induction draws generalizing out with
  | nil => exact ⟨(add_zero _).symm, hout⟩
  | cons d draws ih =>
    have hkeys : ∀ k, (out.incr d 1).get? k ≠ none ↔ k ∈ outcomes := by
      intro k
      rw [Dict.incr, Dict.get?_set]
      split_ifs with hk
      · exact iff_of_true (Option.some_ne_none _) (hk ▸ hdraws d List.mem_cons_self)
      · exact hout k
    have hsum : Counts.sum (out.incr d 1) = out.sum + 1 := by
      have := Dict.total_incr out d 1 fun _ => True
      simpa only [if_true, Counts.sum] using this
    obtain ⟨hrest, hsupport⟩ := ih (fun d' hd' => hdraws d' (List.mem_cons_of_mem d hd')) (out.incr d 1) hkeys
    refine ⟨?_, hsupport⟩
    rw [List.foldl_cons, hrest, hsum, List.length_cons]
    push_cast
    ring

/-- Resampled counts have the outcomes of the input, and as many shots as were asked for. -/
theorem multinomialResample_spec {choices : Choices} {counts out : Counts} {n : Option ℤ} {seed : ℤ}
    (hchoices : choices.Draws) (h : multinomialResample choices counts n seed = .ok out) :
    out.sum = n.getD counts.sum ∧ ∀ k, out.get? k ≠ none ↔ k ∈ counts.keys := by
  obtain ⟨⟨outcomes, probs, total⟩, hnormal, h⟩ := bind_eq_ok.mp h
  rw [normalizeCounts] at hnormal
  split_ifs at hnormal
  obtain ⟨rfl, hrest⟩ := Prod.mk.inj (Except.ok.inj hnormal)
  obtain ⟨-, rfl⟩ := Prod.mk.inj hrest
  dsimp only at h
  split_ifs at h with hn
  obtain rfl := Except.ok.inj h
  obtain ⟨hlength, hdraws⟩ := hchoices seed counts.keys probs (n.getD counts.sum).toNat
  have hzero (k : String) : (Dict.empty.setEach counts.keys fun _ => (0 : ℤ)).get? k =
      if k ∈ counts.keys then some 0 else none := Dict.get?_setEach _ _ _ k
  obtain ⟨hsum, hsupport⟩ := countDraws_spec hdraws (Dict.empty.setEach counts.keys fun _ => 0) fun k => by
    rw [hzero]
    split_ifs with hk
    · exact iff_of_true nofun hk
    · exact iff_of_false (fun h => h rfl) hk
  refine ⟨?_, hsupport⟩
  have hempty : Counts.sum (Dict.empty.setEach counts.keys fun _ => 0) = 0 := by
    refine Dict.total_eq_zero fun k v hv => ?_
    rw [hzero] at hv
    split_ifs at hv
    exact (Option.some.inj hv).symm
  rw [hsum, hempty, hlength]
  omega

def bootstrapCi {β : Type} [LinearOrder β] (choices : Choices) (metricFn : Counts → Except Exc β) (counts : Counts)
    (nBoot : ℤ) (alpha : ℚ) (seed : ℤ) : Except Exc (β × β) := do
  if nBoot < 50 then .error (.valueError "n_boot should be >= 50 for a minimally stable CI")
  else
    let samples ← (List.range nBoot.toNat).mapM fun (i : ℕ) => do
      let res ← multinomialResample choices counts none (seed + (i : ℤ))
      metricFn res
    percentileCi samples alpha

section Bootstrap
variable {β : Type} [LinearOrder β] {choices : Choices} {metricFn : Counts → Except Exc β} {counts : Counts}
  {nBoot seed : ℤ} {alpha : ℚ} {lo hi : β}

/-- An interval of the bootstrap covers that fraction of the metric's values on the resampled counts, which
have the shots and the outcomes of the input. -/
theorem bootstrapCi_covers (h0 : 0 ≤ alpha) (h1 : alpha ≤ 1)
    (h : bootstrapCi choices metricFn counts nBoot alpha seed = .ok (lo, hi)) :
    ∃ samples : List β, (samples.length : ℤ) = nBoot ∧
      (∀ x ∈ samples, ∃ (i : ℕ) (res : Counts),
        multinomialResample choices counts none (seed + i) = .ok res ∧ metricFn res = .ok x ∧
          (choices.Draws → res.sum = counts.sum ∧ ∀ k, res.get? k ≠ none ↔ k ∈ counts.keys)) ∧
      lo ∈ samples ∧ hi ∈ samples ∧ lo ≤ hi ∧ (1 - alpha) * nBoot ≤ samples.countP (between lo hi) := by
  rw [bootstrapCi] at h
  split at h
  · cases h
  · rename_i hmany
    obtain ⟨samples, hsamples, hci⟩ := bind_eq_ok.mp h
    obtain ⟨hmapped, hvalues⟩ := mapM_spec hsamples
    have hlength : (samples.length : ℤ) = nBoot := by
      rw [hmapped, List.length_range]
      omega
    have hne : samples ≠ [] := by
      rintro rfl
      rw [List.length_nil] at hlength
      omega
    obtain ⟨lo', hi', hok, hlo, hhi, hle, hcount⟩ := exists_percentileCi hne h0 h1
    rw [hci] at hok
    obtain ⟨rfl, rfl⟩ := Prod.mk.inj (Except.ok.inj hok)
    refine ⟨samples, hlength, ?_, hlo, hhi, hle, ?_⟩
    · intro x hx
      obtain ⟨i, -, hi⟩ := hvalues x hx
      obtain ⟨res, hres, hmetric⟩ := bind_eq_ok.mp hi
      exact ⟨i, res, hres, hmetric, fun hchoices => multinomialResample_spec hchoices hres⟩
    · rw [← hlength]
      exact_mod_cast hcount

end Bootstrap

/-! ### The interval of the fidelity -/

noncomputable def fidelityDistCi95FromCounts (choices : Choices) (counts : Counts) (expectedQ : Dict String ℝ)
    (nBoot seed : ℤ) : Except Exc (ℝ × ℝ) :=
  bootstrapCi choices (fun resampled => fidelityDistFromCounts resampled expectedQ) counts nBoot (1 / 20) seed

/-- Whatever the guard lets through is between nought and one. -/
theorem fidelityDistFromCounts_range {counts : Counts} {expectedQ : Dict String ℝ} {f : ℝ}
    (h : fidelityDistFromCounts counts expectedQ = .ok f) : 0 ≤ f ∧ f ≤ 1 := by
  obtain ⟨pHat, -, h⟩ := bind_eq_ok.mp h
  obtain ⟨s, -, h⟩ := bind_eq_ok.mp h
  obtain rfl := Except.ok.inj h
  have h0 : 0 ≤ max 0 (min 1 s) := le_max_left _ _
  have h1 : max 0 (min 1 s) ≤ 1 := max_le zero_le_one (min_le_left _ _)
  exact ⟨mul_nonneg h0 h0, mul_le_one₀ h1 h0 h1⟩

/-- The interval is one of fidelities. -/
theorem fidelityDistCi95_range {choices : Choices} {counts : Counts} {expectedQ : Dict String ℝ} {nBoot seed : ℤ}
    {lo hi : ℝ} (h : fidelityDistCi95FromCounts choices counts expectedQ nBoot seed = .ok (lo, hi)) :
    0 ≤ lo ∧ lo ≤ hi ∧ hi ≤ 1 := by
  obtain ⟨samples, -, hvalues, hlo, hhi, hle, -⟩ := bootstrapCi_covers (by norm_num) (by norm_num) h
  obtain ⟨_, _, -, hlo', -⟩ := hvalues lo hlo
  obtain ⟨_, _, -, hhi', -⟩ := hvalues hi hhi
  exact ⟨(fidelityDistFromCounts_range hlo').1, hle, (fidelityDistFromCounts_range hhi').2⟩

end SynQc.Kpi
