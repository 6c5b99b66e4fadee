import SynQc.Library.Overlap
import SynQc.Models

/-! The distribution fidelity of `kpi_estimators.py`.

An empirical distribution is the counts over their total, on the outcomes of either side, and the fidelity
is the square of the overlap over those outcomes. The order in which a set of outcomes is gone through does
not matter to the sum, so the lists here stand for the sets of the source. Over the reals the overlap of
two distributions is between nought and one, and the guard that clamps it never acts
(`fidelity_similarity`). -/
namespace SynQc.Kpi
open Overlap

/-! ### The estimators -/

/-- `set(p.keys()) | set(q.keys())` -/
def unionKeys {α β : Type*} (p : Dict String α) (q : Dict String β) : List String :=
  p.keys ++ q.keys.filter fun k => k ∉ p.keys

/-- `counts.get(k, 0)` -/
def countOf (counts : Counts) (k : String) : Int := (counts.get? k).getD 0

/-- `q.get(k, 0.0)` -/
noncomputable def probabilityOf (q : Dict String ℝ) (k : String) : ℝ := (q.get? k).getD 0

noncomputable def distributionFromCounts (counts : Counts) (support : Option (List String)) :
    Except Exc (Dict String ℝ) :=
  if counts.keys = [] then .error (.valueError "counts is empty")
  else if counts.sum ≤ 0 then .error (.valueError "counts total must be > 0")
  else .ok (Dict.empty.setEach (support.getD counts.keys) fun k => countOf counts k / counts.sum)

/-- The loop over the outcomes, `s` being the sum so far. -/
noncomputable def addOverlap (p q : Dict String ℝ) (s : ℝ) (k : String) : Except Exc ℝ :=
  if probabilityOf p k < 0 ∨ probabilityOf q k < 0 then .error (.valueError "probabilities must be nonnegative")
  else .ok (s + √(probabilityOf p k * probabilityOf q k))

/-- The sum over all outcomes, before the numerical guard. -/
noncomputable def overlapSum (p q : Dict String ℝ) : Except Exc ℝ :=
  if unionKeys p q = [] then .error (.valueError "distributions must have at least one outcome")
  else (unionKeys p q).foldlM (addOverlap p q) 0

noncomputable def distributionFidelity (p q : Dict String ℝ) : Except Exc ℝ := do
  let s ← overlapSum p q
  -- numerical guard
  let s := max 0 (min 1 s)
  return s * s

noncomputable def fidelityDistFromCounts (counts : Counts) (expectedQ : Dict String ℝ) : Except Exc ℝ := do
  let support := unionKeys counts expectedQ
  let pHat ← distributionFromCounts counts (some support)
  distributionFidelity pHat expectedQ

/-! ### The sum over the outcomes -/

section Sum
variable {p q : Dict String ℝ}

theorem mem_unionKeys {α β : Type*} {p : Dict String α} {q : Dict String β} {k : String} :
    k ∈ unionKeys p q ↔ k ∈ p.keys ∨ k ∈ q.keys := by
  rw [unionKeys, List.mem_append, List.mem_filter, decide_eq_true_eq]
  tauto

theorem nodup_unionKeys {α β : Type*} (p : Dict String α) (q : Dict String β) : (unionKeys p q).Nodup := by
  refine List.nodup_append.mpr ⟨p.nodup, q.nodup.filter _, ?_⟩
  rintro k hk _ hk' rfl
  exact of_decide_eq_true (List.mem_filter.mp hk').2 hk

/-- Both loops go through the same set of outcomes. -/
theorem toFinset_unionKeys_comm (p q : Dict String ℝ) : (unionKeys p q).toFinset = (unionKeys q p).toFinset := by
  ext k
  rw [List.mem_toFinset, List.mem_toFinset, mem_unionKeys, mem_unionKeys, or_comm]

def Negative (p q : Dict String ℝ) (k : String) : Prop := probabilityOf p k < 0 ∨ probabilityOf q k < 0

theorem foldlM_addOverlap_error (keys : List String) (s : ℝ) (h : ∃ k ∈ keys, Negative p q k) :
    keys.foldlM (addOverlap p q) s = .error (.valueError "probabilities must be nonnegative") := by
  induction keys generalizing s with
  | nil => simp at h
  | cons k keys ih =>
    rw [List.foldlM_cons, addOverlap]
    split
    · rfl
    · rename_i hk
      obtain ⟨j, hj, hneg⟩ := h
      obtain rfl | hj := List.mem_cons.mp hj
      · exact absurd hneg hk
      · exact ih _ ⟨j, hj, hneg⟩

theorem foldlM_addOverlap_ok (keys : List String) (s : ℝ) (h : ∀ k ∈ keys, ¬Negative p q k) :
    keys.foldlM (addOverlap p q) s = .ok (s + (keys.map fun k => √(probabilityOf p k * probabilityOf q k)).sum) := by
  induction keys generalizing s with
  | nil => simp [pure, Except.pure]
  | cons k keys ih =>
    have hk : ¬(probabilityOf p k < 0 ∨ probabilityOf q k < 0) := h k List.mem_cons_self
    rw [List.foldlM_cons, addOverlap, if_neg hk, List.map_cons, List.sum_cons, ← add_assoc]
    exact ih _ fun j hj => h j (List.mem_cons_of_mem k hj)

/-- The loop over an outcome in either is the overlap over the set of outcomes, if there is an outcome and
no negative probability. -/
theorem overlapSum_ok (hne : unionKeys p q ≠ []) (h : ∀ k ∈ unionKeys p q, ¬Negative p q k) :
    overlapSum p q = .ok (overlap (unionKeys p q).toFinset (probabilityOf p) (probabilityOf q)) := by
  rw [overlapSum, if_neg hne, foldlM_addOverlap_ok _ _ h, zero_add, overlap,
    List.sum_toFinset _ (nodup_unionKeys p q)]

theorem overlapSum_comm (p q : Dict String ℝ) : overlapSum p q = overlapSum q p := by
  have hset := toFinset_unionKeys_comm p q
  have hmem : ∀ k, k ∈ unionKeys p q ↔ k ∈ unionKeys q p := by
    intro k
    rw [← List.mem_toFinset, hset, List.mem_toFinset]
  have hneg : ∀ k, Negative p q k ↔ Negative q p k := fun k => or_comm
  by_cases hne : unionKeys p q = []
  · have hne' : unionKeys q p = [] := by
      rw [← List.toFinset_eq_empty_iff, ← hset, hne, List.toFinset_nil]
    rw [overlapSum, overlapSum, if_pos hne, if_pos hne']
  · have hne' : unionKeys q p ≠ [] := by
      rwa [Ne, ← List.toFinset_eq_empty_iff, ← hset, List.toFinset_eq_empty_iff]
    by_cases h : ∃ k ∈ unionKeys p q, Negative p q k
    · have h' : ∃ k ∈ unionKeys q p, Negative q p k := by
        obtain ⟨k, hk, hkneg⟩ := h
        exact ⟨k, (hmem k).mp hk, (hneg k).mp hkneg⟩
      rw [overlapSum, overlapSum, if_neg hne, if_neg hne', foldlM_addOverlap_error _ _ h,
        foldlM_addOverlap_error _ _ h']
    · have hok : ∀ k ∈ unionKeys p q, ¬Negative p q k := fun k hk hkneg => h ⟨k, hk, hkneg⟩
      have hok' : ∀ k ∈ unionKeys q p, ¬Negative q p k :=
        fun k hk hkneg => h ⟨k, (hmem k).mpr hk, (hneg k).mpr hkneg⟩
      rw [overlapSum_ok hne hok, overlapSum_ok hne' hok', hset, overlap_comm]

/-- The fidelity does not depend on the order of its arguments, whether it is a number or refused. -/
theorem distributionFidelity_comm (p q : Dict String ℝ) : distributionFidelity p q = distributionFidelity q p := by
  rw [distributionFidelity, distributionFidelity, overlapSum_comm]

end Sum

/-! ### Counts against an expected distribution -/

structure ValidCounts (counts : Counts) : Prop where
  nonneg : ∀ k n, counts.get? k = some n → 0 ≤ n
  pos : 0 < counts.sum

structure IsDistribution (q : Dict String ℝ) : Prop where
  nonneg : ∀ k v, q.get? k = some v → 0 ≤ v
  sum : (q.total fun _ v => v) = 1

/-- The empirical probability of an outcome, counted or not. -/
noncomputable def empirical (counts : Counts) (k : String) : ℝ := countOf counts k / counts.sum

theorem getD_eq_zero {M : Type*} [Zero M] {d : Dict String M} {k : String} (h : k ∉ d.keys) :
    (d.get? k).getD 0 = 0 := by
  rw [Dict.mem_keys, not_exists] at h
  rw [Option.eq_none_iff_forall_ne_some.mpr h, Option.getD_none]

/-- A total is a sum over any set that has all the keys. -/
theorem total_eq_sum {M : Type*} [AddCommMonoid M] (d : Dict String M) {S : Finset String} (hS : ∀ k ∈ d.keys, k ∈ S) :
    (d.total fun _ v => v) = ∑ k ∈ S, (d.get? k).getD 0 := by
  rw [Dict.total_eq_sum_keys, ← List.sum_toFinset _ (show d.keys.Nodup from d.nodup)]
  refine Finset.sum_subset (fun k hk => hS k (List.mem_toFinset.mp hk)) ?_
  intro k _ hk
  exact getD_eq_zero fun hmem => hk (List.mem_toFinset.mpr hmem)

theorem countOf_nonneg {counts : Counts} (h : ValidCounts counts) (k : String) : 0 ≤ countOf counts k := by
  rw [countOf]
  cases hget : counts.get? k with
  | none => exact le_rfl
  | some n => exact h.nonneg k n hget

theorem probabilityOf_nonneg {q : Dict String ℝ} (h : IsDistribution q) (k : String) : 0 ≤ probabilityOf q k := by
  rw [probabilityOf]
  cases hget : q.get? k with
  | none => exact le_rfl
  | some v => exact h.nonneg k v hget

section Estimate
variable {counts : Counts} {q : Dict String ℝ} {S : Finset String}

theorem empirical_nonneg (hc : ValidCounts counts) (k : String) : 0 ≤ empirical counts k :=
  div_nonneg (by exact_mod_cast countOf_nonneg hc k) (by exact_mod_cast hc.pos.le)

theorem sum_empirical (hc : ValidCounts counts) (hS : ∀ k ∈ counts.keys, k ∈ S) : ∑ k ∈ S, empirical counts k = 1 := by
  have hsum : counts.sum = ∑ k ∈ S, countOf counts k := total_eq_sum counts hS
  have hne : (counts.sum : ℝ) ≠ 0 := by exact_mod_cast hc.pos.ne'
  simp only [empirical]
  rw [← Finset.sum_div, ← Int.cast_sum, ← hsum, div_self hne]

theorem keys_ne_nil (hc : ValidCounts counts) : counts.keys ≠ [] := by
  intro hnil
  have hsum : counts.sum = ∑ k ∈ ∅, countOf counts k := total_eq_sum counts fun k hk => by simp [hnil] at hk
  have := hc.pos
  rw [hsum, Finset.sum_empty] at this
  exact lt_irrefl 0 this

theorem distributionFromCounts_union (hc : ValidCounts counts) (q : Dict String ℝ) :
    ∃ pHat, distributionFromCounts counts (some (unionKeys counts q)) = .ok pHat ∧
      (∀ k, k ∈ pHat.keys ↔ k ∈ counts.keys ∨ k ∈ q.keys) ∧ probabilityOf pHat = empirical counts := by
  refine ⟨_, by rw [distributionFromCounts, if_neg (keys_ne_nil hc), if_neg (not_le.mpr hc.pos)], ?_, ?_⟩
  · intro k
    rw [Dict.mem_keys, Option.getD_some, ← mem_unionKeys]
    simp [Dict.get?_setEach]
  · funext k
    rw [probabilityOf, Dict.get?_setEach, Option.getD_some]
    by_cases hk : k ∈ unionKeys counts q
    · rw [if_pos hk]
      rfl
    · have hcount : countOf counts k = 0 := getD_eq_zero fun h => hk (mem_unionKeys.mpr (.inl h))
      rw [if_neg hk, empirical, hcount, Int.cast_zero, zero_div]
      rfl

/-- The sum before the guard: the overlap over any set that has the outcomes of both sides. -/
theorem unguarded_eq (hc : ValidCounts counts) (hq : IsDistribution q)
    (hS : ∀ k, k ∈ counts.keys ∨ k ∈ q.keys → k ∈ S) :
    (do let pHat ← distributionFromCounts counts (some (unionKeys counts q)); overlapSum pHat q) =
      .ok (overlap S (empirical counts) (probabilityOf q)) := by
  obtain ⟨pHat, hok, hkeys, hprob⟩ := distributionFromCounts_union hc q
  have hne : unionKeys pHat q ≠ [] := by
    obtain ⟨k, hk⟩ := List.exists_mem_of_ne_nil _ (keys_ne_nil hc)
    exact List.ne_nil_of_mem (mem_unionKeys.mpr (.inl ((hkeys k).mpr (.inl hk))))
  have hnonneg : ∀ k ∈ unionKeys pHat q, ¬Negative pHat q k := by
    rintro k - (h | h)
    · rw [hprob] at h
      exact absurd h (not_lt.mpr (empirical_nonneg hc k))
    · exact absurd h (not_lt.mpr (probabilityOf_nonneg hq k))
  rw [hok]
  refine (overlapSum_ok hne hnonneg).trans ?_
  rw [hprob]
  refine congrArg Except.ok (overlap_subset ?_ ?_)
  · intro k hk
    rw [List.mem_toFinset, mem_unionKeys, hkeys] at hk
    exact hS k (by tauto)
  · intro k _ hk
    rw [List.mem_toFinset, mem_unionKeys] at hk
    rw [probabilityOf, getD_eq_zero fun h => hk (.inr h), mul_zero]

theorem overlap_range (hc : ValidCounts counts) (hq : IsDistribution q)
    (hS : ∀ k, k ∈ counts.keys ∨ k ∈ q.keys → k ∈ S) :
    0 ≤ overlap S (empirical counts) (probabilityOf q) ∧ overlap S (empirical counts) (probabilityOf q) ≤ 1 :=
  ⟨overlap_nonneg, overlap_le_one (fun k _ => empirical_nonneg hc k) (fun k _ => probabilityOf_nonneg hq k)
    (sum_empirical hc fun k hk => hS k (.inl hk)) ((total_eq_sum q fun k hk => hS k (.inr hk)).symm.trans hq.sum)⟩

/-- The guard does nothing to what the sum can be, so the fidelity is its square. -/
theorem fidelityDistFromCounts_eq (hc : ValidCounts counts) (hq : IsDistribution q)
    (hS : ∀ k, k ∈ counts.keys ∨ k ∈ q.keys → k ∈ S) :
    fidelityDistFromCounts counts q =
      .ok (overlap S (empirical counts) (probabilityOf q) * overlap S (empirical counts) (probabilityOf q)) := by
  obtain ⟨h0, h1⟩ := overlap_range hc hq hS
  have hsum := unguarded_eq hc hq hS
  obtain ⟨pHat, hok, -, -⟩ := distributionFromCounts_union hc q
  rw [hok] at hsum
  have hsum : overlapSum pHat q = .ok (overlap S (empirical counts) (probabilityOf q)) := hsum
  rw [fidelityDistFromCounts, hok]
  dsimp only [bind, Except.bind]
  rw [distributionFidelity, hsum]
  dsimp only [bind, Except.bind]
  rw [min_eq_right h1, max_eq_right h0]
  rfl

/-- The outcomes of both sides. -/
def outcomes (counts : Counts) (q : Dict String ℝ) : Finset String := (unionKeys counts q).toFinset

theorem mem_outcomes {k : String} (h : k ∈ counts.keys ∨ k ∈ q.keys) : k ∈ outcomes counts q :=
  List.mem_toFinset.mpr (mem_unionKeys.mpr h)

theorem fidelity_eq_one_iff (hc : ValidCounts counts) (hq : IsDistribution q) :
    fidelityDistFromCounts counts q = .ok 1 ↔ ∀ k, empirical counts k = probabilityOf q k := by
  have hS : ∀ k, k ∈ counts.keys ∨ k ∈ q.keys → k ∈ outcomes counts q := fun k => mem_outcomes
  obtain ⟨h0, -⟩ := overlap_range hc hq hS
  have hone := overlap_eq_one_iff (fun k _ => empirical_nonneg hc k) (fun k _ => probabilityOf_nonneg hq k)
    (sum_empirical hc fun k hk => hS k (.inl hk)) ((total_eq_sum q fun k hk => hS k (.inr hk)).symm.trans hq.sum)
  rw [fidelityDistFromCounts_eq hc hq hS, Except.ok.injEq, mul_self_eq_one_iff]
  constructor
  · intro h k
    by_cases hk : k ∈ counts.keys ∨ k ∈ q.keys
    · exact hone.mp (h.resolve_right (by linarith)) k (hS k hk)
    · obtain ⟨hcounts, hkeys⟩ := not_or.mp hk
      rw [empirical, countOf, probabilityOf, getD_eq_zero hcounts, getD_eq_zero hkeys, Int.cast_zero, zero_div]
  · intro h
    exact .inl (hone.mpr fun k _ => h k)

/-- The fidelity depends on the counts through the empirical probabilities only. -/
theorem fidelity_congr {counts' : Counts} (hc : ValidCounts counts) (hc' : ValidCounts counts')
    (hq : IsDistribution q) (h : empirical counts' = empirical counts) :
    fidelityDistFromCounts counts' q = fidelityDistFromCounts counts q := by
  have hS : ∀ k, k ∈ counts.keys ∨ k ∈ q.keys → k ∈ outcomes counts q ∪ outcomes counts' q :=
    fun k hk => Finset.mem_union_left _ (mem_outcomes hk)
  have hS' : ∀ k, k ∈ counts'.keys ∨ k ∈ q.keys → k ∈ outcomes counts q ∪ outcomes counts' q :=
    fun k hk => Finset.mem_union_right _ (mem_outcomes hk)
  rw [fidelityDistFromCounts_eq hc hq hS, fidelityDistFromCounts_eq hc' hq hS', h]

/-! ### Scaled and padded counts -/

theorem countOf_scaled (counts : Counts) (m : Int) (k : String) :
    countOf (counts.mapValues (m * ·)) k = m * countOf counts k := by
  rw [countOf, countOf, Dict.get?_mapValues]
  cases counts.get? k with
  | none => simp
  | some n => rfl

theorem sum_scaled (counts : Counts) (m : Int) : Counts.sum (counts.mapValues (m * ·)) = m * counts.sum := by
  rw [Counts.sum, Dict.total_mapValues]
  exact List.sum_map_mul_left ..

theorem scaled_valid (hc : ValidCounts counts) {m : Int} (hm : 0 < m) : ValidCounts (counts.mapValues (m * ·)) where
  nonneg := Dict.forall_mapValues hc.nonneg fun _ hn => mul_nonneg hm.le hn
  pos := by
    rw [sum_scaled]
    exact mul_pos hm hc.pos

theorem empirical_scaled (counts : Counts) {m : Int} (hm : 0 < m) :
    empirical (counts.mapValues (m * ·)) = empirical counts := by
  have hne : (m : ℝ) ≠ 0 := by exact_mod_cast hm.ne'
  funext k
  rw [empirical, countOf_scaled, sum_scaled, Int.cast_mul, Int.cast_mul, mul_div_mul_left _ _ hne, empirical]

theorem countOf_padded {extra : List String} (hextra : ∀ k ∈ extra, countOf counts k = 0) (k : String) :
    countOf (counts.setEach extra fun _ => 0) k = countOf counts k := by
  rw [countOf, Dict.get?_setEach]
  split
  · rename_i hk
    exact (hextra k hk).symm
  · rfl

theorem sum_padded {extra : List String} (hextra : ∀ k ∈ extra, countOf counts k = 0) :
    Counts.sum (counts.setEach extra fun _ => 0) = counts.sum := by
  have hsum : ∀ c : Counts, (∀ k ∈ c.keys, k ∈ counts.keys.toFinset ∪ (counts.setEach extra fun _ => 0).keys.toFinset) →
      c.sum = ∑ k ∈ counts.keys.toFinset ∪ (counts.setEach extra fun _ => 0).keys.toFinset, countOf c k :=
    fun c hc => total_eq_sum c hc
  rw [hsum counts (by simp +contextual), hsum (counts.setEach extra fun _ => 0) (by simp +contextual)]
  exact Finset.sum_congr rfl fun k _ => countOf_padded hextra k

theorem padded_valid (hc : ValidCounts counts) {extra : List String} (hextra : ∀ k ∈ extra, countOf counts k = 0) :
    ValidCounts (counts.setEach extra fun _ => 0) where
  nonneg k n h := by
    rw [Dict.get?_setEach] at h
    split at h
    · exact (Option.some.inj h).le
    · exact hc.nonneg k n h
  pos := by
    rw [sum_padded hextra]
    exact hc.pos

/-- **The distribution fidelity is a similarity**: the guard never acts, it is one only for counts with the
expected frequencies, and neither the number of shots nor outcomes that were never counted matter; the
fidelity of two distributions is symmetric. -/
theorem fidelity_similarity (hc : ValidCounts counts) (hq : IsDistribution q) :
    (∃ s, (do let pHat ← distributionFromCounts counts (some (unionKeys counts q)); overlapSum pHat q) = .ok s ∧
        0 ≤ s ∧ s ≤ 1 ∧ fidelityDistFromCounts counts q = .ok (s * s) ∧ 0 ≤ s * s ∧ s * s ≤ 1) ∧
      (fidelityDistFromCounts counts q = .ok 1 ↔ ∀ k, (countOf counts k : ℝ) / counts.sum = probabilityOf q k) ∧
      (∀ m : Int, 0 < m →
        fidelityDistFromCounts (counts.mapValues (m * ·)) q = fidelityDistFromCounts counts q) ∧
      (∀ extra : List String, (∀ k ∈ extra, countOf counts k = 0) →
        fidelityDistFromCounts (counts.setEach extra fun _ => 0) q = fidelityDistFromCounts counts q) ∧
      ∀ p p' : Dict String ℝ, distributionFidelity p p' = distributionFidelity p' p := by
  have hS : ∀ k, k ∈ counts.keys ∨ k ∈ q.keys → k ∈ outcomes counts q := fun k => mem_outcomes
  obtain ⟨h0, h1⟩ := overlap_range hc hq hS
  refine ⟨⟨_, unguarded_eq hc hq hS, h0, h1, fidelityDistFromCounts_eq hc hq hS, mul_self_nonneg _,
    mul_le_one₀ h1 h0 h1⟩, fidelity_eq_one_iff hc hq, ?_, ?_, distributionFidelity_comm⟩
  · intro m hm
    exact fidelity_congr hc (scaled_valid hc hm) hq (empirical_scaled counts hm)
  · intro extra hextra
    refine fidelity_congr hc (padded_valid hc hextra) hq (funext fun k => ?_)
    rw [empirical, empirical, countOf_padded hextra, sum_padded hextra]

end Estimate

/-- Two of four shots on each side of a coin, against a fair one. -/
theorem fidelity_similarity_coin :
    fidelityDistFromCounts ((Dict.empty.set "heads" 2).set "tails" 2)
      ((Dict.empty.set "heads" (1 / 2)).set "tails" (1 / 2)) = .ok 1 := by
  have hc : ValidCounts ((Dict.empty.set "heads" 2).set "tails" 2) := by
    refine ⟨Dict.forall_set (Dict.forall_set (fun _ _ h => ?_) (by decide)) (by decide), by decide⟩
    cases h
  have hq : IsDistribution ((Dict.empty.set "heads" (1 / 2)).set "tails" (1 / 2)) := by
    refine ⟨Dict.forall_set (Dict.forall_set (fun _ _ h => ?_) (by norm_num)) (by norm_num), ?_⟩
    · cases h
    · simp [Dict.total, Dict.set, Dict.empty, Dict.put]
      norm_num
  have hsum : Counts.sum ((Dict.empty.set "heads" 2).set "tails" 2) = 4 := by decide
  refine (fidelity_similarity hc hq).2.1.mpr fun k => ?_
  rw [countOf, probabilityOf, hsum, Dict.get?_set, Dict.get?_set, Dict.get?_set, Dict.get?_set]
  split
  · norm_num
  · split <;> norm_num

end SynQc.Kpi
