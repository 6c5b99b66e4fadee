import SynQc.Kpi.Fidelity
import SynQc.Library.Fallible
import SynQc.Library.FirstBest
import SynQc.Library.Mixture

/-! How `hardware_backends.py` makes up what a simulated device measures.

A simulated run starts from the distribution it expects and a fidelity it aims at. `_mix_toward_uniform` tries
79 weights of noise, keeps the mixture whose fidelity with the expected distribution is nearest, tilts it a
little and normalizes. Probabilities are rationals here and fidelities reals, without rounding. Then what is
normalized inside the loop is normal already, the noise never raises the fidelity and takes no more of it than
its own weight, and a target that the weights can reach at all is met to within a half of one part in 122
(`mixTowardUniform_nearest`). -/
namespace SynQc.Kpi
open Overlap FirstBest Fallible

/-! ### The generator -/

/-- A `random.Random`: what `random()` is still going to return. -/
structure Rng where
  draw : ℕ → ℚ
  nonneg : ∀ i, 0 ≤ draw i
  lt_one : ∀ i, draw i < 1

/-- The generator after some calls. -/
def Rng.skip (rng : Rng) (calls : ℕ) : Rng :=
  ⟨fun i => rng.draw (calls + i), fun i => rng.nonneg (calls + i), fun i => rng.lt_one (calls + i)⟩

/-- `rng.random()` -/
def Rng.random (rng : Rng) : ℚ := rng.draw 0

/-- `rng.uniform(a, b)`, from the draw it takes. -/
def uniform (a b draw : ℚ) : ℚ := a + (b - a) * draw

theorem Rng.uniform_ge (rng : Rng) (width : ℚ) (h : 0 ≤ width) (i : ℕ) :
    -width ≤ uniform (-width) width (rng.draw i) := by
  have hspan : 0 ≤ (width - -width) * rng.draw i := mul_nonneg (by linarith) (rng.nonneg i)
  rw [uniform]
  linarith

/-! ### Normalizing -/

def normalizeDistribution (dist : Dict String ℚ) : Except Exc (Dict String ℚ) :=
  let total := dist.total fun _ v => max 0 v
  if total ≤ 0 then .error (.valueError "distribution must have positive mass")
  else .ok (dist.mapValues fun v => max 0 v / total)

/-- The probabilities of some outcomes. -/
structure Probabilities (dist : Dict String ℚ) : Prop where
  nonneg : ∀ k v, dist.get? k = some v → 0 ≤ v
  sum : (dist.total fun _ v => v) = 1

section Normalize
variable {dist : Dict String ℚ}

/-- Some outcome has mass. -/
theorem mass_pos {k : String} {v : ℚ} (hk : dist.get? k = some v) (hv : 0 < v) : 0 < dist.total fun _ v => max 0 v := by
  refine hv.trans_le ((le_max_right 0 v).trans ?_)
  refine List.single_le_sum (fun x hx => ?_) _ (List.mem_map.mpr ⟨(k, v), Dict.mem_entries.mpr hk, rfl⟩)
  obtain ⟨e, -, rfl⟩ := List.mem_map.mp hx
  exact le_max_left 0 _

/-- What has mass becomes a distribution over the same outcomes. -/
theorem normalizeDistribution_ok (h : 0 < dist.total fun _ v => max 0 v) :
    ∃ q, normalizeDistribution dist = .ok q ∧ q.keys = dist.keys ∧ Probabilities q := by
  refine ⟨_, if_neg (not_le.mpr h), Dict.keys_mapValues _ _, ?_, ?_⟩
  · intro k v hv
    rw [Dict.get?_mapValues] at hv
    obtain ⟨w, -, rfl⟩ := Option.map_eq_some_iff.mp hv
    exact div_nonneg (le_max_left 0 w) h.le
  · rw [Dict.total_mapValues]
    have hshare : (dist.total fun _ v => max 0 v / dist.total fun _ v => max 0 v) =
        (dist.total fun _ v => max 0 v) / dist.total fun _ v => max 0 v := by
      simp only [Dict.total, div_eq_mul_inv]
      exact List.sum_map_mul_right ..
    rw [hshare, div_self h.ne']

theorem mapValues_id {α : Type*} {d : Dict String α} {f : α → α} (h : ∀ k v, d.get? k = some v → f v = v) :
    d.mapValues f = d := by
  obtain ⟨l, hl⟩ := d
  simp only [Dict.mapValues, Dict.mk.injEq]
  conv_rhs => rw [← List.map_id l]
  refine List.map_congr_left fun e he => ?_
  rw [h e.1 e.2 (Dict.mem_entries.mp he)]
  rfl

/-- A distribution is left as it is. -/
theorem Probabilities.normalize (h : Probabilities dist) : normalizeDistribution dist = .ok dist := by
  have hmass : (dist.total fun _ v => max 0 v) = 1 := by
    rw [← h.sum]
    exact Dict.total_congr fun k v hv => max_eq_right (h.nonneg k v (Dict.mem_entries.mp hv))
  rw [normalizeDistribution]
  simp only [hmass]
  rw [if_neg (by norm_num), mapValues_id]
  intro k v hv
  rw [max_eq_right (h.nonneg k v hv), div_one]

end Normalize

/-! ### As real distributions -/

/-- The same probabilities as real numbers. -/
def asReal (dist : Dict String ℚ) : Dict String ℝ := dist.mapValues fun v => (v : ℝ)

/-- The probability of an outcome, in the list or not. -/
noncomputable def prob (dist : Dict String ℚ) (k : String) : ℝ := probabilityOf (asReal dist) k

section Real
variable {dist : Dict String ℚ}

theorem prob_eq (dist : Dict String ℚ) (k : String) : prob dist k = (((dist.get? k).getD 0 : ℚ) : ℝ) := by
  rw [prob, probabilityOf, asReal, Dict.get?_mapValues]
  cases dist.get? k with
  | none => exact Rat.cast_zero.symm
  | some v => rfl

theorem Probabilities.isDistribution (h : Probabilities dist) : IsDistribution (asReal dist) where
  nonneg k v hv := by
    rw [asReal, Dict.get?_mapValues] at hv
    obtain ⟨w, hw, rfl⟩ := Option.map_eq_some_iff.mp hv
    exact_mod_cast h.nonneg k w hw
  sum := by
    have hcast : (Rat.cast (dist.total fun _ v => v) : ℝ) = dist.total fun _ v => (Rat.cast v : ℝ) := by
      simp only [Dict.total]
      rw [← Rat.coe_castHom, map_list_sum, List.map_map]
      rfl
    rw [asReal, Dict.total_mapValues, ← hcast, h.sum, Rat.cast_one]

theorem Probabilities.prob_nonneg (h : Probabilities dist) (k : String) : 0 ≤ prob dist k :=
  probabilityOf_nonneg h.isDistribution k

theorem Probabilities.sum_prob (h : Probabilities dist) : ∑ k ∈ dist.keys.toFinset, prob dist k = 1 := by
  have hkeys : ∀ k ∈ (asReal dist).keys, k ∈ dist.keys.toFinset := by
    rw [asReal, Dict.keys_mapValues]
    exact fun k hk => List.mem_toFinset.mpr hk
  exact (total_eq_sum _ hkeys).symm.trans h.isDistribution.sum

/-- The fidelity of two distributions over the same outcomes. -/
theorem distributionFidelity_eq {p q : Dict String ℚ} (hp : Probabilities p) (hq : Probabilities q)
    (hkeys : q.keys = p.keys)
    (hne : p.keys ≠ []) :
    distributionFidelity (asReal p) (asReal q) = .ok (fidelity p.keys.toFinset (prob p) (prob q)) := by
  have hmem : ∀ k, k ∈ unionKeys (asReal p) (asReal q) ↔ k ∈ p.keys := by
    intro k
    rw [mem_unionKeys, asReal, asReal, Dict.keys_mapValues, Dict.keys_mapValues, hkeys, or_self]
  have hset : (unionKeys (asReal p) (asReal q)).toFinset = p.keys.toFinset := by
    ext k
    rw [List.mem_toFinset, List.mem_toFinset, hmem]
  have hunion : unionKeys (asReal p) (asReal q) ≠ [] := by
    obtain ⟨k, hk⟩ := List.exists_mem_of_ne_nil _ hne
    exact List.ne_nil_of_mem ((hmem k).mpr hk)
  have hnonneg : ∀ k ∈ unionKeys (asReal p) (asReal q), ¬Negative (asReal p) (asReal q) k := by
    intro k _ hneg
    obtain h | h := hneg
    · exact absurd h (not_lt.mpr (hp.prob_nonneg k))
    · exact absurd h (not_lt.mpr (hq.prob_nonneg k))
  have hqsum : ∑ k ∈ p.keys.toFinset, prob q k = 1 := by
    rw [← hkeys]
    exact hq.sum_prob
  have hle : overlap p.keys.toFinset (prob p) (prob q) ≤ 1 :=
    overlap_le_one (fun k _ => hp.prob_nonneg k) (fun k _ => hq.prob_nonneg k) hp.sum_prob hqsum
  have hsum : overlapSum (asReal p) (asReal q) = .ok (overlap p.keys.toFinset (prob p) (prob q)) := by
    rw [overlapSum_ok hunion hnonneg, hset]
    rfl
  rw [distributionFidelity, hsum]
  dsimp only [bind, Except.bind]
  rw [min_eq_right hle, max_eq_right overlap_nonneg]
  rfl

end Real

/-! ### Mixing -/

/-- `[i / 200 for i in range(1, 80)]` -/
def noiseAt (i : ℕ) : ℚ := ((i + 1 : ℕ) : ℚ) / 200

def candidates : List ℚ := (List.range 79).map noiseAt

/-- The expected distribution with a share of noise, before it is normalized. -/
def mixed (expectedQ : Dict String ℚ) (noise : ℚ) : Dict String ℚ :=
  let uniform := 1 / (expectedQ.size : ℚ)
  expectedQ.mapValues fun v => (1 - noise) * v + noise * uniform

/-- The best mixture so far with its score, and the generator. -/
abbrev Search := (Dict String ℚ × WithTop ℝ) × Rng

/-- One turn of the loop. -/
noncomputable def tryNoise (expectedQ : Dict String ℚ) (targetFidelity : Option ℚ) (search : Search) (noise : ℚ) :
    Except Exc Search := do
  let mixed ← normalizeDistribution (mixed expectedQ noise)
  let f ← distributionFidelity (asReal expectedQ) (asReal mixed)
  match targetFidelity with
  | none => return (improve search.1 (mixed, ((search.2.random * (1 / 100) : ℚ) : ℝ)), search.2.skip 1)
  | some target => return (improve search.1 (mixed, |f - (target : ℝ)|), search.2)

/-- `{o: max(0.0, v + rng.uniform(-width, width)) for o, v in dist.items()}` -/
def tilt (width : ℚ) (rng : Rng) (dist : Dict String ℚ) : Dict String ℚ :=
  dist.mapIdx fun i v => max 0 (v + uniform (-width) width (rng.draw i))

noncomputable def mixTowardUniform (expectedQ : Dict String ℚ) (targetFidelity : Option ℚ) (rng : Rng) :
    Except Exc (Dict String ℚ × Rng) :=
  if expectedQ.size = 0 then .error (.other "float division by zero")
  else do
    let best ← normalizeDistribution expectedQ
    let search ← candidates.foldlM (tryNoise expectedQ targetFidelity) ((best, ⊤), rng)
    let dist ← normalizeDistribution (tilt (1 / 200) search.2 search.1.1)
    return (dist, search.2.skip search.1.1.size)

/-! ### The mixtures -/

theorem noiseAt_mono {i j : ℕ} (h : i ≤ j) : noiseAt i ≤ noiseAt j := by
  have hcast : ((i + 1 : ℕ) : ℚ) ≤ ((j + 1 : ℕ) : ℚ) := by exact_mod_cast Nat.succ_le_succ h
  rw [noiseAt, noiseAt]
  linarith

theorem noiseAt_range {i : ℕ} (hi : i < 79) : 0 ≤ noiseAt i ∧ noiseAt i ≤ 1 := by
  have hlast : noiseAt 78 ≤ 1 := by norm_num [noiseAt]
  exact ⟨by rw [noiseAt]; positivity, (noiseAt_mono (by omega)).trans hlast⟩

theorem cast_noiseAt (i : ℕ) : (noiseAt i : ℝ) = ((i : ℝ) + 1) / 200 := by
  rw [noiseAt]
  push_cast
  rfl

theorem mem_candidates {noise : ℚ} : noise ∈ candidates ↔ ∃ i < 79, noiseAt i = noise := by
  simp only [candidates, List.mem_map, List.mem_range]

theorem candidate_range {noise : ℚ} (h : noise ∈ candidates) : 0 ≤ noise ∧ noise ≤ 1 := by
  obtain ⟨i, hi, rfl⟩ := mem_candidates.mp h
  exact noiseAt_range hi

section Mixed
variable {q : Dict String ℚ} {noise : ℚ}

/-- The even distribution over the outcomes. -/
noncomputable def even (q : Dict String ℚ) : String → ℝ := fun _ => 1 / (q.size : ℝ)

theorem size_eq_card (q : Dict String ℚ) : q.keys.toFinset.card = q.size := by
  have hnodup : q.keys.Nodup := q.nodup
  rw [List.toFinset_card_of_nodup hnodup, Dict.keys, List.length_map, Dict.size]

theorem sum_even (hne : q.size ≠ 0) : ∑ k ∈ q.keys.toFinset, even q k = 1 := by
  have hsize : (q.size : ℝ) ≠ 0 := by exact_mod_cast hne
  simp only [even]
  rw [Finset.sum_const, size_eq_card, nsmul_eq_mul, mul_one_div, div_self hsize]

theorem prob_mixed {k : String} (hk : k ∈ q.keys) :
    prob (mixed q noise) k = mixture (noise : ℝ) (prob q) (even q) k := by
  obtain ⟨v, hv⟩ := Dict.mem_keys.mp hk
  rw [prob_eq, mixed, Dict.get?_mapValues, mixture, prob_eq, hv, even]
  simp

theorem mixed_probabilities (hq : Probabilities q) (hne : q.size ≠ 0) (h0 : 0 ≤ noise) (h1 : noise ≤ 1) :
    Probabilities (mixed q noise) where
  nonneg k v hv := by
    rw [mixed, Dict.get?_mapValues] at hv
    obtain ⟨w, hw, rfl⟩ := Option.map_eq_some_iff.mp hv
    have hshare := mul_nonneg (sub_nonneg.mpr h1) (hq.nonneg k w hw)
    have hnoise : 0 ≤ noise * (1 / (q.size : ℚ)) := by positivity
    linarith
  sum := by
    have hsize : (q.size : ℚ) ≠ 0 := by exact_mod_cast hne
    have hshare : (q.total fun _ v => (1 - noise) * v) = (1 - noise) * q.total fun _ v => v := List.sum_map_mul_left ..
    have hnoise : (q.total fun _ _ => noise * (1 / (q.size : ℚ))) = q.size * (noise * (1 / (q.size : ℚ))) := by
      simp [Dict.total, Dict.size]
    rw [mixed, Dict.total_mapValues, Dict.total_add, hshare, hq.sum, hnoise]
    field_simp
    ring

/-- The fidelity of the expected distribution with its mixture with some noise. -/
noncomputable def noiseFidelity (q : Dict String ℚ) (noise : ℚ) : ℝ :=
  fidelity q.keys.toFinset (prob q) (mixture (noise : ℝ) (prob q) (even q))

theorem keys_ne_nil_of_size (hne : q.size ≠ 0) : q.keys ≠ [] := by
  rw [Dict.size] at hne
  rw [Dict.keys, Ne, List.map_eq_nil_iff, ← List.length_eq_zero_iff]
  exact hne

/-- The fidelity computed in the loop. -/
theorem distributionFidelity_mixed (hq : Probabilities q) (hne : q.size ≠ 0) (h0 : 0 ≤ noise) (h1 : noise ≤ 1) :
    distributionFidelity (asReal q) (asReal (mixed q noise)) = .ok (noiseFidelity q noise) := by
  rw [distributionFidelity_eq hq (mixed_probabilities hq hne h0 h1) (Dict.keys_mapValues _ _) (keys_ne_nil_of_size hne)]
  have hoverlap : overlap q.keys.toFinset (prob q) (prob (mixed q noise)) =
      overlap q.keys.toFinset (prob q) (mixture (noise : ℝ) (prob q) (even q)) :=
    Finset.sum_congr rfl fun k hk => by rw [prob_mixed (List.mem_toFinset.mp hk)]
  rw [noiseFidelity, fidelity, fidelity, hoverlap]

end Mixed

/-! ### The search -/

theorem Rng.skip_zero (rng : Rng) : rng.skip 0 = rng := by
  have hdraw : (rng.skip 0).draw = rng.draw := funext fun i => congrArg rng.draw (Nat.zero_add i)
  cases rng
  simpa only [skip, mk.injEq] using hdraw

theorem Rng.skip_skip (rng : Rng) (m n : ℕ) : (rng.skip m).skip n = rng.skip (m + n) := by
  have hdraw : ((rng.skip m).skip n).draw = (rng.skip (m + n)).draw :=
    funext fun i => congrArg rng.draw (Nat.add_assoc m n i).symm
  simpa only [skip, mk.injEq] using hdraw

section Search
variable {q : Dict String ℚ} {noises : List ℚ}

/-- The distance of a candidate's fidelity to the target. -/
noncomputable def distance (q : Dict String ℚ) (target noise : ℚ) : ℝ := |noiseFidelity q noise - (target : ℝ)|

/-- With a target the loop scans the candidates by their distance. -/
theorem search_target (hq : Probabilities q) (hne : q.size ≠ 0) (hnoises : ∀ a ∈ noises, 0 ≤ a ∧ a ≤ 1) (target : ℚ)
    (search : Search) : noises.foldlM (tryNoise q (some target)) search =
      .ok ((noises.map fun a => (mixed q a, distance q target a)).foldl improve search.1, search.2) := by
  induction noises generalizing search with
  | nil => rfl
  | cons a noises ih =>
    obtain ⟨h0, h1⟩ := hnoises a List.mem_cons_self
    have hturn : tryNoise q (some target) search a =
        .ok (improve search.1 (mixed q a, distance q target a), search.2) := by
      rw [tryNoise, (mixed_probabilities hq hne h0 h1).normalize]
      dsimp only [bind, Except.bind]
      rw [distributionFidelity_mixed hq hne h0 h1]
      rfl
    rw [List.foldlM_cons, hturn]
    exact ih (fun b hb => hnoises b (List.mem_cons_of_mem a hb)) _

/-- Without one it scans them by draws. -/
theorem search_none (hq : Probabilities q) (hne : q.size ≠ 0) (hnoises : ∀ a ∈ noises, 0 ≤ a ∧ a ≤ 1)
    (search : Search) :
    noises.foldlM (tryNoise q none) search =
      .ok ((noises.mapIdx fun i a => (mixed q a, ((search.2.draw i * (1 / 100) : ℚ) : ℝ))).foldl improve search.1,
        search.2.skip noises.length) := by
  induction noises generalizing search with
  | nil =>
    rw [List.length_nil, Rng.skip_zero]
    rfl
  | cons a noises ih =>
    obtain ⟨h0, h1⟩ := hnoises a List.mem_cons_self
    have hturn : tryNoise q none search a =
        .ok (improve search.1 (mixed q a, ((search.2.random * (1 / 100) : ℚ) : ℝ)), search.2.skip 1) := by
      rw [tryNoise, (mixed_probabilities hq hne h0 h1).normalize]
      dsimp only [bind, Except.bind]
      rw [distributionFidelity_mixed hq hne h0 h1]
      rfl
    have hshift : ∀ i, (search.2.skip 1).draw i = search.2.draw (i + 1) :=
      fun i => congrArg search.2.draw (Nat.add_comm 1 i)
    rw [List.foldlM_cons, hturn]
    refine (ih (fun b hb => hnoises b (List.mem_cons_of_mem a hb)) _).trans ?_
    rw [List.mapIdx_cons, List.foldl_cons, Rng.skip_skip, List.length_cons, Nat.add_comm 1]
    simp only [hshift]
    rfl

theorem candidates_ne_nil : candidates ≠ [] :=
  List.ne_nil_of_mem (mem_candidates.mpr ⟨0, by decide, rfl⟩)

/-- The draws that the scores take: one for each candidate where there is no target. -/
def scoreDraws (targetFidelity : Option ℚ) : ℕ := if targetFidelity.isSome then 0 else candidates.length

/-- The loop ends with one of the mixtures, with a target one that is nearest to it. -/
theorem search_spec (hq : Probabilities q) (hne : q.size ≠ 0) (start : Dict String ℚ) (targetFidelity : Option ℚ)
    (rng : Rng) :
    ∃ noise ∈ candidates, ∃ score, candidates.foldlM (tryNoise q targetFidelity) ((start, ⊤), rng) =
        .ok ((mixed q noise, score), rng.skip (scoreDraws targetFidelity)) ∧
      ∀ target, targetFidelity = some target →
        ∀ other ∈ candidates, distance q target noise ≤ distance q target other := by
  have hrange : ∀ a ∈ candidates, 0 ≤ a ∧ a ≤ 1 := fun a ha => candidate_range ha
  cases targetFidelity with
  | none =>
    have hnil : (candidates.mapIdx fun i a => (mixed q a, ((rng.draw i * (1 / 100) : ℚ) : ℝ))) ≠ [] := by
      rw [Ne, List.mapIdx_eq_nil_iff]
      exact candidates_ne_nil
    obtain ⟨x, hx, hscan, -⟩ := scan_spec start hnil
    obtain ⟨i, hi, rfl⟩ := List.mem_mapIdx.mp hx
    have hloop := search_none hq hne hrange ((start, ⊤), rng)
    rw [hscan] at hloop
    exact ⟨_, List.getElem_mem hi, _, hloop, fun target h => absurd h.symm (Option.some_ne_none target)⟩
  | some target =>
    have hnil : candidates.map (fun a => (mixed q a, distance q target a)) ≠ [] :=
      fun h => candidates_ne_nil (List.map_eq_nil_iff.mp h)
    obtain ⟨x, hx, hscan, hleast⟩ := scan_spec start hnil
    obtain ⟨noise, hnoise, rfl⟩ := List.mem_map.mp hx
    have hloop := search_target hq hne hrange target ((start, ⊤), rng)
    rw [hscan] at hloop
    have hdraws : rng.skip (scoreDraws (some target)) = rng := rng.skip_zero
    refine ⟨noise, hnoise, _, by rw [hdraws]; exact hloop, ?_⟩
    intro target' h
    obtain rfl := Option.some.inj h
    exact fun other hother => hleast _ (List.mem_map.mpr ⟨other, hother, rfl⟩)

end Search

/-! ### The tilt -/

section Tilt
variable {dist : Dict String ℚ} {width : ℚ}

/-- Fewer outcomes than the width goes into one: one of them has more than the width. -/
theorem exists_above (h : Probabilities dist) (hsize : dist.size * width < 1) :
    ∃ k v, dist.get? k = some v ∧ width < v := by
  by_contra hall
  have hle : ∀ x ∈ dist.entries.map fun e => e.2, x ≤ width := by
    intro x hx
    obtain ⟨e, he, rfl⟩ := List.mem_map.mp hx
    by_contra hgt
    exact hall ⟨e.1, e.2, Dict.mem_entries.mp he, not_le.mp hgt⟩
  have hsum := List.sum_le_card_nsmul _ _ hle
  rw [List.length_map, nsmul_eq_mul] at hsum
  have hone : (dist.entries.map fun e => e.2).sum = 1 := h.sum
  rw [hone] at hsum
  exact absurd (hsize.trans_le hsum) (lt_irrefl _)

theorem keys_tilt (width : ℚ) (rng : Rng) (dist : Dict String ℚ) : (tilt width rng dist).keys = dist.keys :=
  Dict.keys_mapIdx _ _

theorem tilt_mass (hwidth : 0 ≤ width) (rng : Rng) {k : String} {v : ℚ} (hk : dist.get? k = some v) (hv : width < v) :
    0 < (tilt width rng dist).total fun _ v => max 0 v := by
  have hget : (tilt width rng dist).get? k =
      some (max 0 (v + uniform (-width) width (rng.draw (dist.keys.idxOf k)))) := by
    rw [tilt, Dict.get?_mapIdx, hk, Option.map_some]
  have huniform := rng.uniform_ge width hwidth (dist.keys.idxOf k)
  exact mass_pos hget (lt_max_of_lt_right (by linarith))

end Tilt

/-! ### What is mixed -/

section Mix
variable {q : Dict String ℚ}

theorem Probabilities.size_ne_zero (h : Probabilities q) : q.size ≠ 0 := by
  intro hzero
  have hsum := h.sum
  rw [Dict.total, List.eq_nil_of_length_eq_zero hzero, List.map_nil, List.sum_nil] at hsum
  exact zero_ne_one hsum

theorem size_eq_of_keys {α β : Type*} {d : Dict String α} {e : Dict String β} (h : d.keys = e.keys) :
    d.size = e.size := by
  have hlength := congrArg List.length h
  rwa [Dict.keys, Dict.keys, List.length_map, List.length_map] at hlength

theorem keys_mixed (q : Dict String ℚ) (noise : ℚ) : (mixed q noise).keys = q.keys := Dict.keys_mapValues _ _

/-- The device's distribution is the tilt of a mixture, over the outcomes of the expected one. -/
theorem mixTowardUniform_spec (hq : Probabilities q) (hsize : q.size < 200) (targetFidelity : Option ℚ) (rng : Rng) :
    ∃ noise ∈ candidates, ∃ actual, mixTowardUniform q targetFidelity rng =
        .ok (actual, rng.skip (scoreDraws targetFidelity + q.size)) ∧
      normalizeDistribution (tilt (1 / 200) (rng.skip (scoreDraws targetFidelity)) (mixed q noise)) = .ok actual ∧
      actual.keys = q.keys ∧ Probabilities actual ∧
      ∀ target, targetFidelity = some target →
        ∀ other ∈ candidates, distance q target noise ≤ distance q target other := by
  have hne := hq.size_ne_zero
  obtain ⟨noise, hnoise, score, hloop, hnearest⟩ := search_spec hq hne q targetFidelity rng
  obtain ⟨h0, h1⟩ := candidate_range hnoise
  have hmixed := mixed_probabilities hq hne h0 h1
  have hsame : (mixed q noise).size = q.size := size_eq_of_keys (keys_mixed q noise)
  have hfew : ((mixed q noise).size : ℚ) * (1 / 200) < 1 := by
    have hcast : (q.size : ℚ) < 200 := by exact_mod_cast hsize
    rw [hsame]
    linarith
  obtain ⟨k, v, hk, hv⟩ := exists_above hmixed hfew
  obtain ⟨actual, hactual, hkeys, hprobabilities⟩ := normalizeDistribution_ok
    (tilt_mass (by norm_num) (rng.skip (scoreDraws targetFidelity)) hk hv)
  refine ⟨noise, hnoise, actual, ?_, hactual, ?_, hprobabilities, hnearest⟩
  · rw [mixTowardUniform, if_neg hne, hq.normalize]
    dsimp only [bind, Except.bind]
    rw [hloop]
    dsimp only
    rw [hactual, hsame, Rng.skip_skip]
    rfl
  · rw [hkeys, keys_tilt, keys_mixed]

/-! ### How near it is -/

section Fidelity
variable (hq : Probabilities q)
include hq

theorem noiseFidelity_antitone {a b : ℚ} (h0 : 0 ≤ a) (hab : a ≤ b) (h1 : b ≤ 1) :
    noiseFidelity q b ≤ noiseFidelity q a :=
  fidelity_antitone (fun k _ => hq.prob_nonneg k) (fun _ _ => by rw [even]; positivity)
    hq.sum_prob (sum_even hq.size_ne_zero)
    (by exact_mod_cast h0) (by exact_mod_cast hab) (by exact_mod_cast h1)

theorem noiseFidelity_range {a : ℚ} (h0 : 0 ≤ a) (h1 : a ≤ 1) :
    1 - (a : ℝ) ≤ noiseFidelity q a ∧ noiseFidelity q a ≤ 1 := by
  have heven : ∀ k ∈ q.keys.toFinset, 0 ≤ even q k := fun _ _ => by rw [even]; positivity
  have h0' : (0 : ℝ) ≤ a := by exact_mod_cast h0
  have h1' : (a : ℝ) ≤ 1 := by exact_mod_cast h1
  exact ⟨fidelity_mixture_ge (fun k _ => hq.prob_nonneg k) heven hq.sum_prob h0' h1',
    fidelity_mixture_le_one (fun k _ => hq.prob_nonneg k) heven hq.sum_prob (sum_even hq.size_ne_zero) h0' h1'⟩

/-- From one candidate to the next the fidelity falls by one part in 122 at most. -/
theorem noiseFidelity_step {i : ℕ} (hi : i < 78) :
    noiseFidelity q (noiseAt i) - noiseFidelity q (noiseAt (i + 1)) ≤ 1 / 122 := by
  have hcast : (i : ℝ) + 1 ≤ 78 := by exact_mod_cast hi
  have hnoise := cast_noiseAt i
  have hgrid : (noiseAt (i + 1) : ℝ) = (noiseAt i : ℝ) + 1 / 200 := by
    rw [cast_noiseAt, cast_noiseAt]
    push_cast
    ring
  have hone : noiseFidelity q (noiseAt i) ≤ 1 := by
    obtain ⟨h0, h1⟩ := noiseAt_range (show i < 79 by omega)
    exact (noiseFidelity_range hq h0 h1).2
  have hstep : (1 - (noiseAt (i + 1) : ℝ)) * noiseFidelity q (noiseAt i) ≤
      (1 - (noiseAt i : ℝ)) * noiseFidelity q (noiseAt (i + 1)) :=
    fidelity_step (fun k _ => hq.prob_nonneg k) (fun _ _ => by rw [even]; positivity) (by linarith) (by linarith)
  rw [hgrid] at hstep
  by_contra hgt
  have hshare : (0 : ℝ) < 1 - noiseAt i := by linarith
  have hwide := mul_lt_mul_of_pos_left (not_le.mp hgt) hshare
  linarith

end Fidelity

/-- **The mixture aims at its target.** More noise is less fidelity, and no candidate has less than its share of
the expected distribution; the mixture that is tilted is the one of a candidate nearest to the target: within
1/244 of a target among their fidelities, and at the end of the candidates for one that is not. -/
theorem mixTowardUniform_nearest (hq : Probabilities q) (hsize : q.size < 200) (target : ℚ) (rng : Rng) :
    ∃ f : ℚ → ℝ, (∀ a ∈ candidates, distributionFidelity (asReal q) (asReal (mixed q a)) = .ok (f a) ∧
        1 - (a : ℝ) ≤ f a ∧ f a ≤ 1 ∧ ∀ b ∈ candidates, a ≤ b → f b ≤ f a) ∧
      ∃ noise ∈ candidates, ∃ actual, mixTowardUniform q (some target) rng = .ok (actual, rng.skip q.size) ∧
        normalizeDistribution (tilt (1 / 200) rng (mixed q noise)) = .ok actual ∧
        (∀ other ∈ candidates, |f noise - (target : ℝ)| ≤ |f other - (target : ℝ)|) ∧
        (f (noiseAt 78) ≤ target → target ≤ f (noiseAt 0) → |f noise - (target : ℝ)| ≤ 1 / 244) ∧
        (f (noiseAt 0) ≤ target → f noise = f (noiseAt 0)) ∧ (target ≤ f (noiseAt 78) → f noise = f (noiseAt 78)) := by
  have hne := hq.size_ne_zero
  obtain ⟨noise, hnoise, actual, hmix, hactual, -, -, hspec⟩ := mixTowardUniform_spec hq hsize (some target) rng
  have hnearest := hspec target rfl
  have hdraws : scoreDraws (some target) = 0 := rfl
  rw [hdraws, Nat.zero_add] at hmix
  rw [hdraws, Rng.skip_zero] at hactual
  obtain ⟨i, hi, rfl⟩ := mem_candidates.mp hnoise
  have hmem : ∀ j < 79, noiseAt j ∈ candidates := fun j hj => mem_candidates.mpr ⟨j, hj, rfl⟩
  have hfirst : noiseFidelity q (noiseAt i) ≤ noiseFidelity q (noiseAt 0) :=
    noiseFidelity_antitone hq (noiseAt_range (by omega)).1 (noiseAt_mono (Nat.zero_le i)) (noiseAt_range hi).2
  have hlast : noiseFidelity q (noiseAt 78) ≤ noiseFidelity q (noiseAt i) :=
    noiseFidelity_antitone hq (noiseAt_range hi).1 (noiseAt_mono (by omega)) (noiseAt_range (by omega)).2
  refine ⟨noiseFidelity q, ?_, noiseAt i, hnoise, actual, hmix, hactual, hnearest, ?_, ?_, ?_⟩
  · intro a ha
    obtain ⟨h0, h1⟩ := candidate_range ha
    obtain ⟨hge, hle⟩ := noiseFidelity_range hq h0 h1
    refine ⟨distributionFidelity_mixed hq hne h0 h1, hge, hle, ?_⟩
    intro b hb hab
    exact noiseFidelity_antitone hq h0 hab (candidate_range hb).2
  · intro hlow hhigh
    obtain ⟨j, hj, hnear⟩ := exists_near (f := fun j => noiseFidelity q (noiseAt j)) (by norm_num) hhigh hlow
      fun j hj => noiseFidelity_step hq hj
    have hhalf : (1 / 122 / 2 : ℝ) = 1 / 244 := by norm_num
    exact (hnearest _ (hmem j (by omega))).trans (hnear.trans hhalf.le)
  · intro hhigh
    have hle := hnearest _ (hmem 0 (by omega))
    rw [distance, distance, abs_of_nonpos (by linarith), abs_of_nonpos (by linarith)] at hle
    linarith
  · intro hlow
    have hle := hnearest _ (hmem 78 (by omega))
    rw [distance, distance, abs_of_nonneg (by linarith), abs_of_nonneg (by linarith)] at hle
    linarith

end Mix

/-- A generator that draws nothing but nought. -/
def Rng.still : Rng := ⟨fun _ => 0, fun _ => le_rfl, fun _ => zero_lt_one⟩

/-- A biased coin, aimed at a fidelity of one. -/
theorem mixTowardUniform_nearest_coin : ∃ noise ∈ candidates, ∃ actual,
    mixTowardUniform ((Dict.empty.set "heads" (3 / 4)).set "tails" (1 / 4)) (some 1) Rng.still =
        .ok (actual, Rng.still.skip 2) ∧
      normalizeDistribution (tilt (1 / 200) Rng.still
        (mixed ((Dict.empty.set "heads" (3 / 4)).set "tails" (1 / 4)) noise)) = .ok actual := by
  have hq : Probabilities ((Dict.empty.set "heads" (3 / 4)).set "tails" (1 / 4)) := by
    refine ⟨Dict.forall_set (Dict.forall_set (fun _ _ h => ?_) (by norm_num)) (by norm_num), by decide +kernel⟩
    cases h
  obtain ⟨-, -, noise, hnoise, actual, hmix, hactual, -⟩ := mixTowardUniform_nearest hq (by decide) 1 Rng.still
  exact ⟨noise, hnoise, actual, hmix, hactual⟩

end SynQc.Kpi
