import SynQc.Grover.Shots
import SynQc.Grover.Utils

/-! The adaptive shot search of `grover_utils.py`.

It doubles the shots up to a cap until the estimate reaches its target, or the cap is reached both by the
shots asked for and by the shots that came back. The second half of that test is about the backend: one
that reports fewer shots than asked for, and never a good estimate, is asked again without end
(`stops_iff`). What is returned does describe the last run, and each run is within the cap. -/
namespace SynQc.Grover.Utils

/-- `GroverConfig(...)` with its `__post_init__`. -/
def GroverConfig.make (nQubits : Int) (marked : List String) (shots : Int := 128) : Except Exc GroverConfig :=
  if hqubits : nQubits ≤ 0 then .error (.valueError "n_qubits must be positive")
  else if hshots : shots ≤ 0 then .error (.valueError "shots must be positive")
  else .ok {
    nQubits := nQubits.toNat
    marked := marked
    shots := shots.toNat
    nQubits_pos := by omega
    shots_pos := by omega }

/-- `with_shots`, whose `replace` runs `__post_init__` again. -/
def GroverConfig.withShots (cfg : GroverConfig) (shots : Int) : Except Exc GroverConfig :=
  GroverConfig.make cfg.nQubits cfg.marked shots

def successProbability (counts : Counts) (marked : List String) : ℚ :=
  let total := counts.sum
  if total ≤ 0 then 0
  else if marked = [] then 0
  else
    -- The marked strings are a set.
    let successShots := (marked.dedup.map fun key => (counts.get? key).getD 0).sum
    successShots / total

/-- What the search returns, with the shots of all runs in order. -/
structure Search where
  asked : List Nat
  shotsUsed : Int
  counts : Counts
  success : ℚ

/-- The body of the loop up to its tests: the call number `i`, with `shots` shots. -/
def single (runGrover : Nat → Nat → Counts) (cfg : GroverConfig) (i shots : Nat) : Search :=
  let counts := runGrover i shots
  ⟨[shots], counts.sum, counts, successProbability counts cfg.marked⟩

section
variable (runGrover : Nat → Nat → Counts) (cfg : GroverConfig) (targetSuccess : ℚ) (floor cap : Int)

/-- The loop from its call number `i` on, for a number of iterations; `none` if it has not ended by then.
`runGrover i shots` is what the call number `i` returns for the configuration with `shots` shots. -/
def energyAwareSearch.loop : Nat → Nat → Int → Except Exc (Option Search)
  | 0, _, _ => .ok none
  | fuel + 1, i, shots => do
    let testCfg ← cfg.withShots (min shots cap)
    let search := single runGrover cfg i testCfg.shots
    if targetSuccess ≤ search.success then return some search
    if cap ≤ min shots cap ∧ cap ≤ search.shotsUsed then return some search
    let nextShots := max (min shots cap * 2) floor
    let rest ← loop fuel (i + 1) (min nextShots cap)
    return rest.map fun search => {search with asked := testCfg.shots :: search.asked}

end

/-- The search, from what `min_shots_for_confidence(eps, delta)` returns or raises. -/
def energyAwareSearch (runGrover : Nat → Nat → Counts) (cfg : GroverConfig) (targetSuccess : ℚ) (cap : Int)
    (confidence : Except Exc Int) (fuel : Nat) : Except Exc (Option Search) := do
  let confidenceFloor ← confidence
  energyAwareSearch.loop runGrover cfg targetSuccess confidenceFloor cap fuel 0
    (max confidenceFloor (max 1 cfg.shots))

/-! ### What each run asks for -/

/-- The shots of the call number `k`: doubled each time, within the cap. -/
def asked (cfg : GroverConfig) (floor cap : Int) (k : Nat) : Nat :=
  (min (2 ^ k * max floor (max 1 cfg.shots)) cap).toNat

section
variable {runGrover : Nat → Nat → Counts} {cfg : GroverConfig} {targetSuccess : ℚ} {floor cap : Int}

theorem start_pos (cfg : GroverConfig) (floor : Int) : 0 < max floor (max 1 (cfg.shots : Int)) := by omega

theorem doubled_pos (cfg : GroverConfig) (floor : Int) (k : Nat) : 0 < (2 : Int) ^ k * max floor (max 1 cfg.shots) :=
  mul_pos (by positivity) (start_pos cfg floor)

theorem asked_pos (cfg : GroverConfig) (floor : Int) (hcap : 1 ≤ cap) (k : Nat) : 0 < asked cfg floor cap k := by
  have hpow := doubled_pos cfg floor k
  rw [asked]
  omega

theorem asked_cast (hcap : 1 ≤ cap) (k : Nat) :
    (asked cfg floor cap k : Int) = min (2 ^ k * max floor (max 1 cfg.shots)) cap := by
  have hpow := doubled_pos cfg floor k
  rw [asked]
  omega

theorem asked_le (hcap : 1 ≤ cap) (k : Nat) : (asked cfg floor cap k : Int) ≤ cap := by
  rw [asked_cast hcap]
  exact min_le_right _ _

/-- The next run asks for twice as much, or the floor if that is more; it never is. -/
theorem asked_succ (hcap : 1 ≤ cap) (k : Nat) :
    min (max ((asked cfg floor cap k : Int) * 2) floor) cap = asked cfg floor cap (k + 1) := by
  have hfloor : floor ≤ 2 ^ (k + 1) * max floor (max 1 (cfg.shots : Int)) := by
    have hone : (1 : Int) ≤ 2 ^ (k + 1) := one_le_pow₀ (by norm_num)
    have := le_mul_of_one_le_left (start_pos cfg floor).le hone
    omega
  rw [asked_cast hcap, asked_cast hcap]
  rw [pow_succ, mul_right_comm] at *
  omega

theorem asked_zero (cfg : GroverConfig) (floor : Int) (hcap : 1 ≤ cap) :
    min (max floor (max 1 (cfg.shots : Int))) cap = asked cfg floor cap 0 := by
  rw [asked_cast hcap, pow_zero, one_mul]

theorem withShots_asked (cfg : GroverConfig) (floor : Int) (hcap : 1 ≤ cap) (k : Nat) :
    ∃ testCfg, cfg.withShots (asked cfg floor cap k) = .ok testCfg ∧ testCfg.shots = asked cfg floor cap k := by
  have hpos := asked_pos cfg floor hcap k
  have hqubits := cfg.nQubits_pos
  rw [GroverConfig.withShots, GroverConfig.make, dif_neg (by omega), dif_neg (by omega)]
  exact ⟨_, rfl, rfl⟩

/-! ### When the search stops -/

/-- The call number `k` ends the search: it reaches the target, or asks for the cap and gets it. -/
def Enough (runGrover : Nat → Nat → Counts) (cfg : GroverConfig) (targetSuccess : ℚ) (floor cap : Int) (k : Nat) :
    Prop :=
  targetSuccess ≤ (single runGrover cfg k (asked cfg floor cap k)).success ∨
    (cap ≤ asked cfg floor cap k ∧ cap ≤ (single runGrover cfg k (asked cfg floor cap k)).shotsUsed)

theorem loop_enough (hcap : 1 ≤ cap) {k : Nat} {shots : Int} (hshots : min shots cap = asked cfg floor cap k)
    (h : Enough runGrover cfg targetSuccess floor cap k) (fuel : Nat) :
    energyAwareSearch.loop runGrover cfg targetSuccess floor cap (fuel + 1) k shots =
      .ok (some (single runGrover cfg k (asked cfg floor cap k))) := by
  obtain ⟨testCfg, hcfg, htest⟩ := withShots_asked cfg floor hcap k
  rw [energyAwareSearch.loop, hshots, hcfg]
  dsimp only [bind, Except.bind]
  rw [htest]
  obtain hgood | ⟨hasked, hused⟩ := h
  · rw [if_pos hgood]
    rfl
  · by_cases hgood : targetSuccess ≤ (single runGrover cfg k (asked cfg floor cap k)).success
    · rw [if_pos hgood]
      rfl
    · rw [if_neg hgood, if_pos ⟨hasked, hused⟩]
      rfl

theorem loop_next (hcap : 1 ≤ cap) {k : Nat} {shots : Int} (hshots : min shots cap = asked cfg floor cap k)
    (h : ¬Enough runGrover cfg targetSuccess floor cap k) (fuel : Nat) :
    energyAwareSearch.loop runGrover cfg targetSuccess floor cap (fuel + 1) k shots =
      (energyAwareSearch.loop runGrover cfg targetSuccess floor cap fuel (k + 1) (asked cfg floor cap (k + 1))).map
        (Option.map fun search => {search with asked := asked cfg floor cap k :: search.asked}) := by
  obtain ⟨hgood, hcapped⟩ := not_or.mp h
  obtain ⟨testCfg, hcfg, htest⟩ := withShots_asked cfg floor hcap k
  rw [energyAwareSearch.loop, hshots, hcfg]
  dsimp only [bind, Except.bind]
  rw [htest, if_neg hgood, if_neg hcapped, asked_succ hcap]
  dsimp only [pure, Except.pure]
  cases energyAwareSearch.loop runGrover cfg targetSuccess floor cap fuel (k + 1) (asked cfg floor cap (k + 1)) <;> rfl

/-- What an ended loop gives from its call number `k` on: runs within the cap, and the figures of the last. -/
structure DescribesLast (runGrover : Nat → Nat → Counts) (cfg : GroverConfig) (cap : Int) (k : Nat)
    (search : Search) : Prop where
  asked_le : ∀ shots ∈ search.asked, (shots : Int) ≤ cap
  last : ∃ shots, search.asked.getLast? = some shots ∧
    search.counts = runGrover (k + search.asked.length - 1) shots
  shotsUsed : search.shotsUsed = search.counts.sum
  success : search.success = successProbability search.counts cfg.marked

theorem DescribesLast.single (hcap : 1 ≤ cap) (k : Nat) :
    DescribesLast runGrover cfg cap k (single runGrover cfg k (asked cfg floor cap k)) where
  asked_le shots hshots := by
    rw [List.mem_singleton.mp hshots]
    exact Utils.asked_le hcap k
  last := ⟨_, rfl, rfl⟩
  shotsUsed := rfl
  success := rfl

theorem DescribesLast.cons (hcap : 1 ≤ cap) {k : Nat} {search : Search}
    (h : DescribesLast runGrover cfg cap (k + 1) search) :
    DescribesLast runGrover cfg cap k {search with asked := asked cfg floor cap k :: search.asked} where
  asked_le shots hshots := by
    obtain rfl | hmem := List.mem_cons.mp hshots
    · exact Utils.asked_le hcap k
    · exact h.asked_le shots hmem
  last := by
    obtain ⟨shots, hlast, hcounts⟩ := h.last
    refine ⟨shots, ?_, ?_⟩
    · rw [List.getLast?_cons, hlast, Option.getD_some]
    · rw [hcounts, List.length_cons]
      congr 1
      omega
  shotsUsed := h.shotsUsed
  success := h.success

theorem loop_describesLast (hcap : 1 ≤ cap) {fuel k : Nat} {shots : Int}
    (hshots : min shots cap = asked cfg floor cap k) {search : Search}
    (h : energyAwareSearch.loop runGrover cfg targetSuccess floor cap fuel k shots = .ok (some search)) :
    DescribesLast runGrover cfg cap k search := by
  induction fuel generalizing k shots search with
  | zero => cases h
  | succ fuel ih =>
    by_cases henough : Enough runGrover cfg targetSuccess floor cap k
    · rw [loop_enough hcap hshots henough] at h
      obtain rfl := Option.some.inj (Except.ok.inj h)
      exact .single hcap k
    · rw [loop_next hcap hshots henough] at h
      cases hrest : energyAwareSearch.loop runGrover cfg targetSuccess floor cap fuel (k + 1)
          (asked cfg floor cap (k + 1)) with
      | error exc =>
        rw [hrest] at h
        cases h
      | ok rest =>
        rw [hrest] at h
        cases rest with
        | none => cases h
        | some rest =>
          obtain rfl := Option.some.inj (Except.ok.inj h)
          exact .cons hcap (ih (min_eq_left (asked_le hcap (k + 1))) hrest)

/-- The loop ends at the first call that is enough, so it ends if and only if one is. -/
theorem loop_ends_iff (hcap : 1 ≤ cap) {fuel k : Nat} {shots : Int} (hshots : min shots cap = asked cfg floor cap k) :
    (∃ search, energyAwareSearch.loop runGrover cfg targetSuccess floor cap fuel k shots = .ok (some search)) ↔
      ∃ j < fuel, Enough runGrover cfg targetSuccess floor cap (k + j) := by
  induction fuel generalizing k shots with
  | zero => simp [energyAwareSearch.loop]
  | succ fuel ih =>
    by_cases henough : Enough runGrover cfg targetSuccess floor cap k
    · rw [loop_enough hcap hshots henough]
      exact ⟨fun _ => ⟨0, Nat.succ_pos fuel, henough⟩, fun _ => ⟨_, rfl⟩⟩
    · have hlater : (∃ j < fuel + 1, Enough runGrover cfg targetSuccess floor cap (k + j)) ↔
          ∃ j < fuel, Enough runGrover cfg targetSuccess floor cap (k + 1 + j) := by
        constructor
        · rintro ⟨_ | j, hlt, hj⟩
          · exact absurd hj henough
          · exact ⟨j, by omega, by rwa [show k + 1 + j = k + (j + 1) by omega]⟩
        · rintro ⟨j, hlt, hj⟩
          exact ⟨j + 1, by omega, by rwa [show k + (j + 1) = k + 1 + j by omega]⟩
      rw [hlater, ← ih (min_eq_left (asked_le hcap (k + 1))), loop_next hcap hshots henough]
      cases energyAwareSearch.loop runGrover cfg targetSuccess floor cap fuel (k + 1) (asked cfg floor cap (k + 1)) with
      | error exc => simp [Except.map]
      | ok rest => cases rest <;> simp [Except.map]

/-- The search ends, each of its runs is within the cap, and what it returns describes the last run. -/
def Stops (runGrover : Nat → Nat → Counts) (cfg : GroverConfig) (targetSuccess : ℚ) (cap : Int)
    (confidence : Except Exc Int) : Prop :=
  ∃ fuel search, energyAwareSearch runGrover cfg targetSuccess cap confidence fuel = .ok (some search) ∧
    DescribesLast runGrover cfg cap 0 search

theorem stops_floor_iff (runGrover : Nat → Nat → Counts) (cfg : GroverConfig) (targetSuccess : ℚ) (floor : Int)
    (hcap : 1 ≤ cap) :
    Stops runGrover cfg targetSuccess cap (.ok floor) ↔ ∃ k, Enough runGrover cfg targetSuccess floor cap k := by
  have hstart := asked_zero cfg floor hcap
  constructor
  · rintro ⟨fuel, search, hsearch, -⟩
    obtain ⟨j, -, hj⟩ := (loop_ends_iff hcap hstart).mp ⟨search, hsearch⟩
    exact ⟨0 + j, hj⟩
  · rintro ⟨k, hk⟩
    obtain ⟨search, hsearch⟩ := (loop_ends_iff hcap hstart).mpr ⟨k, Nat.lt_succ_self k, by rwa [Nat.zero_add]⟩
    exact ⟨k + 1, search, hsearch, loop_describesLast hcap hstart hsearch⟩

/-- **The search stops** exactly if some call reaches the target, or asks for the cap and gets as many
shots back. -/
theorem stops_iff {eps delta : ℝ} (heps : 0 < eps) (hdelta : 0 < delta) (hlt : delta < 1)
    (runGrover : Nat → Nat → Counts) (cfg : GroverConfig) (targetSuccess : ℚ) {cap : Int} (hcap : 1 ≤ cap) :
    Stops runGrover cfg targetSuccess cap (minShotsForConfidence eps delta) ↔
      ∃ k, Enough runGrover cfg targetSuccess ⌈hoeffdingShots eps delta⌉ cap k := by
  rw [Utils.minShotsForConfidence_eq heps hdelta hlt]
  exact stops_floor_iff runGrover cfg targetSuccess _ hcap

end

/-! ### Two backends -/

/-- All outcomes equal, for two qubits and the marked state `01`. -/
def steady (outcome : String) (shots : Int) : Counts := Dict.empty.set outcome shots

theorem steady_sum (outcome : String) (shots : Int) : (steady outcome shots).sum = shots := by
  simp [steady, Counts.sum, Dict.total, Dict.set, Dict.empty, Dict.put]

theorem successProbability_unmarked (shots : Int) : successProbability (steady "00" shots) ["01"] = 0 := by
  have hget : (steady "00" shots).get? "01" = none := Dict.get?_set_ne _ _ (by decide)
  simp [successProbability, hget]

def twoQubits : GroverConfig := ⟨2, ["01"], 128, by decide, by decide⟩

def sixteenShots : GroverConfig := ⟨2, ["01"], 16, by decide, by decide⟩

theorem hoeffding_ceil_le : ⌈hoeffdingShots 1 (1 / 2)⌉ ≤ 16 := by
  rw [Int.ceil_le, hoeffdingShots]
  have hlog : Real.log (2 / (1 / 2)) ≤ 2 / (1 / 2) - 1 := Real.log_le_sub_one_of_pos (by norm_num)
  norm_num at hlog ⊢
  linarith

/-- The shots double from the configuration's, as the floor is below them. -/
theorem asked_sixteenShots (k : Nat) :
    asked sixteenShots ⌈hoeffdingShots 1 (1 / 2)⌉ 64 k = (min (2 ^ k * 16) 64 : Int).toNat := by
  have hmax : max ⌈hoeffdingShots 1 (1 / 2)⌉ (max 1 (sixteenShots.shots : Int)) = 16 := by
    rw [show (sixteenShots.shots : Int) = 16 from rfl, show max (1 : Int) 16 = 16 from rfl]
    exact max_eq_right hoeffding_ceil_le
  rw [asked, hmax]

/-- A backend that measures every shot, and never the marked state, is asked for 16 shots, then 32, and
stops at the cap. -/
theorem stops_at_cap :
    Stops (fun _ shots => steady "00" shots) sixteenShots 1 64 (minShotsForConfidence 1 (1 / 2)) ∧
      ∀ k < 2, ¬Enough (fun _ shots => steady "00" shots) sixteenShots 1 ⌈hoeffdingShots 1 (1 / 2)⌉ 64 k := by
  constructor
  · refine (stops_iff (by norm_num) (by norm_num) (by norm_num) _ sixteenShots 1 (by decide)).mpr ⟨2, .inr ⟨?_, ?_⟩⟩
    · rw [asked_sixteenShots]
      decide
    · refine le_of_le_of_eq ?_ (steady_sum _ _).symm
      rw [asked_sixteenShots]
      decide
  · rintro k hk (hgood | ⟨hasked, -⟩)
    · have hgood : (1 : ℚ) ≤ 0 := hgood.trans (successProbability_unmarked _).le
      exact absurd hgood (by norm_num)
    · rw [asked_sixteenShots] at hasked
      obtain rfl | rfl : k = 0 ∨ k = 1 := by omega
      · exact absurd hasked (by decide)
      · exact absurd hasked (by decide)

/-- A backend that loses one shot of each run, and never measures the marked state, is asked for ever. -/
theorem not_stops :
    ¬∀ runGrover : Nat → Nat → Counts, Stops runGrover twoQubits 1 64 (minShotsForConfidence 1 (1 / 2)) := by
  simp only [not_forall]
  refine ⟨fun _ shots => steady "00" (shots - 1), ?_⟩
  rw [Utils.minShotsForConfidence_eq (by norm_num) (by norm_num) (by norm_num), stops_floor_iff _ _ _ _ (by decide)]
  rintro ⟨k, hgood | ⟨-, hused⟩⟩
  · have hgood : (1 : ℚ) ≤ 0 := hgood.trans (successProbability_unmarked _).le
    exact absurd hgood (by norm_num)
  · have hle : (asked twoQubits ⌈hoeffdingShots 1 (1 / 2)⌉ 64 k : Int) ≤ 64 := asked_le (by decide) k
    have hused := hused.trans (steady_sum _ _).le
    omega

end SynQc.Grover.Utils
