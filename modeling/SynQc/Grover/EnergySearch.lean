import SynQc.Engine.Backends
import SynQc.Grover.Shots

/-! The adaptive shot search of `grover.py`.

The search starts from the shot floor, and while the estimate misses its target it runs again with 1.8
times the shots, up to a cap. Each run is within the cap (`runs_le_cap`), and the search always ends,
since the shots grow to the cap at the latest. It returns the shots of its last run, though, and compares
each run alone with the cap: nothing adds the runs up. The shots executed are those returned, and within
the cap, exactly if there is one run only (`accounts_iff`). The search of the engine's simulator is this
one (`energyAwareSearch_engine`). -/
namespace SynQc.Grover
open Engine (GroverExc successProbability)

/-- The shots of all runs in order, and what the search returns or raises. -/
structure EnergySearch where
  runs : List Nat
  result : Except GroverExc (Nat × Counts × ℚ)

/-- `int(math.ceil(shots * 1.8))` -/
def grow (shots : Nat) : Nat := (shots * 9 + 4) / 5

/-- The shots grow, unless they are at the cap. -/
theorem sub_next_lt {cap shots : Nat} (hle : shots ≤ cap) (hnext : min cap (grow shots) ≠ shots) :
    cap - min cap (grow shots) < cap - shots := by
  rw [grow] at hnext ⊢
  omega

section
variable (runGrover : Nat → Nat → Except GroverExc Counts) (marked : List String) (targetSuccess : ℚ) (cap : Nat)

/-- The loop from its call number `i` on. `runGrover i shots` is what the call number `i` of `run_grover`
returns or raises, for the configuration with `shots` shots. -/
def energyAwareSearch.loop (i shots : Nat) : EnergySearch :=
  if shots ≤ cap then
    match runGrover i shots with
    | .error exc => ⟨[shots], .error exc⟩
    | .ok counts =>
      let successEstimate := successProbability counts marked
      if targetSuccess ≤ successEstimate then ⟨[shots], .ok (shots, counts, successEstimate)⟩
      else
        if min cap (grow shots) = shots then ⟨[shots], .ok (shots, counts, successEstimate)⟩
        else
          let rest := loop (i + 1) (min cap (grow shots))
          ⟨shots :: rest.runs, rest.result⟩
  else
    match runGrover i cap with
    | .error exc => ⟨[cap], .error exc⟩
    | .ok counts => ⟨[cap], .ok (cap, counts, successProbability counts marked)⟩
termination_by cap - shots
decreasing_by exact sub_next_lt (by assumption) (by assumption)

def firstShots (floor : Int) : Nat := (max 16 (min floor cap)).toNat

/-- The search, from what `min_shots_for_confidence(eps, delta)` returns or raises. -/
def energyAwareSearch (confidence : Except Exc Int) : EnergySearch :=
  match confidence with
  | .error exc => ⟨[], .error (.other exc)⟩
  | .ok floor => energyAwareSearch.loop runGrover marked targetSuccess cap 0 (firstShots cap floor)

/-! ### What a call does -/

/-- A run that no other follows. -/
def lastRun (i shots : Nat) : EnergySearch :=
  match runGrover i shots with
  | .error exc => ⟨[shots], .error exc⟩
  | .ok counts => ⟨[shots], .ok (shots, counts, successProbability counts marked)⟩

theorem lastRun_runs (i shots : Nat) : (lastRun runGrover marked i shots).runs = [shots] := by
  rw [lastRun]
  split <;> rfl

/-- A call is the last, with its shots within the cap, or there is room for more shots and it goes on. -/
theorem loop_cases (i shots : Nat) :
    energyAwareSearch.loop runGrover marked targetSuccess cap i shots = lastRun runGrover marked i (min shots cap) ∨
      shots ≤ cap ∧ min cap (grow shots) ≠ shots ∧
        energyAwareSearch.loop runGrover marked targetSuccess cap i shots =
          let rest := energyAwareSearch.loop runGrover marked targetSuccess cap (i + 1) (min cap (grow shots))
          ⟨shots :: rest.runs, rest.result⟩ := by
  rw [energyAwareSearch.loop]
  by_cases hle : shots ≤ cap
  · rw [if_pos hle, min_eq_left hle, lastRun]
    cases hrun : runGrover i shots with
    | error exc => exact .inl rfl
    | ok counts =>
      dsimp only
      by_cases hgood : targetSuccess ≤ successProbability counts marked
      · exact .inl (if_pos hgood)
      · rw [if_neg hgood]
        by_cases hnext : min cap (grow shots) = shots
        · exact .inl (if_pos hnext)
        · exact .inr ⟨hle, hnext, if_neg hnext⟩
  · rw [if_neg hle, min_eq_right (Nat.le_of_not_le hle)]
    exact .inl rfl

/-- What holds of a last run within the cap, and is kept by a run in front, holds of the loop. -/
theorem loop_induction {P : EnergySearch → Prop} (hlast : ∀ i n, n ≤ cap → P (lastRun runGrover marked i n))
    (hcons : ∀ shots rest, shots ≤ cap → P rest → P ⟨shots :: rest.runs, rest.result⟩) (i shots : Nat) :
    P (energyAwareSearch.loop runGrover marked targetSuccess cap i shots) := by
  induction hroom : cap - shots using Nat.strong_induction_on generalizing i shots with
  | _ room ih =>
    obtain hcall | ⟨hle, hnext, hcall⟩ := loop_cases runGrover marked targetSuccess cap i shots
    · rw [hcall]
      exact hlast i _ (min_le_right _ _)
    · rw [hcall]
      exact hcons shots _ hle (ih _ (hroom ▸ sub_next_lt hle hnext) _ _ rfl)

/-! ### Single runs -/

theorem loop_runs_le_cap (i shots : Nat) :
    ∀ n ∈ (energyAwareSearch.loop runGrover marked targetSuccess cap i shots).runs, n ≤ cap := by
  refine loop_induction (P := fun search => ∀ n ∈ search.runs, n ≤ cap) runGrover marked targetSuccess cap ?_ ?_ i shots
  · intro i n hle m hm
    rw [lastRun_runs, List.mem_singleton] at hm
    rwa [hm]
  · intro shots rest hle hrest
    exact List.forall_mem_cons.mpr ⟨hle, hrest⟩

/-- Each run alone is within the cap. -/
theorem runs_le_cap (confidence : Except Exc Int) :
    ∀ n ∈ (energyAwareSearch runGrover marked targetSuccess cap confidence).runs, n ≤ cap := by
  cases confidence with
  | error exc => simp [energyAwareSearch]
  | ok floor => exact loop_runs_le_cap runGrover marked targetSuccess cap 0 _

end

theorem loop_engine (runGrover : Nat → Except GroverExc Counts) (marked : List String) (targetSuccess : ℚ)
    (cap i shots : Nat) :
    (energyAwareSearch.loop (fun _ => runGrover) marked targetSuccess cap i shots).result =
      Engine.energyAwareSearch.loop runGrover marked targetSuccess cap shots := by
  induction shots using Engine.energyAwareSearch.loop.induct runGrover marked targetSuccess cap generalizing i with
  | case1 shots hle exc hrun => simp [energyAwareSearch.loop, Engine.energyAwareSearch.loop, hle, hrun]
  | case2 shots hle counts hrun success hgood =>
    rw [energyAwareSearch.loop, Engine.energyAwareSearch.loop]
    simp only [success] at hgood
    simp [hle, hrun, hgood]
  | case3 shots hle counts hrun success hbad hnext =>
    rw [energyAwareSearch.loop, Engine.energyAwareSearch.loop]
    simp only [success] at hbad
    simp [hle, hrun, hbad, grow, hnext]
  | case4 shots hle counts hrun success hbad hnext ih =>
    rw [energyAwareSearch.loop, Engine.energyAwareSearch.loop]
    simp only [success] at hbad
    simpa [hle, hrun, hbad, grow, hnext] using ih (i + 1)
  | case5 shots hle exc hrun => simp [energyAwareSearch.loop, Engine.energyAwareSearch.loop, hle, hrun]
  | case6 shots hle counts hrun => simp [energyAwareSearch.loop, Engine.energyAwareSearch.loop, hle, hrun]

/-- With runs that do not depend on the number of the call, what the search returns is what the engine's
simulator takes from it. -/
theorem energyAwareSearch_engine (runGrover : Nat → Except GroverExc Counts) (marked : List String)
    (targetSuccess : ℚ) (cap : Nat) :
    (energyAwareSearch (fun _ => runGrover) marked targetSuccess cap (.ok Engine.minShots)).result =
      Engine.energyAwareSearch runGrover marked targetSuccess cap := by
  have hfirst : firstShots cap Engine.minShots = max 16 (min Engine.minShots cap) := by
    rw [firstShots]
    omega
  rw [energyAwareSearch, Engine.energyAwareSearch, hfirst]
  exact loop_engine runGrover marked targetSuccess cap 0 _

/-! ### The sum of the runs -/

/-- All runs together are within the cap, and what is returned as the shots used is their sum. -/
def Accounts (cap : Nat) (search : EnergySearch) : Prop :=
  search.runs.sum ≤ cap ∧ ∀ r, search.result = .ok r → r.1 = search.runs.sum

section
variable (answers : Nat → Nat → Counts) (marked : List String) (targetSuccess : ℚ) (cap : Nat)

/-- The search returns, and the shots of the last run are part of the sum. -/
theorem loop_returns (i shots : Nat) :
    ∃ r, (energyAwareSearch.loop (fun i n => .ok (answers i n)) marked targetSuccess cap i shots).result = .ok r ∧
      r.1 ≤ (energyAwareSearch.loop (fun i n => .ok (answers i n)) marked targetSuccess cap i shots).runs.sum := by
  refine loop_induction (P := fun search => ∃ r, search.result = .ok r ∧ r.1 ≤ search.runs.sum)
    (fun i n => .ok (answers i n)) marked targetSuccess cap ?_ ?_ i shots
  · intro i n _
    exact ⟨_, rfl, le_rfl⟩
  · rintro shots rest - ⟨r, hr, hsum⟩
    exact ⟨r, hr, hsum.trans (Nat.le_add_left _ _)⟩

/-- From `shots` on, the account holds if they are not below the cap or the first estimate is good enough;
else a second run follows, and the shots of the first are in the sum and not in what is returned. -/
theorem loop_accounts_iff (i : Nat) {shots : Nat} (hpos : 0 < shots) :
    Accounts cap (energyAwareSearch.loop (fun i n => .ok (answers i n)) marked targetSuccess cap i shots) ↔
      cap ≤ shots ∨ targetSuccess ≤ successProbability (answers i shots) marked := by
  rw [energyAwareSearch.loop]
  by_cases hle : shots ≤ cap
  · simp only [if_pos hle]
    by_cases hgood : targetSuccess ≤ successProbability (answers i shots) marked
    · rw [if_pos hgood]
      simp [Accounts, hgood, hle]
    · rw [if_neg hgood]
      by_cases hcap : cap ≤ shots
      · have hnext : min cap (grow shots) = shots := by
          rw [grow]
          omega
        rw [if_pos hnext]
        simp [Accounts, hcap, hle]
      · have hnext : min cap (grow shots) ≠ shots := by
          rw [grow]
          omega
        rw [if_neg hnext]
        obtain ⟨r, hr, hsum⟩ := loop_returns answers marked targetSuccess cap (i + 1) (min cap (grow shots))
        refine ⟨fun h => ?_, fun h => absurd h (not_or.mpr ⟨hcap, hgood⟩)⟩
        have hused := h.2 r hr
        rw [List.sum_cons] at hused
        omega
  · simp [Accounts, hle, Nat.le_of_not_le hle]

end

theorem cap_le_firstShots_iff (cap : Nat) (floor : Int) : cap ≤ firstShots cap floor ↔ (cap : Int) ≤ max 16 floor := by
  rw [firstShots]
  omega

theorem firstShots_pos (cap : Nat) (floor : Int) : 0 < firstShots cap floor := by
  rw [firstShots]
  omega

/-- **The search accounts for its shots** exactly if it has nothing to run, or the first run is at the
cap, or the first run reaches the target. -/
theorem accounts_iff (eps delta : ℝ) (marked : List String) (targetSuccess : ℚ) (cap : Nat)
    (answers : Nat → Nat → Counts) :
    Accounts cap
        (energyAwareSearch (fun i n => .ok (answers i n)) marked targetSuccess cap (minShotsForConfidence eps delta)) ↔
      ∀ floor, minShotsForConfidence eps delta = .ok floor →
        (cap : Int) ≤ max 16 floor ∨
          targetSuccess ≤ successProbability (answers 0 (firstShots cap floor)) marked := by
  cases hconfidence : minShotsForConfidence eps delta with
  | error exc => simp [energyAwareSearch, Accounts]
  | ok floor =>
    rw [energyAwareSearch, loop_accounts_iff _ _ _ _ _ (firstShots_pos cap floor), cap_le_firstShots_iff]
    simp

/-- A cap of 64, and no shot ever on the marked state: runs of 16, 29, 53 and 64 shots, and 64 returned. -/
theorem not_accounts :
    ¬∀ answers : Nat → Nat → Counts, (∀ i n, (answers i n).sum = n) →
      Accounts 64
        (energyAwareSearch (fun i n => .ok (answers i n)) ["10101"] (1 / 2) 64 (minShotsForConfidence 1 (1 / 2))) := by
  simp only [not_forall]
  have hlog : Real.log (2 / (1 / 2)) ≤ 2 / (1 / 2) - 1 := Real.log_le_sub_one_of_pos (by norm_num)
  have hfloor : ⌈hoeffdingShots 1 (1 / 2)⌉ ≤ 16 := by
    rw [Int.ceil_le, hoeffdingShots, div_le_iff₀ (by norm_num)]
    norm_num at hlog ⊢
    linarith
  refine ⟨fun _ n => Dict.empty.set "00000" n, ?_, ?_⟩
  · intro i n
    simp [Counts.sum, Dict.total, Dict.set, Dict.empty, Dict.put]
  · rw [minShotsForConfidence_eq (by norm_num) (by norm_num) (by norm_num), energyAwareSearch,
      loop_accounts_iff _ _ _ _ _ (firstShots_pos _ _), cap_le_firstShots_iff]
    have hmiss : ∀ n : Nat, successProbability (Dict.empty.set "00000" n) ["10101"] = 0 := by
      intro n
      simp [successProbability, Dict.total, Dict.set, Dict.empty, Dict.put]
    rw [hmiss]
    norm_num
    omega

end SynQc.Grover
