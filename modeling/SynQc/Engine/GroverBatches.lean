import Mathlib.Algebra.BigOperators.Group.List.Basic
import SynQc.Engine.Qiskit

/-! The budget of the Qiskit Grover loop.

Here the loop runs with the sizes of its batches written down (`groverTrace`); without them it is the loop
of the client (`groverTrace_result`). A batch is never larger than what is left of the budget, the shots
reported are the sum of the sizes, and the loop leaves budget over only after a batch that found the marked
state often enough (`budget_accounted`). -/
namespace SynQc.Engine.Qiskit

/-- The loop of the Grover preset with the sizes of its batches, and what it returns or raises. -/
def groverTrace (q : Qiskit) (shots batch configShots totalShotsUsed : Nat) :
    List Nat × Except Exc (Counts × Nat) :=
  let currentShots := min configShots (shots - totalShotsUsed)
  if currentShots = 0 then ([], .error (.valueError "shots must be positive"))
  else
    match q.execute batch .groverDemo currentShots with
    | .error exc => ([currentShots], .error exc)
    | .ok counts =>
      if 9 / 10 ≤ successProbability counts ["11"] ∨ shots - (totalShotsUsed + currentShots) = 0 then
        ([currentShots], .ok (counts, totalShotsUsed + currentShots))
      else
        let rest := groverTrace q shots (batch + 1) (min (currentShots * 2) shots) (totalShotsUsed + currentShots)
        (currentShots :: rest.1, rest.2)
termination_by shots - totalShotsUsed
decreasing_by omega

/-- Without the sizes it is the loop of the client. -/
theorem groverTrace_result (q : Qiskit) (shots batch configShots total : Nat) :
    (groverTrace q shots batch configShots total).2 = groverBatches q shots batch configShots total := by
  induction batch, configShots, total using groverBatches.induct q shots with
  | case1 batch configShots total hzero =>
    rw [groverTrace, groverBatches, if_pos hzero, if_pos hzero]
  | case2 batch configShots total hzero exc hrun =>
    rw [groverTrace, groverBatches]
    simp [hzero, hrun]
  | case3 batch configShots total hzero counts hrun hstop =>
    rw [groverTrace, groverBatches]
    simp only [hzero, hrun, hstop, if_true, if_false]
  | case4 batch configShots total hzero counts hrun hstop ih =>
    rw [groverTrace, groverBatches]
    simp only [hzero, hrun, hstop, if_false]
    exact ih

/-- The batches of the preset, for a budget. -/
def groverSizes (q : Qiskit) (shotBudget : Int) : List Nat :=
  let shots := (max 1 shotBudget).toNat
  (groverTrace q shots 0 (min 64 shots) 0).1

/-- An installation that answers every batch, whatever it counts. -/
def answering (answers : Nat → Nat → Counts) : Qiskit := {execute := fun batch _ shots => .ok (answers batch shots)}

/-- From `total` shots on, the account of the batches `sizes` that end with `counts`: each takes at least one
shot and no more than is left, and shots are left over only if the last batch has found the marked state. -/
structure Accounted (answers : Nat → Nat → Counts) (shots batch total : Nat) (sizes : List Nat) (counts : Counts) :
    Prop where
  within : ∀ i size, sizes[i]? = some size → 1 ≤ size ∧ size ≤ shots - (total + (sizes.take i).sum)
  last : ∃ size, sizes.getLast? = some size ∧ counts = answers (batch + sizes.length - 1) size
  le : total + sizes.sum ≤ shots
  stops : total + sizes.sum < shots → 9 / 10 ≤ successProbability counts ["11"]

section
variable {answers : Nat → Nat → Counts} {shots : Nat}

theorem Accounted.single {batch total size : Nat} (hsize : 1 ≤ size) (hle : total + size ≤ shots)
    (hstop : 9 / 10 ≤ successProbability (answers batch size) ["11"] ∨ shots - (total + size) = 0) :
    Accounted answers shots batch total [size] (answers batch size) where
  within i s hs := by
    cases i with
    | zero =>
      obtain rfl := Option.some.inj hs
      simp only [List.take_zero, List.sum_nil]
      omega
    | succ i => cases hs
  last := ⟨size, rfl, rfl⟩
  le := by simpa using hle
  stops hlt := by
    rw [List.sum_singleton] at hlt
    exact hstop.resolve_right (by omega)

theorem Accounted.cons {batch total size : Nat} {sizes : List Nat} {counts : Counts} (hsize : 1 ≤ size)
    (hle : total + size ≤ shots) (h : Accounted answers shots (batch + 1) (total + size) sizes counts) :
    Accounted answers shots batch total (size :: sizes) counts where
  within i s hs := by
    cases i with
    | zero =>
      obtain rfl := Option.some.inj hs
      simp only [List.take_zero, List.sum_nil]
      omega
    | succ i =>
      have hrest := h.within i s hs
      rwa [List.take_succ_cons, List.sum_cons, ← Nat.add_assoc]
  last := by
    obtain ⟨s, hlast, hcounts⟩ := h.last
    refine ⟨s, by rw [List.getLast?_cons, hlast, Option.getD_some], ?_⟩
    rw [hcounts, List.length_cons]
    congr 1
    omega
  le := by
    rw [List.sum_cons, ← Nat.add_assoc]
    exact h.le
  stops := by
    rw [List.sum_cons, ← Nat.add_assoc]
    exact h.stops

/-- The loop ends, with its account, whatever the batches count. -/
theorem groverTrace_accounted (answers : Nat → Nat → Counts) (batch configShots total : Nat)
    (hconfig : 1 ≤ configShots) (htotal : total < shots) :
    ∃ sizes counts, groverTrace (answering answers) shots batch configShots total =
        (sizes, .ok (counts, total + sizes.sum)) ∧ Accounted answers shots batch total sizes counts := by
  induction batch, configShots, total using groverTrace.induct (answering answers) shots with
  | case1 batch configShots total current hzero => omega
  | case2 batch configShots total current hzero exc hrun => cases hrun
  | case3 batch configShots total current hzero counts hrun hstop =>
    obtain rfl := Except.ok.inj hrun
    refine ⟨[current], _, ?_, .single (by omega) (by omega) hstop⟩
    rw [groverTrace, if_neg hzero, List.sum_singleton]
    exact if_pos hstop
  | case4 batch configShots total current hzero counts hrun hstop ih =>
    obtain rfl := Except.ok.inj hrun
    obtain ⟨sizes, counts, htrace, haccount⟩ := ih (by omega) (by omega)
    refine ⟨current :: sizes, counts, ?_, .cons (by omega) (by omega) haccount⟩
    rw [groverTrace, if_neg hzero, List.sum_cons, ← Nat.add_assoc]
    refine (if_neg hstop).trans ?_
    rw [htrace]

/-- **The budget of the Grover preset is accounted for**: for every budget and whatever the batches count,
the client answers with the sum of the batch sizes, which is at most `max 1 shotBudget`. -/
theorem budget_accounted (answers : Nat → Nat → Counts) (shotBudget : Int) :
    ∃ result, (answering answers).client .groverDemo shotBudget = .ok result ∧
      Accounted answers (max 1 shotBudget).toNat 0 0 (groverSizes (answering answers) shotBudget) result.rawCounts ∧
        result.shotsUsed = some ((groverSizes (answering answers) shotBudget).sum : Int) := by
  obtain ⟨sizes, counts, htrace, haccount⟩ := groverTrace_accounted answers 0
    (min 64 (max 1 shotBudget).toNat) 0 (by omega) (show 0 < (max 1 shotBudget).toNat by omega)
  have hsizes : groverSizes (answering answers) shotBudget = sizes := congrArg Prod.fst htrace
  have hbatches := groverTrace_result (answering answers) (max 1 shotBudget).toNat 0
    (min 64 (max 1 shotBudget).toNat) 0
  rw [htrace] at hbatches
  rw [hsizes]
  refine ⟨⟨counts, some (expectedBaseline .groverDemo), some (successProbability counts ["11"]), none, none,
    some ((0 + sizes.sum : Nat) : Int)⟩, ?_, haccount, by rw [Nat.zero_add]⟩
  rw [client, run, ← hbatches]
  rfl

end

end SynQc.Engine.Qiskit
