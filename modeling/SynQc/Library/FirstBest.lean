import Mathlib.Algebra.Order.AbsoluteValue.Basic
import Mathlib.Algebra.Order.Field.Basic
import Mathlib.Data.List.MinMax
import Mathlib.Tactic.Linarith

/-! The first best of some candidates.

A scan keeps the best candidate so far and gives it up for a strictly better one, from a score no candidate
reaches; it ends with the first candidate of least score (`scan_eq_argmin`). Where the score is the distance
to a target that the candidates' values pass by, the least is at most half of their widest step
(`exists_near`). -/
namespace FirstBest
variable {α β : Type*} [LinearOrder β]

/-- Give up the best so far for a strictly better candidate. -/
def improve (best : α × WithTop β) (candidate : α × β) : α × WithTop β :=
  if (candidate.2 : WithTop β) < best.2 then (candidate.1, candidate.2) else best

/-- The scan agrees with the least element, from any best so far. -/
theorem foldl_improve (l : List (α × β)) (x : α × β) :
    ∃ y, l.foldl (List.argAux fun b c => b.2 < c.2) (some x) = some y ∧
      l.foldl improve (x.1, (x.2 : WithTop β)) = (y.1, (y.2 : WithTop β)) := by
  induction l generalizing x with
  | nil => exact ⟨x, rfl, rfl⟩
  | cons z l ih =>
    by_cases hz : z.2 < x.2
    · simpa [List.argAux, improve, hz] using ih z
    · simpa [List.argAux, improve, hz] using ih x

theorem scan_eq_argmin (start : α) {l : List (α × β)} (hne : l ≠ []) :
    ∃ x, l.argmin Prod.snd = some x ∧ l.foldl improve (start, ⊤) = (x.1, (x.2 : WithTop β)) := by
  cases l with
  | nil => exact absurd rfl hne
  | cons z l =>
    have hfirst : improve (start, ⊤) z = (z.1, (z.2 : WithTop β)) := if_pos (WithTop.coe_lt_top _)
    rw [List.foldl_cons, hfirst]
    exact foldl_improve l z

/-- **The scan finds a candidate of least score.** -/
theorem scan_spec (start : α) {l : List (α × β)} (hne : l ≠ []) :
    ∃ x ∈ l, l.foldl improve (start, ⊤) = (x.1, (x.2 : WithTop β)) ∧ ∀ y ∈ l, x.2 ≤ y.2 := by
  obtain ⟨x, hx, hscan⟩ := scan_eq_argmin start hne
  exact ⟨x, List.argmin_mem hx, hscan, fun y hy => List.le_of_mem_argmin hy hx⟩

/-- Values that go from above a target to below it, by steps of at most `g`, pass within half a step. -/
theorem exists_near {K : Type*} [Field K] [LinearOrder K] [IsStrictOrderedRing K] {f : ℕ → K} {n : ℕ} {t g : K}
    (hg : 0 ≤ g) (hfirst : t ≤ f 0) (hlast : f n ≤ t) (hstep : ∀ i < n, f i - f (i + 1) ≤ g) :
    ∃ i ≤ n, |f i - t| ≤ g / 2 := by
  induction n with
  | zero => exact ⟨0, le_rfl, by rw [le_antisymm hlast hfirst, sub_self, abs_zero]; linarith⟩
  | succ n ih =>
    by_cases hbelow : f n ≤ t
    · obtain ⟨i, hi, hnear⟩ := ih hbelow fun i hi => hstep i (by omega)
      exact ⟨i, by omega, hnear⟩
    · -- the target is between these two values
      have habove : t < f n := not_le.mp hbelow
      have hwidth := hstep n (Nat.lt_succ_self n)
      by_cases hhalf : f n - t ≤ g / 2
      · exact ⟨n, by omega, by rwa [abs_of_pos (sub_pos.mpr habove)]⟩
      · refine ⟨n + 1, le_rfl, ?_⟩
        rw [abs_of_nonpos (sub_nonpos.mpr hlast)]
        linarith

end FirstBest
