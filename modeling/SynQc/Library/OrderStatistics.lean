import Mathlib.Data.List.Sort

/-! The elements of a list by their rank.

Sorting does not depend on the order of the list (`ranked_eq_of_perm`). Between the elements of two ranks
lie at least as many elements as there are ranks from one to the other; equal elements can only add to them
(`ranks_le_countP`). -/
namespace OrderStatistics
variable {α : Type*} [LinearOrder α] {l l' : List α} {i j : ℕ}

/-- The elements, the least first. -/
def ranked (l : List α) : List α := l.mergeSort (· ≤ ·)

theorem ranked_perm (l : List α) : (ranked l).Perm l := List.mergeSort_perm l _

theorem length_ranked (l : List α) : (ranked l).length = l.length := (ranked_perm l).length_eq

theorem ranked_sorted (l : List α) : (ranked l).Pairwise (· ≤ ·) := List.pairwise_mergeSort' (· ≤ ·) l

theorem ranked_eq_of_perm (h : l.Perm l') : ranked l = ranked l' :=
  (((ranked_perm l).trans h).trans (ranked_perm l').symm).eq_of_pairwise' (ranked_sorted l) (ranked_sorted l')

theorem getElem_ranked_mem (hi : i < (ranked l).length) : (ranked l)[i] ∈ l :=
  (ranked_perm l).mem_iff.mp (List.getElem_mem hi)

theorem getElem_ranked_le (hij : i ≤ j) (hj : j < (ranked l).length) : (ranked l)[i] ≤ (ranked l)[j] := by
  obtain rfl | hlt := hij.eq_or_lt
  · exact le_rfl
  · exact List.pairwise_iff_getElem.mp (ranked_sorted l) i j (by omega) hj hlt

/-- An element from `lo` to `hi`. -/
def between (lo hi x : α) : Bool := lo ≤ x ∧ x ≤ hi

/-- **The ranks from `i` to `j`** are no more than the elements from the one of rank `i` to the one of rank
`j`. -/
theorem ranks_le_countP (hij : i ≤ j) (hj : j < (ranked l).length) :
    j + 1 - i ≤ l.countP (between (ranked l)[i] (ranked l)[j]) := by
  let middle := ((ranked l).drop i).take (j + 1 - i)
  have hlength : middle.length = j + 1 - i := by
    simp only [middle, List.length_take, List.length_drop]
    omega
  have hall : ∀ x ∈ middle, between (ranked l)[i] (ranked l)[j] x = true := by
    intro x hx
    obtain ⟨k, hk, rfl⟩ := List.getElem_of_mem hx
    rw [hlength] at hk
    simp only [middle, List.getElem_take, List.getElem_drop]
    exact decide_eq_true ⟨getElem_ranked_le (by omega) (by omega), getElem_ranked_le (by omega) hj⟩
  calc j + 1 - i = middle.countP (between (ranked l)[i] (ranked l)[j]) := by
        rw [List.countP_eq_length.mpr hall, hlength]
    _ ≤ (ranked l).countP (between (ranked l)[i] (ranked l)[j]) :=
        ((List.take_sublist _ _).trans (List.drop_sublist _ _)).countP_le
    _ = l.countP (between (ranked l)[i] (ranked l)[j]) := (ranked_perm l).countP_eq _

end OrderStatistics
