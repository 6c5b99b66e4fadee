import Mathlib.Data.List.Basic
import Mathlib.Order.Lattice

/-! The newest of a stream.

Elements come one at a time, in any order of their keys, and a bounded number is kept: past
the bound an element with the least key goes. What is kept are then the newest of all that
came (`Newest`), although each was chosen when the later ones were not known: what went
before was no newer than what went now (`Newest.drop`).

A listing sorts what is kept, the newest first and with equal keys in the order they were
kept in, and takes some. -/

section
variable {α κ : Type*}

/-- The kept are as many of the added as the bound allows, and none that was dropped is newer. -/
structure Newest [LE κ] (key : α → κ) (bound : Nat) (added kept : List α) : Prop where
  split : ∃ dropped, (kept ++ dropped).Perm added ∧ ∀ d ∈ dropped, ∀ r ∈ kept, key d ≤ key r
  length : kept.length = min bound added.length

section
variable [Preorder κ] {key : α → κ} {bound : Nat} {added kept kept' : List α} {x oldest : α}

theorem Newest.nil (key : α → κ) (bound : Nat) : Newest key bound [] [] :=
  ⟨⟨[], .nil, by simp⟩, (Nat.min_zero bound).symm⟩

/-- Below the bound everything is kept. -/
theorem Newest.keep (h : Newest key bound added kept) (hroom : kept.length < bound) :
    Newest key bound (added ++ [x]) (kept ++ [x]) := by
  obtain ⟨dropped, hperm, -⟩ := h.split
  have hlength := h.length
  have hnone : dropped = [] := by
    have hle := hperm.length_eq
    rw [List.length_append] at hle
    exact List.length_eq_zero_iff.mp (by omega)
  subst hnone
  rw [List.append_nil] at hperm
  refine ⟨⟨[], ?_, by simp⟩, ?_⟩
  · rw [List.append_nil]
    exact hperm.append_right [x]
  · rw [List.length_append, List.length_append, List.length_singleton]
    omega

/-- **At the bound an oldest element goes, and what is left are the newest.** -/
theorem Newest.drop (h : Newest key bound added kept) (hfull : ¬kept.length < bound)
    (holdest : ∀ r ∈ kept ++ [x], key oldest ≤ key r) (hperm : (oldest :: kept').Perm (kept ++ [x])) :
    Newest key bound (added ++ [x]) kept' := by
  obtain ⟨dropped, hadded, hdropped⟩ := h.split
  have hlength := h.length
  refine ⟨⟨oldest :: dropped, ?_, ?_⟩, ?_⟩
  · have hgone : (kept' ++ oldest :: dropped).Perm (kept ++ [x] ++ dropped) :=
      List.perm_middle.trans (hperm.append_right dropped)
    have hlast : (kept ++ [x] ++ dropped).Perm (kept ++ dropped ++ [x]) := by
      rw [List.append_assoc, List.append_assoc]
      exact List.perm_append_comm.append_left kept
    exact hgone.trans (hlast.trans (hadded.append_right [x]))
  · have hkept : ∀ r ∈ kept', r ∈ kept ++ [x] := fun r hr => hperm.mem_iff.mp (List.mem_cons_of_mem _ hr)
    intro d hd r hr
    rcases List.mem_cons.mp hd with rfl | hd
    · exact holdest r (hkept r hr)
    · -- what went before was no newer than the element that goes now, unless that one has just come
      rcases List.mem_append.mp (hperm.mem_iff.mp List.mem_cons_self) with hmem | hmem
      · exact (hdropped d hd oldest hmem).trans (holdest r (hkept r hr))
      · rw [List.mem_singleton.mp hmem] at hperm
        have hsame : kept'.Perm kept := (List.perm_cons x).mp (hperm.trans List.perm_append_comm)
        exact hdropped d hd r (hsame.mem_iff.mp hr)
  · have hle := hperm.length_eq
    rw [List.length_cons, List.length_append, List.length_singleton] at hle
    rw [List.length_append, List.length_singleton]
    omega

theorem Newest.mem_added (h : Newest key bound added kept) {r : α} (hr : r ∈ kept) : r ∈ added := by
  obtain ⟨dropped, hperm, -⟩ := h.split
  exact hperm.mem_iff.mp (List.mem_append_left _ hr)

theorem Newest.nodup (h : Newest key bound added kept) (hadded : added.Nodup) : kept.Nodup := by
  obtain ⟨dropped, hperm, -⟩ := h.split
  exact (List.nodup_append.mp (hperm.nodup_iff.mpr hadded)).1

theorem Newest.le_of_dropped (h : Newest key bound added kept) {d r : α} (hd : d ∈ added) (hgone : d ∉ kept)
    (hr : r ∈ kept) : key d ≤ key r := by
  obtain ⟨dropped, hperm, hle⟩ := h.split
  rcases List.mem_append.mp (hperm.mem_iff.mpr hd) with hkept | hdropped
  · exact absurd hkept hgone
  · exact hle d hdropped r hr

end

/-! ### Listings -/

section
variable [LinearOrder κ] (key : α → κ)

/-- The newest first. -/
def newestFirst (kept : List α) : List α := kept.mergeSort fun a b => decide (key b ≤ key a)

theorem newestFirst_perm (kept : List α) : (newestFirst key kept).Perm kept := List.mergeSort_perm _ _

theorem newestFirst_pairwise (kept : List α) : (newestFirst key kept).Pairwise fun a b => key b ≤ key a := by
  have htrans : ∀ a b c : α, decide (key b ≤ key a) = true → decide (key c ≤ key b) = true →
      decide (key c ≤ key a) = true := by
    simp only [decide_eq_true_eq]
    exact fun a b c hab hbc => hbc.trans hab
  have htotal : ∀ a b : α, (decide (key b ≤ key a) || decide (key a ≤ key b)) = true := by
    simp only [Bool.or_eq_true, decide_eq_true_eq]
    exact fun a b => le_total _ _
  exact (List.pairwise_mergeSort htrans htotal kept).imp fun h => of_decide_eq_true h

/-- What is not listed is no newer than what is. -/
theorem newestFirst_take (kept : List α) (k : Nat) {r u : α} (hr : r ∈ (newestFirst key kept).take k) (hu : u ∈ kept)
    (hunlisted : u ∉ (newestFirst key kept).take k) : key u ≤ key r := by
  have hsplit := newestFirst_pairwise key kept
  rw [← List.take_append_drop k (newestFirst key kept)] at hsplit
  have hmem := (newestFirst_perm key kept).mem_iff.mpr hu
  rw [← List.take_append_drop k (newestFirst key kept)] at hmem
  exact (List.pairwise_append.mp hsplit).2.2 r hr u ((List.mem_append.mp hmem).resolve_left hunlisted)

end

end
