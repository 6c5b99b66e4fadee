import Mathlib.Data.List.Sort
import Mathlib.Data.Prod.Lex

/-! Sorted sets: identifiers with a score each, in the order of the scores and of the identifiers among equal
scores.

A set is the list of its entries, in order and with no identifier twice, so sets with the same entries are
the same. Adding an identifier replaces its score. The least entry can be popped, and put back without a
trace (`add_of_popMin`). The entries up to a score are the first ones: popping gives one of them after the
other, or none is left (`upTo_of_le`, `upTo_of_lt`). -/

namespace SortedSet

/-- The identifier of an entry. -/
def idOf {ι σ : Type*} (e : σ ×ₗ ι) : ι := (ofLex e).2

/-- The score of an entry. -/
def scoreOf {ι σ : Type*} (e : σ ×ₗ ι) : σ := (ofLex e).1

end SortedSet

structure SortedSet (ι σ : Type*) [LinearOrder ι] [LinearOrder σ] where
  entries : List (σ ×ₗ ι)
  sorted : entries.Pairwise (· < ·)
  nodup : (entries.map SortedSet.idOf).Nodup

namespace SortedSet
variable {ι σ : Type*} [LinearOrder ι] [LinearOrder σ] {s t : SortedSet ι σ} {e : σ ×ₗ ι} {bound : σ}

@[ext] theorem ext (h : s.entries = t.entries) : s = t := by
  cases s
  cases t
  congr

def empty : SortedSet ι σ := ⟨[], List.Pairwise.nil, List.nodup_nil⟩

/-! ### Adding -/

/-- The entries of the other identifiers. -/
def others (s : SortedSet ι σ) (id : ι) : List (σ ×ₗ ι) := s.entries.filter fun e => idOf e ≠ id

theorem nodup_insert (s : SortedSet ι σ) (id : ι) (score : σ) :
    (((s.others id).orderedInsert (· ≤ ·) (toLex (score, id))).map idOf).Nodup := by
  rw [((List.perm_orderedInsert (· ≤ ·) (toLex (score, id)) (s.others id)).map idOf).nodup_iff, List.map_cons,
    List.nodup_cons]
  constructor
  · intro hmem
    obtain ⟨e, he, hid⟩ := List.mem_map.mp hmem
    exact of_decide_eq_true (List.mem_filter.mp he).2 hid
  · exact s.nodup.sublist (List.filter_sublist.map idOf)

/-- `ZADD`: an identifier that is there gets the new score. -/
def add (s : SortedSet ι σ) (id : ι) (score : σ) : SortedSet ι σ where
  entries := (s.others id).orderedInsert (· ≤ ·) (toLex (score, id))
  sorted := by
    have hle : (s.others id).Pairwise (· ≤ ·) := (s.sorted.filter _).imp le_of_lt
    have hne := (nodup_insert s id score).of_map
    exact (hle.orderedInsert _ _).sortedLE.sortedLT_of_nodup hne |>.pairwise
  nodup := nodup_insert s id score

theorem entries_add (s : SortedSet ι σ) (id : ι) (score : σ) :
    (s.add id score).entries = (s.others id).orderedInsert (· ≤ ·) (toLex (score, id)) := rfl

theorem mem_add {id : ι} {score : σ} :
    e ∈ (s.add id score).entries ↔ e = toLex (score, id) ∨ e ∈ s.entries ∧ idOf e ≠ id := by
  rw [entries_add, List.mem_orderedInsert, others, List.mem_filter, decide_eq_true_iff]

/-! ### Popping the least entry -/

/-- `ZPOPMIN`: the least entry, and the set without it. -/
def popMin (s : SortedSet ι σ) : Option ((σ ×ₗ ι) × SortedSet ι σ) :=
  s.entries.head?.map fun e => (e, ⟨s.entries.tail, s.sorted.tail, s.nodup.sublist (s.entries.tail_sublist.map _)⟩)

theorem popMin_eq_none_iff : s.popMin = none ↔ s.entries = [] := by
  rw [popMin, Option.map_eq_none_iff, List.head?_eq_none_iff]

theorem popMin_eq_some_iff : s.popMin = some (e, t) ↔ s.entries = e :: t.entries := by
  rw [popMin, Option.map_eq_some_iff]
  constructor
  · intro h
    obtain ⟨e', he, h⟩ := h
    obtain ⟨rfl, rfl⟩ := Prod.mk.inj h
    exact (List.cons_head?_tail he).symm
  · intro h
    refine ⟨e, by rw [h, List.head?_cons], Prod.ext rfl (ext ?_)⟩
    simp only [h, List.tail_cons]

section Popped
variable (h : s.popMin = some (e, t))
include h

theorem lt_of_popMin {e' : σ ×ₗ ι} (he' : e' ∈ t.entries) : e < e' := by
  have hsorted := s.sorted
  rw [popMin_eq_some_iff.mp h, List.pairwise_cons] at hsorted
  exact hsorted.1 e' he'

theorem ne_of_popMin {e' : σ ×ₗ ι} (he' : e' ∈ t.entries) : idOf e' ≠ idOf e := by
  have hnodup := s.nodup
  rw [popMin_eq_some_iff.mp h, List.map_cons, List.nodup_cons] at hnodup
  intro hid
  apply hnodup.1
  rw [← hid]
  exact List.mem_map_of_mem he'

/-- Putting the popped entry back restores the set. -/
theorem add_of_popMin : t.add (idOf e) (scoreOf e) = s := by
  ext1
  have hothers : t.others (idOf e) = t.entries :=
    List.filter_eq_self.mpr fun e' he' => decide_eq_true (ne_of_popMin h he')
  have hleast : ∀ e' ∈ t.entries, toLex (scoreOf e, idOf e) ≤ e' := fun e' he' => (lt_of_popMin h he').le
  rw [popMin_eq_some_iff.mp h, entries_add, hothers]
  cases hentries : t.entries with
  | nil => rfl
  | cons e' rest =>
    rw [hentries] at hleast
    exact List.orderedInsert_cons_of_le _ _ (hleast e' List.mem_cons_self)

end Popped

/-! ### The entries up to a score -/

/-- The entries with no greater score than `bound`, in order. -/
def upTo (s : SortedSet ι σ) (bound : σ) : List (σ ×ₗ ι) := s.entries.filter fun e => scoreOf e ≤ bound

/-- A least entry up to the score is the first of them. -/
theorem upTo_of_le (h : s.popMin = some (e, t)) (hle : scoreOf e ≤ bound) : s.upTo bound = e :: t.upTo bound := by
  rw [upTo, popMin_eq_some_iff.mp h, List.filter_cons, if_pos (decide_eq_true hle), upTo]

/-- A least entry with a greater score is less than no entry up to the score. -/
theorem upTo_of_lt (h : s.popMin = some (e, t)) (hlt : bound < scoreOf e) : s.upTo bound = [] := by
  refine List.filter_eq_nil_iff.mpr fun e' he' hle => ?_
  have hge : e ≤ e' := by
    rw [popMin_eq_some_iff.mp h, List.mem_cons] at he'
    obtain rfl | he' := he'
    · exact le_rfl
    · exact (lt_of_popMin h he').le
  have hscore : scoreOf e ≤ scoreOf e' := Prod.Lex.monotone_fst_ofLex hge
  exact absurd (hscore.trans (of_decide_eq_true hle)) (not_le.mpr hlt)

theorem upTo_of_none (h : s.popMin = none) : s.upTo bound = [] := by
  rw [upTo, popMin_eq_none_iff.mp h, List.filter_nil]

end SortedSet
