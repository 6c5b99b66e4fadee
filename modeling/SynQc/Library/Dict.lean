import Mathlib.Data.List.Nodup
import Mathlib.Algebra.BigOperators.Group.List.Basic
import Mathlib.Algebra.Order.BigOperators.Group.List
import Mathlib.Algebra.Order.Group.Nat

/-! Insertion-ordered dictionaries.

A `Dict` holds at most one value for a key and remembers the order in which keys
first arrived: storing at a present key keeps its place, storing at an absent one
appends. That is a Python dict, and with the order ignored a keyspace of a store.

`total f d` adds a weight over all entries. Storing or erasing one entry moves a total
by exactly the weights of the old and the new value (`total_set_some`,
`total_set_none`), which is how counts over a whole dictionary are kept in step with
an update of one entry. -/
structure Dict (κ α : Type*) where
  entries : List (κ × α)
  nodup : (entries.map Prod.fst).Nodup

namespace Dict

variable {κ α : Type*}

/-! ### Entry lists -/

section Entries
variable [DecidableEq κ]

/-- The value stored at a key of an entry list. -/
def lookup (k : κ) : List (κ × α) → Option α
  | [] => none
  | e :: rest => if e.1 = k then some e.2 else lookup k rest

/-- Store at a key: in place when the key is there, at the end when it is not. -/
def put (k : κ) (v : α) : List (κ × α) → List (κ × α)
  | [] => [(k, v)]
  | e :: rest => if e.1 = k then (k, v) :: rest else e :: put k v rest

/-- Drop the entry of a key. -/
def remove (k : κ) : List (κ × α) → List (κ × α)
  | [] => []
  | e :: rest => if e.1 = k then remove k rest else e :: remove k rest

theorem lookup_eq_none {k : κ} {l : List (κ × α)} : lookup k l = none ↔ k ∉ l.map Prod.fst := by
  induction l with
  | nil => simp [lookup]
  | cons e rest ih =>
    by_cases h : e.1 = k
    · simp [lookup, h]
    · simp [lookup, h, ih, Ne.symm h]

theorem lookup_mem {k : κ} {v : α} {l : List (κ × α)} (h : lookup k l = some v) : (k, v) ∈ l := by
  induction l with
  | nil => simp [lookup] at h
  | cons e rest ih =>
    by_cases hk : e.1 = k
    · simp only [lookup, hk, if_true, Option.some.injEq] at h
      exact List.mem_cons.mpr (.inl (Prod.ext hk.symm h.symm))
    · simp only [lookup, hk, if_false] at h
      exact List.mem_cons_of_mem _ (ih h)

theorem keys_put (k : κ) (v : α) (l : List (κ × α)) :
    (put k v l).map Prod.fst = if k ∈ l.map Prod.fst then l.map Prod.fst else l.map Prod.fst ++ [k] := by
  induction l with
  | nil => simp [put]
  | cons e rest ih =>
    by_cases h : e.1 = k
    · simp [put, h]
    · by_cases hm : k ∈ rest.map Prod.fst
      · rw [if_pos hm] at ih
        simp only [put, h, if_false, List.map_cons, ih, List.mem_cons, hm, or_true, if_true]
      · rw [if_neg hm] at ih
        have hk : ¬(k = e.1 ∨ k ∈ rest.map Prod.fst) := by
          rintro (rfl | hk)
          · exact h rfl
          · exact hm hk
        simp only [put, h, if_false, List.map_cons, ih, List.mem_cons, hk, List.cons_append]

theorem nodup_put (k : κ) (v : α) {l : List (κ × α)} (h : (l.map Prod.fst).Nodup) :
    ((put k v l).map Prod.fst).Nodup := by
  rw [keys_put]
  split
  · exact h
  · rename_i hk
    exact List.nodup_append.mpr ⟨h, List.nodup_singleton k, by
      intro a ha b hb
      rw [List.mem_singleton.mp hb]
      rintro rfl
      exact hk ha⟩

theorem lookup_put (k k' : κ) (v : α) (l : List (κ × α)) :
    lookup k' (put k v l) = if k = k' then some v else lookup k' l := by
  induction l with
  | nil => simp [put, lookup]
  | cons e rest ih =>
    by_cases he : e.1 = k
    · by_cases hk : k = k' <;> simp [put, lookup, he, hk]
    · simp only [put, he, if_false, lookup]
      by_cases hek : e.1 = k'
      · rw [if_pos hek, if_pos hek, if_neg fun hk => he (hek.trans hk.symm)]
      · rw [if_neg hek, if_neg hek, ih]

theorem lookup_remove (k k' : κ) (l : List (κ × α)) :
    lookup k' (remove k l) = if k = k' then none else lookup k' l := by
  induction l with
  | nil => simp [remove, lookup]
  | cons e rest ih =>
    by_cases he : e.1 = k
    · rw [remove, if_pos he, ih]
      by_cases hk : k = k'
      · rw [if_pos hk, if_pos hk]
      · rw [if_neg hk, if_neg hk, lookup, if_neg fun hek => hk (he.symm.trans hek)]
    · simp only [remove, he, if_false, lookup]
      by_cases hek : e.1 = k'
      · rw [if_pos hek, if_pos hek, if_neg fun hk => he (hek.trans hk.symm)]
      · rw [if_neg hek, if_neg hek, ih]

theorem remove_sublist (k : κ) (l : List (κ × α)) : (remove k l).Sublist l := by
  induction l with
  | nil => exact .slnil
  | cons e rest ih =>
    unfold remove
    split
    · exact ih.cons e
    · exact ih.cons_cons e

theorem remove_absent {k : κ} {l : List (κ × α)} (h : k ∉ l.map Prod.fst) : remove k l = l := by
  induction l with
  | nil => rfl
  | cons e rest ih =>
    rw [List.map_cons, List.mem_cons, not_or] at h
    rw [remove, if_neg (Ne.symm h.1), ih h.2]

end Entries

/-! ### Dictionaries -/

def empty : Dict κ α := ⟨[], List.nodup_nil⟩

def keys (d : Dict κ α) : List κ := d.entries.map Prod.fst

def values (d : Dict κ α) : List α := d.entries.map Prod.snd

def size (d : Dict κ α) : Nat := d.entries.length

section Lookup
variable [DecidableEq κ]

def get? (d : Dict κ α) (k : κ) : Option α := lookup k d.entries

def set (d : Dict κ α) (k : κ) (v : α) : Dict κ α := ⟨put k v d.entries, nodup_put k v d.nodup⟩

def erase (d : Dict κ α) (k : κ) : Dict κ α :=
  ⟨remove k d.entries, d.nodup.sublist ((remove_sublist k d.entries).map Prod.fst)⟩

@[simp] theorem get?_empty (k : κ) : (empty : Dict κ α).get? k = none := rfl

theorem get?_set (d : Dict κ α) (k k' : κ) (v : α) :
    (d.set k v).get? k' = if k = k' then some v else d.get? k' := lookup_put k k' v d.entries

@[simp] theorem get?_set_self (d : Dict κ α) (k : κ) (v : α) : (d.set k v).get? k = some v := by
  rw [get?_set, if_pos rfl]

theorem get?_set_ne (d : Dict κ α) {k k' : κ} (v : α) (h : k ≠ k') :
    (d.set k v).get? k' = d.get? k' := by
  rw [get?_set, if_neg h]

/-- What is there stays under a new key. -/
theorem get?_set_new {d : Dict κ α} {k k' : κ} {v' : α} (hnew : d.get? k = none) (h : d.get? k' = some v') (v : α) :
    (d.set k v).get? k' = some v' := by
  rw [get?_set_ne d v, h]
  intro heq
  rw [heq, h] at hnew
  cases hnew

/-- What holds of every value still does once one is set that it holds of. -/
theorem forall_set {P : α → Prop} {d : Dict κ α} {k : κ} {v : α} (h : ∀ k' v', d.get? k' = some v' → P v') (hv : P v) :
    ∀ k' v', (d.set k v).get? k' = some v' → P v' := by
  intro k' v' hget
  rw [get?_set] at hget
  split at hget
  · cases hget
    exact hv
  · exact h k' v' hget

/-- Where one value is replaced by a related one, every value that is there stays related. -/
theorem get?_set_related {R : α → α → Prop} (hrefl : ∀ v, R v v) {d : Dict κ α} {k k' : κ} {old v w : α}
    (hold : d.get? k = some old) (hv : R old v) (h : d.get? k' = some w) : ∃ w', (d.set k v).get? k' = some w' ∧ R w w' := by
  rw [get?_set]
  split
  · rename_i hk
    subst hk
    cases h.symm.trans hold
    exact ⟨v, rfl, hv⟩
  · exact ⟨w, h, hrefl w⟩

/-- A value with some property was there before one was replaced, if the replacement did not
bring the property in. -/
theorem exists_of_set {P : α → Prop} {d : Dict κ α} {k : κ} {old v : α} (hold : d.get? k = some old) (hv : P v → P old) :
    ∀ k' v', (d.set k v).get? k' = some v' → P v' → ∃ w, d.get? k' = some w ∧ P w := by
  intro k' v' hget hP
  rw [get?_set] at hget
  split at hget
  · rename_i hk
    cases hget
    exact ⟨old, hk ▸ hold, hv hP⟩
  · exact ⟨v', hget, hP⟩

theorem get?_erase (d : Dict κ α) (k k' : κ) :
    (d.erase k).get? k' = if k = k' then none else d.get? k' := lookup_remove k k' d.entries

/-- `d.setdefault(k, v)`: store only where nothing is stored. -/
def setDefault (d : Dict κ α) (k : κ) (v : α) : Dict κ α :=
  match d.get? k with
  | some _ => d
  | none => d.set k v

/-- `HINCRBY`: add to a counter that starts at zero. -/
def incr (d : Dict κ Int) (k : κ) (n : Int) : Dict κ Int := d.set k ((d.get? k).getD 0 + n)

theorem getD_incr (d : Dict κ Int) (k k' : κ) (n : Int) :
    ((d.incr k n).get? k').getD 0 = (d.get? k').getD 0 + if k = k' then n else 0 := by
  rw [incr, get?_set]
  by_cases h : k = k'
  · rw [if_pos h, if_pos h, h, Option.getD_some]
  · rw [if_neg h, if_neg h, add_zero]

/-- Store all entries of another dictionary, in its order. -/
def update (d e : Dict κ α) : Dict κ α := e.entries.foldl (fun d entry => d.set entry.1 entry.2) d

/-- The entry of the other dictionary counts, where it has one. -/
theorem get?_update (d e : Dict κ α) (k : κ) : (d.update e).get? k = (e.get? k).or (d.get? k) := by
  obtain ⟨entries, hnodup⟩ := e
  simp only [update]
  induction entries generalizing d with
  | nil => rfl
  | cons entry rest ih =>
    obtain ⟨hnew, hrest⟩ := List.nodup_cons.mp hnodup
    rw [List.foldl_cons, ih _ hrest, get?_set]
    by_cases hk : entry.1 = k
    · have hnone : lookup k rest = none := lookup_eq_none.mpr (hk ▸ hnew)
      simp [get?, lookup, hk, hnone]
    · simp [get?, lookup, hk]

/-- The entries that are not `none`. -/
def somes (d : Dict κ (Option α)) : Dict κ α :=
  ⟨d.entries.filterMap fun e => e.2.map fun v => (e.1, v), by
    have hsublist : ((d.entries.filterMap fun e => e.2.map fun v => (e.1, v)).map Prod.fst).Sublist
        (d.entries.map Prod.fst) := by
      induction d.entries with
      | nil => exact .slnil
      | cons e rest ih =>
        obtain ⟨k, v⟩ := e
        cases v with
        | none => exact ih.cons k
        | some v => exact ih.cons_cons k
    exact d.nodup.sublist hsublist⟩

theorem get?_somes (d : Dict κ (Option α)) (k : κ) : d.somes.get? k = (d.get? k).join := by
  obtain ⟨entries, hnodup⟩ := d
  simp only [get?, somes]
  induction entries with
  | nil => rfl
  | cons e rest ih =>
    obtain ⟨hnew, hrest⟩ := List.nodup_cons.mp hnodup
    obtain ⟨k', v⟩ := e
    by_cases hk : k' = k
    · cases v with
      | none => simpa [lookup, hk, lookup_eq_none.mpr (hk ▸ hnew)] using ih hrest
      | some v => simp [lookup, hk]
    · cases v with
      | none => simpa [lookup, hk] using ih hrest
      | some v => simpa [lookup, hk] using ih hrest

/-- Apply a function to every value. -/
def mapValues {β : Type*} (d : Dict κ α) (f : α → β) : Dict κ β :=
  ⟨d.entries.map fun e => (e.1, f e.2), by
    rw [List.map_map]
    exact d.nodup⟩

/-- Keep the entries that pass a test. -/
def filter (d : Dict κ α) (p : κ → α → Bool) : Dict κ α :=
  ⟨d.entries.filter fun e => p e.1 e.2, d.nodup.sublist (List.filter_sublist.map Prod.fst)⟩

theorem mem_keys {d : Dict κ α} {k : κ} : k ∈ d.keys ↔ ∃ v, d.get? k = some v := by
  rw [← not_iff_not]
  simp only [keys, get?, ← lookup_eq_none, not_exists]
  constructor
  · intro h v hv
    rw [h] at hv
    cases hv
  · intro h
    exact Option.eq_none_iff_forall_ne_some.mpr h

theorem mem_entries {d : Dict κ α} {k : κ} {v : α} : (k, v) ∈ d.entries ↔ d.get? k = some v := by
  obtain ⟨l, hl⟩ := d
  constructor
  · intro h
    simp only [get?]
    induction l with
    | nil => cases h
    | cons e rest ih =>
      rw [List.map_cons, List.nodup_cons] at hl
      rcases List.mem_cons.mp h with rfl | h
      · simp [lookup]
      · have hne : e.1 ≠ k := by
          rintro rfl
          exact hl.1 (List.mem_map.mpr ⟨_, h, rfl⟩)
        simp only [lookup, hne, if_false]
        exact ih hl.2 h
  · exact lookup_mem

theorem get?_filter (d : Dict κ α) (p : κ → α → Bool) (k : κ) :
    (d.filter p).get? k = (d.get? k).filter (p k) := by
  cases h : (d.filter p).get? k with
  | some v =>
    have hm : (k, v) ∈ d.entries ∧ p k v = true := List.mem_filter.mp (mem_entries.mpr h)
    rw [mem_entries.mp hm.1, Option.filter_some, if_pos hm.2]
  | none =>
    cases hd : d.get? k with
    | none => rfl
    | some v =>
      rw [Option.filter_some, if_neg]
      intro hp
      have hm : (k, v) ∈ (d.filter p).entries := List.mem_filter.mpr ⟨mem_entries.mpr hd, hp⟩
      rw [mem_entries.mp hm] at h
      cases h

theorem get?_mapValues {β : Type*} (d : Dict κ α) (f : α → β) (k : κ) :
    (d.mapValues f).get? k = (d.get? k).map f := by
  simp only [get?, mapValues]
  generalize d.entries = l
  induction l with
  | nil => rfl
  | cons e rest ih =>
    simp only [List.map_cons, lookup]
    by_cases he : e.1 = k
    · rw [if_pos he, if_pos he, Option.map_some]
    · rw [if_neg he, if_neg he, ih]

theorem forall_mapValues {P : α → Prop} {d : Dict κ α} {f : α → α} (h : ∀ k v, d.get? k = some v → P v)
    (hf : ∀ v, P v → P (f v)) : ∀ k v, (d.mapValues f).get? k = some v → P v := by
  intro k v hget
  rw [get?_mapValues] at hget
  obtain ⟨w, hw, rfl⟩ := Option.map_eq_some_iff.mp hget
  exact hf w (h k w hw)

theorem exists_of_mapValues {P : α → Prop} {d : Dict κ α} {f : α → α} (hf : ∀ v, P (f v) → P v) :
    ∀ k v, (d.mapValues f).get? k = some v → P v → ∃ w, d.get? k = some w ∧ P w := by
  intro k v hget hP
  rw [get?_mapValues] at hget
  obtain ⟨w, hw, rfl⟩ := Option.map_eq_some_iff.mp hget
  exact ⟨w, hw, hf w hP⟩

/-- `d[k] = f(k)` for each of a list of keys. -/
def setEach (d : Dict κ α) (keys : List κ) (f : κ → α) : Dict κ α := keys.foldl (fun d k => d.set k (f k)) d

theorem get?_setEach (d : Dict κ α) (keys : List κ) (f : κ → α) (k : κ) :
    (d.setEach keys f).get? k = if k ∈ keys then some (f k) else d.get? k := by
  induction keys generalizing d with
  | nil => rfl
  | cons k' keys ih =>
    refine (ih (d.set k' (f k'))).trans ?_
    rw [get?_set]
    by_cases hkeys : k ∈ keys
    · rw [if_pos hkeys, if_pos (List.mem_cons_of_mem k' hkeys)]
    · by_cases hk : k' = k
      · subst hk
        rw [if_neg hkeys, if_pos rfl, if_pos List.mem_cons_self]
      · rw [if_neg hkeys, if_neg hk, if_neg (List.not_mem_cons_of_ne_of_not_mem (Ne.symm hk) hkeys)]

theorem get?_of_mem_values {d : Dict κ α} {v : α} (h : v ∈ d.values) : ∃ k, d.get? k = some v := by
  obtain ⟨⟨k, w⟩, he, rfl⟩ := List.mem_map.mp h
  exact ⟨k, mem_entries.mp he⟩

end Lookup

section Order
variable [DecidableEq κ]

theorem put_none {k : κ} (v : α) {l : List (κ × α)} (h : lookup k l = none) :
    put k v l = l ++ [(k, v)] := by
  induction l with
  | nil => rfl
  | cons e rest ih =>
    by_cases he : e.1 = k
    · simp [lookup, he] at h
    · simp only [lookup, he, if_false] at h
      simp only [put, he, if_false, ih h, List.cons_append]

/-- A new key goes to the end. -/
theorem entries_set_none {d : Dict κ α} {k : κ} (h : d.get? k = none) (v : α) :
    (d.set k v).entries = d.entries ++ [(k, v)] := put_none v h

theorem values_set_none {d : Dict κ α} {k : κ} (h : d.get? k = none) (v : α) :
    (d.set k v).values = d.values ++ [v] := by
  simp only [values, entries_set_none h, List.map_append, List.map_cons, List.map_nil]

theorem size_set_none {d : Dict κ α} {k : κ} (h : d.get? k = none) (v : α) :
    (d.set k v).size = d.size + 1 := by
  simp only [size, entries_set_none h, List.length_append, List.length_cons, List.length_nil]

end Order

/-! ### Totals -/

/-- The sum of a weight over all entries. -/
def total {M : Type*} [AddCommMonoid M] (f : κ → α → M) (d : Dict κ α) : M :=
  (d.entries.map fun e => f e.1 e.2).sum

@[simp] theorem total_empty {M : Type*} [AddCommMonoid M] (f : κ → α → M) :
    (empty : Dict κ α).total f = 0 := rfl

theorem total_add {M : Type*} [AddCommMonoid M] (d : Dict κ α) (f g : κ → α → M) :
    d.total (fun k v => f k v + g k v) = d.total f + d.total g := List.sum_map_add

theorem total_congr {M : Type*} [AddCommMonoid M] {d : Dict κ α} {f g : κ → α → M}
    (h : ∀ k v, (k, v) ∈ d.entries → f k v = g k v) : d.total f = d.total g := by
  apply congrArg List.sum
  apply List.map_congr_left
  intro e he
  exact h e.1 e.2 he

theorem total_one (d : Dict κ α) : (d.total fun _ _ => 1) = d.size := by
  simp only [total, size]
  induction d.entries with
  | nil => rfl
  | cons e rest ih => rw [List.map_cons, List.sum_cons, ih, List.length_cons, Nat.add_comm]

theorem total_mapValues {M β : Type*} [AddCommMonoid M] (d : Dict κ α) (g : α → β) (f : κ → β → M) :
    (d.mapValues g).total f = d.total fun k v => f k (g v) := by
  simp only [total, mapValues, List.map_map]
  rfl

section Totals
variable {M : Type*} [AddCommMonoid M] [DecidableEq κ]

/-- The values summed up by their keys. -/
theorem total_eq_sum_keys (d : Dict κ M) : (d.total fun _ v => v) = (d.keys.map fun k => (d.get? k).getD 0).sum := by
  rw [total, keys, List.map_map]
  refine congrArg List.sum (List.map_congr_left ?_)
  intro e he
  rw [Function.comp_apply, mem_entries.mp (show (e.1, e.2) ∈ d.entries from he), Option.getD_some]

theorem total_set_some {d : Dict κ α} {k : κ} {old : α} (h : d.get? k = some old) (f : κ → α → M)
    (v : α) : (d.set k v).total f + f k old = d.total f + f k v := by
  simp only [get?, set, total] at h ⊢
  generalize d.entries = l at h
  induction l with
  | nil => cases h
  | cons e rest ih =>
    by_cases he : e.1 = k
    · subst he
      simp only [lookup, if_true, Option.some.injEq] at h
      subst h
      simp only [put, if_true, List.map_cons, List.sum_cons]
      exact add_right_comm _ _ _ |>.trans (by rw [add_comm (f e.1 v), add_right_comm])
    · simp only [lookup, he, if_false] at h
      simp only [put, he, if_false, List.map_cons, List.sum_cons, add_assoc, ih h]

theorem total_set_none {d : Dict κ α} {k : κ} (h : d.get? k = none) (f : κ → α → M) (v : α) :
    (d.set k v).total f = d.total f + f k v := by
  simp only [get?, set, total] at h ⊢
  generalize d.entries = l at h
  induction l with
  | nil => simp [put]
  | cons e rest ih =>
    have he : e.1 ≠ k := by
      intro he
      simp [lookup, he] at h
    simp only [lookup, he, if_false] at h
    simp only [put, he, if_false, List.map_cons, List.sum_cons, add_assoc, ih h]

/-- A total after one store, whether or not the key was there. -/
theorem total_set (d : Dict κ α) (k : κ) (f : κ → α → M) (v : α) :
    (d.set k v).total f + (d.get? k).elim 0 (f k) = d.total f + f k v := by
  cases h : d.get? k with
  | none => rw [Option.elim_none, add_zero, total_set_none h]
  | some old => rw [Option.elim_some, total_set_some h]

theorem total_erase {d : Dict κ α} {k : κ} {old : α} (h : d.get? k = some old) (f : κ → α → M) :
    (d.erase k).total f + f k old = d.total f := by
  simp only [get?, erase, total] at h ⊢
  have hnodup := d.nodup
  generalize d.entries = l at h hnodup
  induction l with
  | nil => cases h
  | cons e rest ih =>
    rw [List.map_cons, List.nodup_cons] at hnodup
    by_cases he : e.1 = k
    · subst he
      simp only [lookup, if_true, Option.some.injEq] at h
      subst h
      simp only [remove, if_true, remove_absent hnodup.1, List.map_cons, List.sum_cons, add_comm]
    · simp only [lookup, he, if_false] at h
      simp only [remove, he, if_false, List.map_cons, List.sum_cons, add_assoc, ih h hnodup.2]

/-- The values without that of one key. -/
theorem values_erase_perm {d : Dict κ α} {k : κ} {old : α} (h : d.get? k = some old) :
    (old :: (d.erase k).values).Perm d.values := by
  simp only [get?, erase, values] at h ⊢
  have hnodup := d.nodup
  generalize d.entries = l at h hnodup
  induction l with
  | nil => cases h
  | cons e rest ih =>
    rw [List.map_cons, List.nodup_cons] at hnodup
    by_cases he : e.1 = k
    · subst he
      simp only [lookup, if_true, Option.some.injEq] at h
      subst h
      simp only [remove, if_true, remove_absent hnodup.1, List.map_cons, List.Perm.refl]
    · simp only [lookup, he, if_false] at h
      simp only [remove, he, if_false, List.map_cons]
      exact (List.Perm.swap _ _ _).trans ((ih h hnodup.2).cons _)

/-- Counting up at one key, seen over the keys that meet a condition. -/
theorem total_incr (d : Dict κ Int) (k : κ) (n : Int) (p : κ → Prop) [DecidablePred p] :
    ((d.incr k n).total fun k v => if p k then v else 0) =
      (d.total fun k v => if p k then v else 0) + if p k then n else 0 := by
  have hset := d.total_set k (fun k v => if p k then v else 0) ((d.get? k).getD 0 + n)
  have hold : (d.get? k).elim 0 (fun v => if p k then v else 0) = if p k then (d.get? k).getD 0 else 0 := by
    cases d.get? k with
    | none => exact (ite_self 0).symm
    | some v => rfl
  unfold incr
  rw [hold] at hset
  split at hset
  · rename_i hp
    rw [if_pos hp]
    omega
  · rename_i hp
    rw [if_neg hp]
    omega

end Totals

section Sums
variable [DecidableEq κ]

theorem le_total {d : Dict κ α} {k : κ} {v : α} (h : d.get? k = some v) (f : κ → α → Nat) :
    f k v ≤ d.total f :=
  List.single_le_sum (fun _ _ => Nat.zero_le _) _ (List.mem_map.mpr ⟨(k, v), lookup_mem h, rfl⟩)

theorem total_eq_zero {M : Type*} [AddCommMonoid M] {d : Dict κ α} {f : κ → α → M}
    (h : ∀ k v, d.get? k = some v → f k v = 0) : d.total f = 0 := by
  apply List.sum_eq_zero
  intro n hn
  obtain ⟨⟨k, v⟩, he, rfl⟩ := List.mem_map.mp hn
  exact h k v (mem_entries.mp he)

end Sums

/-! ### Values by their place -/

section Places
variable {β : Type*}

theorem keys_mapValues (d : Dict κ α) (f : α → β) : (d.mapValues f).keys = d.keys := by
  rw [keys, mapValues, List.map_map]
  rfl

theorem fst_mapIdx (l : List (κ × α)) (f : ℕ → α → β) :
    (l.mapIdx fun i e => (e.1, f i e.2)).map Prod.fst = l.map Prod.fst := by
  induction l generalizing f with
  | nil => rfl
  | cons e l ih => rw [List.mapIdx_cons, List.map_cons, List.map_cons, ih fun i => f (i + 1)]

theorem nodup_mapIdx (d : Dict κ α) (f : ℕ → α → β) :
    ((d.entries.mapIdx fun i e => (e.1, f i e.2)).map Prod.fst).Nodup :=
  (fst_mapIdx d.entries f).symm ▸ d.nodup

/-- Apply a function of the place to every value. -/
def mapIdx (d : Dict κ α) (f : ℕ → α → β) : Dict κ β := ⟨d.entries.mapIdx fun i e => (e.1, f i e.2), nodup_mapIdx d f⟩

theorem keys_mapIdx (d : Dict κ α) (f : ℕ → α → β) : (d.mapIdx f).keys = d.keys := fst_mapIdx d.entries f

theorem get?_mapIdx [DecidableEq κ] (d : Dict κ α) (f : ℕ → α → β) (k : κ) :
    (d.mapIdx f).get? k = (d.get? k).map (f (d.keys.idxOf k)) := by
  simp only [get?, mapIdx, keys]
  generalize d.entries = l
  induction l generalizing f with
  | nil => rfl
  | cons e l ih =>
    rw [List.mapIdx_cons, List.map_cons, List.idxOf_cons, lookup, lookup]
    by_cases he : e.1 = k
    · rw [if_pos he, if_pos he, beq_iff_eq.mpr he, cond_true, Option.map_some]
    · rw [if_neg he, if_neg he, beq_eq_false_iff_ne.mpr he, cond_false, ih fun i => f (i + 1)]

theorem get?_eq_getElem? [DecidableEq κ] (d : Dict κ α) (k : κ) : d.get? k = d.values[d.keys.idxOf k]? := by
  simp only [get?, values, keys]
  induction d.entries with
  | nil => rfl
  | cons e l ih =>
    rw [List.map_cons, List.map_cons, List.idxOf_cons, lookup]
    by_cases he : e.1 = k
    · rw [if_pos he, beq_iff_eq.mpr he, cond_true, List.getElem?_cons_zero]
    · rw [if_neg he, beq_eq_false_iff_ne.mpr he, cond_false, List.getElem?_cons_succ, ih]

end Places

end Dict
