import Mathlib.Algebra.Order.Group.Unbundled.Basic
import Mathlib.Data.List.Perm.Subperm
import SynQc.Library.Dict

/-! Entries that lapse.

A store keeps under each key a value and the time it was stamped; from `ttl` after its stamp
on an entry does not count. A *sweep* drops the entries that no longer count. Whoever sweeps
before each look may do so at any other time as well: two stores are `Alike` from a time on
if no look from then on tells them apart, and a sweep gives a store that is alike. -/
namespace Lapse

variable {κ α τ : Type*} [DecidableEq κ] [AddCommGroup τ] [LinearOrder τ] {ttl now later : τ} {d d' d'' : Dict κ (α × τ)}

/-- An entry, where it still counts. -/
def young (ttl now : τ) (e : Option (α × τ)) : Option (α × τ) := e.filter fun e => decide (now - e.2 < ttl)

def sweep (ttl now : τ) (d : Dict κ (α × τ)) : Dict κ (α × τ) := d.filter fun _ e => decide (now - e.2 < ttl)

theorem get?_sweep (ttl now : τ) (d : Dict κ (α × τ)) (k : κ) : (sweep ttl now d).get? k = young ttl now (d.get? k) :=
  Dict.get?_filter _ _ _

@[simp] theorem young_none : young ttl now (none : Option (α × τ)) = none := rfl

theorem young_some (e : α × τ) : young ttl now (some e) = if now - e.2 < ttl then some e else none := by
  simp only [young, Option.filter_some, decide_eq_true_eq]

theorem young_of_lt {e : α × τ} (h : now - e.2 < ttl) : young ttl now (some e) = some e := by
  rw [young_some, if_pos h]

theorem young_of_le {e : α × τ} (h : ttl ≤ now - e.2) : young ttl now (some e) = none := by
  rw [young_some, if_neg (not_lt.mpr h)]

/-- No look from a time on tells the stores apart. -/
def Alike (ttl now : τ) (d d' : Dict κ (α × τ)) : Prop :=
  ∀ later, now ≤ later → ∀ k, young ttl later (d.get? k) = young ttl later (d'.get? k)

namespace Alike

theorem refl (d : Dict κ (α × τ)) : Alike ttl now d d := fun _ _ _ => rfl

theorem symm (h : Alike ttl now d d') : Alike ttl now d' d := fun later hle k => (h later hle k).symm

theorem trans (h : Alike ttl now d d') (h' : Alike ttl now d' d'') : Alike ttl now d d'' :=
  fun later hle k => (h later hle k).trans (h' later hle k)

theorem mono (h : Alike ttl now d d') (hle : now ≤ later) : Alike ttl later d d' :=
  fun after hafter => h after (hle.trans hafter)

theorem get?_sweep (h : Alike ttl now d d') (k : κ) : (sweep ttl now d).get? k = (sweep ttl now d').get? k := by
  rw [Lapse.get?_sweep, Lapse.get?_sweep]
  exact h now (le_refl now) k

theorem set (h : Alike ttl now d d') (k : κ) (e : α × τ) : Alike ttl now (d.set k e) (d'.set k e) := by
  intro later hle k'
  rw [Dict.get?_set, Dict.get?_set]
  split
  · rfl
  · exact h later hle k'

theorem erase (h : Alike ttl now d d') (k : κ) : Alike ttl now (d.erase k) (d'.erase k) := by
  intro later hle k'
  rw [Dict.get?_erase, Dict.get?_erase]
  split
  · rfl
  · exact h later hle k'

end Alike

variable [IsOrderedAddMonoid τ]

/-- What has lapsed stays so. -/
theorem young_young (hle : now ≤ later) (e : Option (α × τ)) :
    young ttl later (young ttl now e) = young ttl later e := by
  cases e with
  | none => rfl
  | some e =>
    by_cases hnow : now - e.2 < ttl
    · rw [young_of_lt hnow]
    · have hlater : ttl ≤ later - e.2 := (not_lt.mp hnow).trans (sub_le_sub_right hle e.2)
      rw [young_of_le (not_lt.mp hnow), young_of_le hlater, young_none]

/-- **A sweep is not seen.** -/
theorem alike_sweep (ttl now : τ) (d : Dict κ (α × τ)) : Alike ttl now (sweep ttl now d) d := by
  intro later hle k
  rw [get?_sweep, young_young hle]

omit [AddCommGroup τ] [LinearOrder τ] [IsOrderedAddMonoid τ] in
/-- The entries of a dictionary are as many as any other list of its keys. -/
theorem size_eq_length {d : Dict κ (α × τ)} {keys : List κ} (hnodup : keys.Nodup)
    (hmem : ∀ k, k ∈ keys ↔ (d.get? k).isSome = true) : d.size = keys.length := by
  have hkeys : d.keys.Nodup := d.nodup
  have hperm : d.keys.Perm keys := by
    refine (List.perm_ext_iff_of_nodup hkeys hnodup).mpr fun k => ?_
    rw [hmem, Dict.mem_keys, Option.isSome_iff_exists]
  have hlength := hperm.length_eq
  rw [Dict.keys, List.length_map] at hlength
  exact hlength

end Lapse
