import Mathlib.Algebra.Order.Monoid.Defs

/-! A counter under a cap.

A `Quota cap` is an amount used of a cap, never above it. `take` grants an amount when
it still fits and refuses it otherwise; a refusal changes nothing, because it returns no
quota. What clients were told they got may lag behind what was used (a reply can be
lost), so what is kept is that the grants are `Covered`: at most the amount used. -/
structure Quota {α : Type*} [LE α] (cap : α) where
  used : α
  within : used ≤ cap

namespace Quota

section Take
variable {α : Type*} [Add α] [LE α] [DecidableLE α] {cap : α}

/-- Grant `n` when it fits under the cap. -/
def take (q : Quota cap) (n : α) : Option (Quota cap) :=
  if h : q.used + n ≤ cap then some ⟨q.used + n, h⟩ else none

theorem take_eq_some {q r : Quota cap} {n : α} :
    q.take n = some r ↔ q.used + n ≤ cap ∧ r.used = q.used + n := by
  unfold take
  split
  · rename_i h
    constructor
    · rintro ⟨⟩
      exact ⟨h, rfl⟩
    · rintro ⟨_, hr⟩
      obtain ⟨used, within⟩ := r
      cases hr
      rfl
  · rename_i h
    exact ⟨fun he => (nomatch he), fun ⟨hle, _⟩ => absurd hle h⟩

end Take

/-! ### Grants -/

/-- What clients were granted is at most what is used. -/
def Covered {α : Type*} [LE α] {cap : α} (granted : α) (q : Quota cap) : Prop := granted ≤ q.used

/-- Clients together never hold more than the cap. -/
theorem Covered.within {α : Type*} [Preorder α] {cap granted : α} {q : Quota cap}
    (h : Covered granted q) : granted ≤ cap := le_trans h q.within

section Covered
variable {α : Type*} [AddCommMonoid α] [PartialOrder α] [IsOrderedAddMonoid α] {cap : α}

/-- A grant that its client learns of keeps the grants covered. -/
theorem Covered.take [DecidableLE α] {granted n : α} {q r : Quota cap} (h : Covered granted q)
    (ht : q.take n = some r) : Covered (granted + n) r := by
  unfold Covered
  rw [(take_eq_some.mp ht).2]
  exact add_le_add_left h n

end Covered

end Quota
