import SynQc.Library.Dict

/-! What every member of an open group is doing.

A roster maps members to phases. Whoever is not in it is in the default phase, so a group
has as many members as a statement needs. `weigh` adds a weight over the group; a weight
that the default phase does not have is moved by one member's step exactly as that
member's phase moves it (`weigh_set`), which is what counts of "how many are doing this"
rest on. -/
abbrev Roster (κ φ : Type*) := Dict κ φ

namespace Roster

variable {κ φ : Type*} [DecidableEq κ] [Inhabited φ]

def phase (r : Roster κ φ) (k : κ) : φ := (r.get? k).getD default

def weigh (r : Roster κ φ) (f : φ → Nat) : Nat := r.total fun _ p => f p

theorem phase_set (r : Roster κ φ) (k k' : κ) (p : φ) :
    phase (r.set k p) k' = if k = k' then p else r.phase k' := by
  rw [phase, Dict.get?_set]
  split <;> rfl

@[simp] theorem phase_set_self (r : Roster κ φ) (k : κ) (p : φ) : phase (r.set k p) k = p := by
  rw [phase_set, if_pos rfl]

theorem phase_set_ne (r : Roster κ φ) {k k' : κ} (hne : k ≠ k') (p : φ) : phase (r.set k p) k' = r.phase k' := by
  rw [phase_set, if_neg hne]

/-- One member's step moves a weight as the member's phase does. -/
theorem weigh_set (r : Roster κ φ) (k : κ) (p : φ) {f : φ → Nat} (hf : f default = 0) :
    weigh (r.set k p) f + f (r.phase k) = r.weigh f + f p := by
  have hset := Dict.total_set r k (fun _ p => f p) p
  cases h : r.get? k with
  | none =>
    rw [h] at hset
    simpa [weigh, phase, h, hf] using hset
  | some old =>
    rw [h] at hset
    simpa [weigh, phase, h] using hset

theorem le_weigh (r : Roster κ φ) (k : κ) {f : φ → Nat} (hf : f default = 0) : f (r.phase k) ≤ r.weigh f := by
  cases h : r.get? k with
  | none => simp [phase, h, hf]
  | some p =>
    have hle := Dict.le_total h fun _ p => f p
    simpa [phase, weigh, h] using hle

/-- Two members weigh no more than the group. -/
theorem add_le_weigh (r : Roster κ φ) {k k' : κ} (hne : k ≠ k') {f : φ → Nat} (hf : f default = 0) :
    f (r.phase k) + f (r.phase k') ≤ r.weigh f := by
  have hset := r.weigh_set k default hf
  have hle := le_weigh (r.set k default) k' hf
  rw [phase_set_ne _ hne] at hle
  omega

/-- A group that weighs anything has a member that does. -/
theorem exists_of_weigh_pos {r : Roster κ φ} {f : φ → Nat} (h : 0 < r.weigh f) : ∃ k, 0 < f (r.phase k) := by
  by_contra hnone
  push Not at hnone
  have hzero : r.weigh f = 0 := by
    apply Dict.total_eq_zero
    intro k p hp
    have hk := hnone k
    rw [phase, hp, Option.getD_some] at hk
    omega
  omega

/-- In a group that weighs one, one member has the weight. -/
theorem unique_of_weigh_one {r : Roster κ φ} {f : φ → Nat} (hf : f default = 0) (h : r.weigh f = 1) :
    ∃! k, 0 < f (r.phase k) := by
  obtain ⟨k, hk⟩ := exists_of_weigh_pos (r := r) (f := f) (by omega)
  refine ⟨k, hk, fun k' hk' => ?_⟩
  by_contra hne
  have hle := add_le_weigh r hne hf
  have hpos : 0 < f (r.phase k') := hk'
  omega

end Roster
