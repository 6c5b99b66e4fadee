import Mathlib.Order.Basic

/-! A cell that blocks change and restore.

A block saves the value it finds, pushes a change, and puts the saved value back when it is
left. Where each block that is left is the one entered last, the value is the initial one
with the changes of the active blocks on top (`Nested`), so the last block to be left
restores it. Nothing of this is asked of blocks that overlap. -/
namespace Scoped

structure Block (φ σ : Type*) where
  tag : φ
  saved : σ

/-- The cell, and the blocks that have been entered and not left, the latest first. -/
structure Cell (φ σ : Type*) where
  value : σ
  active : List (Block φ σ)

section
variable {φ σ : Type*} (push : φ → σ → σ)

def Cell.enter (tag : φ) (c : Cell φ σ) : Cell φ σ := ⟨push tag c.value, ⟨tag, c.value⟩ :: c.active⟩

/-- Leave the block that passes a test. -/
def Cell.leave (p : φ → Bool) (c : Cell φ σ) : Option (Cell φ σ) :=
  (c.active.find? fun b => p b.tag).map fun b => ⟨b.saved, c.active.eraseP fun b => p b.tag⟩

/-- Each active block found what the blocks below it had made of the initial value. -/
def Stacked (initial : σ) : σ → List (Block φ σ) → Prop
  | value, [] => value = initial
  | value, b :: below => value = push b.tag b.saved ∧ Stacked initial b.saved below

def Cell.Nested (initial : σ) (c : Cell φ σ) : Prop := Stacked push initial c.value c.active

variable {push} {initial : σ} {c c' : Cell φ σ}

theorem nested_idle (initial : σ) : (⟨initial, []⟩ : Cell φ σ).Nested push initial := rfl

theorem Cell.Nested.enter (h : c.Nested push initial) (tag : φ) : (c.enter push tag).Nested push initial := ⟨rfl, h⟩

/-- Leaving the latest block keeps the others nested. -/
theorem Cell.Nested.leave (h : c.Nested push initial) {p : φ → Bool} {b : Block φ σ} (hlatest : c.active.head? = some b)
    (hb : p b.tag = true) (hleave : c.leave p = some c') : c'.Nested push initial := by
  obtain ⟨value, active⟩ := c
  cases active with
  | nil => cases hlatest
  | cons first below =>
    cases hlatest
    simp only [Cell.leave, List.find?_cons, hb, List.eraseP_cons, cond_true, Option.map_some, Option.some.injEq] at hleave
    rw [← hleave]
    exact h.2

/-- **When all blocks have been left, the cell has its initial value.** -/
theorem Cell.Nested.restored (h : c.Nested push initial) (hidle : c.active = []) : c.value = initial := by
  rwa [Cell.Nested, hidle] at h

/-- What a block pushed is in the cell, under what the later ones pushed. -/
theorem Stacked.above {value : σ} {active above below : List (Block φ σ)} {b : Block φ σ}
    (h : Stacked push initial value active) (hactive : active = above ++ b :: below) :
    value = above.foldr (fun b c => push b.tag c) (push b.tag b.saved) := by
  induction above generalizing value active with
  | nil =>
    subst hactive
    exact h.1
  | cons first above ih =>
    subst hactive
    rw [List.foldr_cons, ← ih h.2 rfl]
    exact h.1

end

end Scoped
