import Mathlib.Logic.Basic

/-! Computations that raise.

A sequence of two returns what the second does after the first has returned (`bind_eq_ok`). A loop that
collects results returns if each of its steps does, and its results are theirs (`mapM_ok`, `mapM_spec`). What such a computation
can raise is what its parts can (`Raises.bind`, `Raises.mapM`). -/
namespace Fallible
variable {α β ε : Type}

theorem bind_eq_ok {x : Except ε α} {f : α → Except ε β} {b : β} :
    (x >>= f) = .ok b ↔ ∃ a, x = .ok a ∧ f a = .ok b := by
  cases x with
  | error e => simp [bind, Except.bind]
  | ok a => simp [bind, Except.bind]

/-- Two continuations that agree up to a map agree up to it after the same computation. -/
theorem map_bind_congr {γ : Type} {x : Except ε α} {f g : α → Except ε β} {h : β → γ}
    (hfg : ∀ a, (f a).map h = (g a).map h) : (x >>= f).map h = (x >>= g).map h := by
  cases x with
  | error e => rfl
  | ok a => exact hfg a

theorem mapM_ok {f : α → Except ε β} {g : α → β} {xs : List α} (h : ∀ x ∈ xs, f x = .ok (g x)) :
    xs.mapM f = .ok (xs.map g) := by
  induction xs with
  | nil => rfl
  | cons x xs ih =>
    rw [List.mapM_cons, h x List.mem_cons_self, ih fun y hy => h y (List.mem_cons_of_mem _ hy)]
    rfl

/-- There are as many results as elements, and each is the one of an element. -/
theorem mapM_spec {f : α → Except ε β} {xs : List α} {ys : List β} (h : xs.mapM f = .ok ys) :
    ys.length = xs.length ∧ ∀ y ∈ ys, ∃ x ∈ xs, f x = .ok y := by
  induction xs generalizing ys with
  | nil =>
    obtain rfl := Except.ok.inj h
    exact ⟨rfl, nofun⟩
  | cons x xs ih =>
    rw [List.mapM_cons] at h
    obtain ⟨y, hy, h⟩ := bind_eq_ok.mp h
    obtain ⟨rest, hrest, h⟩ := bind_eq_ok.mp h
    obtain rfl := Except.ok.inj h
    obtain ⟨hlength, hall⟩ := ih hrest
    refine ⟨by rw [List.length_cons, hlength, List.length_cons], ?_⟩
    intro z hz
    obtain rfl | hz := List.mem_cons.mp hz
    · exact ⟨x, List.mem_cons_self, hy⟩
    · obtain ⟨x', hx', hz'⟩ := hall z hz
      exact ⟨x', List.mem_cons_of_mem x hx', hz'⟩

/-! ### What is raised -/

/-- Whatever the computation raises is one of these. -/
def Raises (P : ε → Prop) (x : Except ε α) : Prop := ∀ e, x = .error e → P e

section Raising
variable {P : ε → Prop}

theorem Raises.ok (a : α) : Raises P (.ok a) := by
  intro e h
  cases h

theorem Raises.error {e : ε} (he : P e) : Raises P (.error e : Except ε α) := by
  intro e' h
  cases h
  exact he

theorem Raises.bind {x : Except ε α} {f : α → Except ε β} (hx : Raises P x) (hf : ∀ a, x = .ok a → Raises P (f a)) :
    Raises P (x >>= f) := by
  intro e h
  cases x with
  | error e' =>
    have he : (.error e' : Except ε β) = .error e := h
    obtain rfl := Except.error.inj he
    exact hx _ rfl
  | ok a => exact hf a rfl e h

theorem Raises.mapM {f : α → Except ε β} {xs : List α} (h : ∀ x ∈ xs, Raises P (f x)) : Raises P (xs.mapM f) := by
  induction xs with
  | nil => exact Raises.ok []
  | cons x xs ih =>
    rw [List.mapM_cons]
    refine (h x List.mem_cons_self).bind fun y _ => ?_
    exact (ih fun z hz => h z (List.mem_cons_of_mem x hz)).bind fun ys _ => Raises.ok (y :: ys)

theorem Raises.foldlM {f : β → α → Except ε β} {xs : List α} {b : β} (h : ∀ x ∈ xs, ∀ b, Raises P (f b x)) :
    Raises P (xs.foldlM f b) := by
  induction xs generalizing b with
  | nil => exact Raises.ok b
  | cons x xs ih =>
    rw [List.foldlM_cons]
    exact (h x List.mem_cons_self b).bind fun b' _ => ih fun z hz => h z (List.mem_cons_of_mem x hz)

end Raising

end Fallible
