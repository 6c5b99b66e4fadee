import Mathlib.Algebra.Order.Group.Defs
import Mathlib.Tactic.Abel

/-! A sliding-window limiter.

The limiter keeps the times it accepted in a queue, oldest first. Each call drops from the
front what is older than the window, and is accepted where fewer than the limit are left.
When the clock does not run backwards, what is left are all calls accepted within the window
(`Kept.prune`), so no interval of the window's length has more accepted calls than the limit
(`Kept.accept`), and a call is rejected only where it would be one too many (`Kept.full`). -/
namespace SlidingWindow

section
variable {T : Type*} [LinearOrder T]

/-- Drop from the front what is before the cutoff. -/
def prune (cutoff : T) (window : List T) : List T := window.dropWhile fun a => decide (a < cutoff)

/-- How many of some times are in a closed interval. -/
def within (a b : T) (times : List T) : Nat := times.countP fun t => decide (a ≤ t ∧ t ≤ b)

theorem prune_eq_filter (cutoff : T) {window : List T} (h : window.Pairwise (· ≤ ·)) :
    prune cutoff window = window.filter fun a => decide (cutoff ≤ a) := by
  induction window with
  | nil => rfl
  | cons a rest ih =>
    obtain ⟨ha, hrest⟩ := List.pairwise_cons.mp h
    by_cases hcut : a < cutoff
    · rw [prune, List.dropWhile_cons_of_pos (by simpa using hcut), List.filter_cons_of_neg (by simpa using hcut)]
      exact ih hrest
    · have hle : ∀ b ∈ a :: rest, cutoff ≤ b := by
        intro b hb
        rcases List.mem_cons.mp hb with rfl | hb
        · exact not_lt.mp hcut
        · exact (not_lt.mp hcut).trans (ha b hb)
      rw [prune, List.dropWhile_cons_of_neg (by simpa using hcut)]
      exact (List.filter_eq_self.mpr fun b hb => decide_eq_true (hle b hb)).symm

/-- Up to the last of all times, an interval has what is at or after its start. -/
theorem within_eq_length {a b : T} {times : List T} (h : ∀ t ∈ times, t ≤ b) :
    within a b times = (times.filter fun t => decide (a ≤ t)).length := by
  rw [within, List.countP_eq_length_filter]
  refine congrArg List.length (List.filter_congr fun t ht => ?_)
  exact decide_eq_decide.mpr (and_iff_left (h t ht))

theorem within_append (a b : T) (times : List T) (t : T) :
    within a b (times ++ [t]) = within a b times + if a ≤ t ∧ t ≤ b then 1 else 0 := by
  rw [within, within, List.countP_append, List.countP_singleton]
  simp only [decide_eq_true_eq]

variable [AddCommGroup T] {length : T} {limit : Nat} {accepted window : List T} {now t : T}

/-- The queue of a limiter that has accepted some calls up to a time. -/
structure Kept (length : T) (limit : Nat) (accepted : List T) (now : T) (window : List T) : Prop where
  sorted : accepted.Pairwise (· ≤ ·)
  past : ∀ a ∈ accepted, a ≤ now
  /-- Nothing was dropped that is still within the window. -/
  queue : ∃ cutoff ≤ now - length, window = accepted.filter fun a => decide (cutoff ≤ a)
  bounded : ∀ a, within a (a + length) accepted ≤ limit

theorem kept_nil (length : T) (limit : Nat) (now : T) : Kept length limit [] now [] where
  sorted := .nil
  past := by simp
  queue := ⟨now - length, le_refl _, rfl⟩
  bounded _ := Nat.zero_le _

/-- What is left of the queue are the accepted calls within the window. -/
theorem Kept.prune (h : Kept length limit accepted t window) :
    prune (t - length) window = accepted.filter fun a => decide (t - length ≤ a) := by
  obtain ⟨cutoff, hcutoff, rfl⟩ := h.queue
  rw [prune_eq_filter _ (h.sorted.filter _), List.filter_filter]
  refine List.filter_congr fun a _ => ?_
  rw [← Bool.decide_and]
  exact decide_eq_decide.mpr (and_iff_left_of_imp fun ha => hcutoff.trans ha)

theorem Kept.pruned (h : Kept length limit accepted t window) :
    Kept length limit accepted t (SlidingWindow.prune (t - length) window) :=
  ⟨h.sorted, h.past, ⟨t - length, le_refl _, h.prune⟩, h.bounded⟩

theorem Kept.within_eq (h : Kept length limit accepted t window) :
    within (t - length) t accepted = (SlidingWindow.prune (t - length) window).length := by
  rw [within_eq_length h.past, h.prune]

/-- **A call is rejected only where the window has as many accepted calls as the limit.** -/
theorem Kept.full (h : Kept length limit accepted t window)
    (hfull : ¬(SlidingWindow.prune (t - length) window).length < limit) : within (t - length) t accepted = limit := by
  refine le_antisymm ?_ ?_
  · have hbounded := h.bounded (t - length)
    rwa [sub_add_cancel] at hbounded
  · rw [h.within_eq]
    exact not_lt.mp hfull

/-- A later call finds room in a full window exactly when some call has left it. -/
theorem Kept.room_iff (h : Kept length limit accepted now window)
    (hfull : ¬(SlidingWindow.prune (now - length) window).length < limit) (t : T) :
    (SlidingWindow.prune (t - length) (SlidingWindow.prune (now - length) window)).length < limit ↔
      ∃ a ∈ accepted, now - length ≤ a ∧ a < t - length := by
  have hlimit := h.full hfull
  rw [h.within_eq, h.prune] at hlimit
  rw [h.prune, prune_eq_filter _ (h.sorted.filter _), ← hlimit, List.length_filter_lt_length_iff_exists]
  constructor
  · rintro ⟨a, ha, hleft⟩
    obtain ⟨ha, hin⟩ := List.mem_filter.mp ha
    exact ⟨a, ha, of_decide_eq_true hin, by simpa only [decide_eq_true_eq, not_le] using hleft⟩
  · rintro ⟨a, ha, hin, hleft⟩
    exact ⟨a, List.mem_filter.mpr ⟨ha, decide_eq_true hin⟩, by simpa only [decide_eq_true_eq, not_le] using hleft⟩

variable [IsOrderedAddMonoid T]

/-- Time passes. -/
theorem Kept.mono (h : Kept length limit accepted now window) (hnow : now ≤ t) : Kept length limit accepted t window := by
  obtain ⟨cutoff, hcutoff, hwindow⟩ := h.queue
  exact ⟨h.sorted, fun a ha => (h.past a ha).trans hnow, ⟨cutoff, hcutoff.trans (sub_le_sub_right hnow _), hwindow⟩,
    h.bounded⟩

/-- **An accepted call leaves no interval with more than the limit.** -/
theorem Kept.accept (hlength : 0 ≤ length) (h : Kept length limit accepted t window)
    (hroom : (SlidingWindow.prune (t - length) window).length < limit) :
    Kept length limit (accepted ++ [t]) t (SlidingWindow.prune (t - length) window ++ [t]) := by
  refine ⟨List.pairwise_append.mpr ⟨h.sorted, List.pairwise_singleton _ _, ?_⟩, ?_, ?_, ?_⟩
  · intro a ha b hb
    rw [List.mem_singleton.mp hb]
    exact h.past a ha
  · intro a ha
    rcases List.mem_append.mp ha with ha | ha
    · exact h.past a ha
    · exact (List.mem_singleton.mp ha).le
  · refine ⟨t - length, le_refl _, ?_⟩
    rw [List.filter_append, h.prune, List.filter_cons_of_pos (by simpa using hlength), List.filter_nil]
  · intro a
    rw [within_append]
    split
    case isFalse => exact h.bounded a
    case isTrue hin =>
      have hstart : t - length ≤ a := sub_le_iff_le_add.mpr hin.2
      have hle : within a (a + length) accepted ≤ within (t - length) t accepted := by
        refine List.countP_mono_left fun b hb hbetween => ?_
        simp only [decide_eq_true_eq] at hbetween ⊢
        exact ⟨hstart.trans hbetween.1, h.past b hb⟩
      rw [h.within_eq] at hle
      omega

end

end SlidingWindow
