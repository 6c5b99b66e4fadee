import Mathlib.Order.Notation

/-! Machines that answer requests, and refinement between them.

A `Machine` takes a request and a state to a reply and the next state. A refinement under
a rule is a relation between the states of two machines: related states give the same
reply and stay related, for every request that meets the rule in the first machine's
state. On requests that all meet it the two then answer alike (`Refinement.replies_eq`). -/
structure Machine (ι σ ο : Type*) where
  step : ι → σ → ο × σ

namespace Machine

variable {ι σ τ ο : Type*}

/-- The replies to a list of requests, in order. -/
def replies (m : Machine ι σ ο) : σ → List ι → List ο
  | _, [] => []
  | s, i :: rest => (m.step i s).1 :: m.replies (m.step i s).2 rest

/-- Every request of the list meets the rule when its turn comes. -/
def Meets (m : Machine ι σ ο) (rule : ι → σ → Prop) : σ → List ι → Prop
  | _, [] => True
  | s, i :: rest => rule i s ∧ m.Meets rule (m.step i s).2 rest

structure Refinement (m : Machine ι σ ο) (n : Machine ι τ ο) (rule : ι → σ → Prop) where
  Rel : σ → τ → Prop
  reply : ∀ i s t, rule i s → Rel s t → (m.step i s).1 = (n.step i t).1
  step : ∀ i s t, rule i s → Rel s t → Rel (m.step i s).2 (n.step i t).2

namespace Refinement
variable {m : Machine ι σ ο} {n : Machine ι τ ο} {rule rule' : ι → σ → Prop}

/-- Another rule will do if it implies the rule in related states. -/
def ofRule (r : Refinement m n rule) (h : ∀ i s t, r.Rel s t → rule' i s → rule i s) : Refinement m n rule' where
  Rel := r.Rel
  reply i s t hrule hrel := r.reply i s t (h i s t hrel hrule) hrel
  step i s t hrule hrel := r.step i s t (h i s t hrel hrule) hrel

/-- Related states give the same replies. -/
theorem replies_eq (r : Refinement m n rule) {s : σ} {t : τ} (hrel : r.Rel s t) {requests : List ι}
    (hmeets : m.Meets rule s requests) : m.replies s requests = n.replies t requests := by
  induction requests generalizing s t with
  | nil => rfl
  | cons i rest ih =>
    obtain ⟨hrule, hrest⟩ := hmeets
    have hreply := r.reply i s t hrule hrel
    have hstep := r.step i s t hrule hrel
    rw [replies, replies, hreply, ih hstep hrest]

end Refinement

end Machine
