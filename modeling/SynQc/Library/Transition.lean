import Mathlib.Logic.Relation

/-! Systems of atomic actions, and rules on their runs.

A `System` is a set of initial states and a partial step function: `step e s` is the
state after the action `e`, or nothing where `e` cannot happen in `s`. Concurrency is
the choice of the next action, so a statement about every list of actions is a
statement about every interleaving.

A *rule* is a condition on an action and the state before it. `Leads C` is a run all of
whose steps meet the rule `C`, `Reachable C` what such runs reach from an initial state;
with the rule `anything` they are plain runs. An invariant is proved from one step
(`reachable_invariant`); a fact about two points of a run from one step and an
invariant (`leads_relation`). -/
namespace Transition

structure System (σ ε : Type*) where
  init : σ → Prop
  step : ε → σ → Option σ

variable {σ ε : Type*}

/-- The rule every step meets. -/
def anything : ε → σ → Prop := fun _ _ => True

namespace System
variable (S : System σ ε)

/-- The actions of a list, in order. -/
def run : σ → List ε → Option σ
  | s, [] => some s
  | s, e :: rest => (S.step e s).bind fun t => run t rest

/-- One step that meets the rule. -/
def Next (C : ε → σ → Prop) (s t : σ) : Prop := ∃ e, C e s ∧ S.step e s = some t

/-- Any number of steps that meet the rule. -/
def Leads (C : ε → σ → Prop) : σ → σ → Prop := Relation.ReflTransGen (S.Next C)

def Reachable (C : ε → σ → Prop) (t : σ) : Prop := ∃ s, S.init s ∧ S.Leads C s t

variable {S} {C D : ε → σ → Prop}

theorem run_leads {s t : σ} {es : List ε} (h : S.run s es = some t) : S.Leads anything s t := by
  induction es generalizing s with
  | nil =>
    cases h
    exact .refl
  | cons e rest ih =>
    obtain ⟨u, hu, hrest⟩ := Option.bind_eq_some_iff.mp h
    exact .head ⟨e, trivial, hu⟩ (ih hrest)

/-- A run whose every step also passes a test. -/
def walk (S : System σ ε) (ok : ε → σ → Bool) : σ → List ε → Option σ
  | s, [] => some s
  | s, e :: rest => if ok e s then (S.step e s).bind fun t => walk S ok t rest else none

/-- A run through the actions of a list, each of which meets the rule. -/
inductive Trace (S : System σ ε) (C : ε → σ → Prop) : σ → List ε → σ → Prop where
  | nil (s : σ) : Trace S C s [] s
  | cons {e : ε} {s t u : σ} {es : List ε} (rule : C e s) (step : S.step e s = some t) (rest : Trace S C t es u) :
      Trace S C s (e :: es) u

theorem Trace.leads {s t : σ} {es : List ε} (h : S.Trace C s es t) : S.Leads C s t := by
  induction h with
  | nil s => exact .refl
  | cons rule step _ ih => exact .head ⟨_, rule, step⟩ ih

/-- A test that implies the rule on the actions of a list gives a run under the rule. -/
theorem walk_trace {ok : ε → σ → Bool} {s t : σ} {es : List ε}
    (hok : ∀ e ∈ es, ∀ s, ok e s = true → C e s) (h : walk S ok s es = some t) : S.Trace C s es t := by
  induction es generalizing s with
  | nil =>
    cases h
    exact .nil _
  | cons e rest ih =>
    unfold walk at h
    split at h
    · rename_i hpass
      obtain ⟨u, hu, hrest⟩ := Option.bind_eq_some_iff.mp h
      exact .cons (hok e List.mem_cons_self s hpass) hu
        (ih (fun e' he' => hok e' (List.mem_cons_of_mem _ he')) hrest)
    · cases h

theorem walk_leads {ok : ε → σ → Bool} {s t : σ} {es : List ε}
    (hok : ∀ e ∈ es, ∀ s, ok e s = true → C e s) (h : walk S ok s es = some t) : S.Leads C s t :=
  (walk_trace hok h).leads

theorem run_reachable {s t : σ} {es : List ε} (hs : S.init s) (h : S.run s es = some t) :
    S.Reachable anything t := ⟨s, hs, run_leads h⟩

/-- A run under a rule is a run under any weaker rule. -/
theorem Leads.weaken (hCD : ∀ e s, C e s → D e s) {s t : σ} (h : S.Leads C s t) : S.Leads D s t :=
  Relation.ReflTransGen.mono (fun s _ ⟨e, hc, he⟩ => ⟨e, hCD e s hc, he⟩) _ _ h

theorem Reachable.weaken (hCD : ∀ e s, C e s → D e s) {t : σ} (h : S.Reachable C t) :
    S.Reachable D t := by
  obtain ⟨s, hs, hl⟩ := h
  exact ⟨s, hs, hl.weaken hCD⟩

theorem Reachable.plain {t : σ} (h : S.Reachable C t) : S.Reachable anything t :=
  h.weaken fun _ _ _ => trivial

theorem Reachable.trans {s t : σ} (h : S.Reachable C s) (hl : S.Leads C s t) : S.Reachable C t := by
  obtain ⟨r, hr, hl'⟩ := h
  exact ⟨r, hr, Relation.ReflTransGen.trans hl' hl⟩

theorem Reachable.next {s t : σ} {e : ε} (h : S.Reachable C s) (hc : C e s)
    (he : S.step e s = some t) : S.Reachable C t := h.trans (.single ⟨e, hc, he⟩)

/-- What one step preserves, a run preserves. -/
theorem leads_invariant {I : σ → Prop} (hstep : ∀ e s t, I s → C e s → S.step e s = some t → I t)
    {s t : σ} (hl : S.Leads C s t) (hs : I s) : I t := by
  induction hl with
  | refl => exact hs
  | tail _ hnext ih =>
    obtain ⟨e, hc, he⟩ := hnext
    exact hstep e _ _ ih hc he

/-- An initial condition that every step preserves holds in every reachable state. -/
theorem reachable_invariant {I : σ → Prop} (hinit : ∀ s, S.init s → I s)
    (hstep : ∀ e s t, I s → C e s → S.step e s = some t → I t) {t : σ} (h : S.Reachable C t) :
    I t := by
  obtain ⟨s, hs, hl⟩ := h
  exact leads_invariant hstep hl (hinit s hs)

/-- A rule that an invariant implies is no restriction. -/
theorem Reachable.strengthen {I : σ → Prop} (hinit : ∀ s, S.init s → I s)
    (hstep : ∀ e s t, I s → C e s → S.step e s = some t → I t) (hCD : ∀ e s, I s → D e s) {t : σ}
    (h : S.Reachable C t) : S.Reachable D t := by
  obtain ⟨s, hs, hl⟩ := h
  suffices hlead : S.Leads D s t ∧ I t from ⟨s, hs, hlead.1⟩
  induction hl with
  | refl => exact ⟨.refl, hinit s hs⟩
  | tail _ hnext ih =>
    obtain ⟨e, hc, he⟩ := hnext
    exact ⟨ih.1.tail ⟨e, hCD e _ ih.2, he⟩, hstep e _ _ ih.2 hc he⟩

/-- Where each step makes a measure smaller, runs are no longer than the measure. -/
theorem Trace.length_le (measure : σ → Nat) (hless : ∀ e s t, C e s → S.step e s = some t → measure t < measure s)
    {s t : σ} {es : List ε} (h : S.Trace C s es t) : es.length ≤ measure s := by
  induction h with
  | nil s => exact Nat.zero_le _
  | cons rule step _ ih =>
    rw [List.length_cons]
    exact Nat.lt_of_le_of_lt ih (hless _ _ _ rule step)

/-- And every run goes on to a state where no step is left. -/
theorem exists_final (measure : σ → Nat) (hless : ∀ e s t, C e s → S.step e s = some t → measure t < measure s) (s : σ) :
    ∃ t, S.Leads C s t ∧ ¬∃ u, S.Next C t u := by
  induction hn : measure s using Nat.strongRecOn generalizing s with
  | _ n ih =>
    by_cases hnext : ∃ u, S.Next C s u
    · obtain ⟨u, e, hc, he⟩ := hnext
      obtain ⟨t, hleads, hfinal⟩ := ih (measure u) (hn ▸ hless e s u hc he) u rfl
      exact ⟨t, .head ⟨e, hc, he⟩ hleads, hfinal⟩
    · exact ⟨s, .refl, hnext⟩

/-- A reflexive and transitive relation that every step from an invariant state meets
relates the two ends of a run. -/
theorem leads_relation {I : σ → Prop} {R : σ → σ → Prop}
    (hI : ∀ e s t, I s → C e s → S.step e s = some t → I t) (hrefl : ∀ s, R s s)
    (htrans : ∀ s t u, R s t → R t u → R s u)
    (hR : ∀ e s t, I s → C e s → S.step e s = some t → R s t)
    {s t : σ} (hl : S.Leads C s t) (hs : I s) : R s t := by
  induction hl with
  | refl => exact hrefl s
  | tail hl hnext ih =>
    obtain ⟨e, hc, he⟩ := hnext
    exact htrans _ _ _ ih (hR e _ _ (leads_invariant hI hl hs) hc he)

end System

end Transition
