import Mathlib.Data.Option.Basic

/-! Scripts of statements, on one store and over a pool of connections.

A `Script` reads and writes a store of type `σ`, one statement after another. On one store
each statement takes effect at once (`Script.run`). A `Pool` is a store with several
connections that never commit: the first write of a connection opens its transaction,
which then sees the writes made on it; other connections see what is committed, and
their writes fail (`Script.exec`). Each script runs on the connection that has been free
longest.

The pool is one store to a script that is `Visible` to it (`Pool.call_eq`), and to a list
of calls each of which is (`outcomes_eq`). -/
namespace Sql

inductive Script (σ α : Type) where
  | done (result : α)
  | query {β : Type} (ask : σ → β) (next : β → Script σ α)
  | modify {β : Type} (change : σ → β × σ) (next : β → Script σ α)

/-- Connections to one store. At least one is free. -/
structure Pool (σ : Type) where
  committed : σ
  /-- The connection with the write transaction, and what it sees. -/
  writer : Option (Nat × σ) := none
  next : Nat
  others : List Nat

variable {σ α : Type}

namespace Pool
variable (p : Pool σ) (conn : Nat)

/-- All writes. -/
def latest : σ :=
  match p.writer with
  | some (_, s) => s
  | none => p.committed

/-- No other connection has the write transaction. -/
def Clear : Prop := ∀ w ∈ p.writer, w.1 = conn

instance : Decidable (p.Clear conn) := by
  unfold Clear
  cases p.writer <;> infer_instance

/-- What a connection sees. -/
def view : σ := if p.Clear conn then p.latest else p.committed

/-- The connection that was next goes to the end of the queue. -/
def rotate : Pool σ :=
  match p.others with
  | [] => p
  | first :: rest => {p with next := first, others := rest ++ [p.next]}

/-- The next connection has opened the write transaction. -/
def taken : Pool σ := {p with writer := some (p.next, p.latest)}

/-- The same connections in turn, and the same one writing. -/
structure SameTurns (p q : Pool σ) : Prop where
  next : p.next = q.next
  others : p.others = q.others
  writer : p.writer.map Prod.fst = q.writer.map Prod.fst

theorem SameTurns.rotate {p q : Pool σ} (h : p.SameTurns q) : p.rotate.SameTurns q.rotate := by
  simp only [Pool.rotate]
  rw [← h.others]
  cases p.others with
  | nil => exact h
  | cons first rest => exact ⟨rfl, by rw [h.next], h.writer⟩

theorem SameTurns.clear {p q : Pool σ} (h : p.SameTurns q) (conn : Nat) : p.Clear conn ↔ q.Clear conn := by
  have hfirst : ∀ p : Pool σ, p.Clear conn ↔ ∀ c ∈ p.writer.map Prod.fst, c = conn := by
    intro p
    rw [Clear]
    cases p.writer <;> simp
  rw [hfirst, hfirst, h.writer]

theorem view_of_clear {p : Pool σ} {conn : Nat} (h : p.Clear conn) : p.view conn = p.latest := if_pos h

theorem latest_rotate (p : Pool σ) : p.rotate.latest = p.latest := by
  simp only [rotate]
  split <;> rfl

theorem committed_rotate (p : Pool σ) : p.rotate.committed = p.committed := by
  simp only [rotate]
  split <;> rfl

end Pool

namespace Script

def run : Script σ α → σ → α × σ
  | .done result, s => (result, s)
  | .query ask next, s => (next (ask s)).run s
  | .modify change next, s => (next (change s).1).run (change s).2

def map {β : Type} (f : α → β) : Script σ α → Script σ β
  | .done result => .done (f result)
  | .query ask next => .query ask fun answer => (next answer).map f
  | .modify change next => .modify change fun answer => (next answer).map f

@[simp] theorem run_map {β : Type} (f : α → β) (script : Script σ α) (s : σ) :
    (script.map f).run s = (f (script.run s).1, (script.run s).2) := by
  induction script generalizing s with
  | done result => rfl
  | query ask next ih => exact ih (ask s) s
  | modify change next ih => exact ih (change s).1 (change s).2

/-- On a connection. A write that cannot have the transaction ends the script with `locked`. -/
def exec (locked : α) (conn : Nat) : Script σ α → Pool σ → α × Pool σ
  | .done result, p => (result, p)
  | .query ask next, p => (next (ask (p.view conn))).exec locked conn p
  | .modify change next, p =>
    if p.Clear conn then
      (next (change (p.view conn)).1).exec locked conn {p with writer := some (conn, (change (p.view conn)).2)}
    else (locked, p)

/-- The script only queries, and two stores give it the same answers. -/
def Reads : Script σ α → σ → σ → Prop
  | .done _, _, _ => True
  | .query ask next, s, t => ask s = ask t ∧ (next (ask s)).Reads s t
  | .modify .., _, _ => False

@[simp] theorem reads_done (result : α) (s t : σ) : (Script.done result).Reads s t := trivial

@[simp] theorem reads_query {β : Type} (ask : σ → β) (next : β → Script σ α) (s t : σ) :
    (Script.query ask next).Reads s t ↔ ask s = ask t ∧ (next (ask s)).Reads s t := Iff.rfl

@[simp] theorem reads_map {β : Type} (f : α → β) (script : Script σ α) (s t : σ) :
    (script.map f).Reads s t ↔ script.Reads s t := by
  induction script with
  | done result => exact Iff.rfl
  | query ask next ih => exact and_congr_right fun _ => ih (ask s)
  | modify change next ih => exact Iff.rfl

/-- A script that only queries. -/
theorem run_of_reads {script : Script σ α} {s t : σ} (h : script.Reads s t) :
    script.run s = ((script.run t).1, s) ∧ (script.run t).2 = t := by
  induction script with
  | done result => exact ⟨rfl, rfl⟩
  | query ask next ih =>
    obtain ⟨hsame, hrest⟩ := h
    have hnext := ih (ask s) hrest
    simp only [run, ← hsame]
    exact hnext
  | modify change next ih => exact h.elim

/-- All changes of the script relate the store before to the store after. -/
def Keeps (R : σ → σ → Prop) : Script σ α → Prop
  | .done _ => True
  | .query _ next => ∀ answer, (next answer).Keeps R
  | .modify change next => (∀ s, R s (change s).2) ∧ ∀ answer, (next answer).Keeps R

theorem run_keeps {R : σ → σ → Prop} (hrefl : ∀ s, R s s) (htrans : ∀ s t u, R s t → R t u → R s u)
    {script : Script σ α} (h : script.Keeps R) (s : σ) : R s (script.run s).2 := by
  induction script generalizing s with
  | done result => exact hrefl s
  | query ask next ih => exact ih (ask s) (h (ask s)) s
  | modify change next ih => exact htrans _ _ _ (h.1 s) (ih (change s).1 (h.2 (change s).1) (change s).2)

theorem exec_of_clear {locked : α} {conn : Nat} (script : Script σ α) {p : Pool σ} (h : p.Clear conn) :
    (script.exec locked conn p).1 = (script.run p.latest).1 ∧
      (script.exec locked conn p).2.latest = (script.run p.latest).2 := by
  induction script generalizing p with
  | done result => exact ⟨rfl, rfl⟩
  | query ask next ih =>
    simp only [exec, run, Pool.view_of_clear h]
    exact ih _ h
  | modify change next ih =>
    simp only [exec, run, Pool.view_of_clear h, if_pos h]
    refine ih _ fun w hw => ?_
    cases hw
    rfl

/-- Without the write transaction a script changes nothing: it fails, or only reads what is committed. -/
theorem exec_blocked (locked : α) {conn : Nat} (script : Script σ α) {p : Pool σ} (hclear : ¬p.Clear conn) :
    script.exec locked conn p = (locked, p) ∨
      (script.Reads p.committed p.committed ∧ script.exec locked conn p = ((script.run p.committed).1, p)) := by
  induction script with
  | done result => exact .inr ⟨trivial, rfl⟩
  | query ask next ih =>
    simp only [exec, run, Pool.view, if_neg hclear, reads_query, true_and]
    exact ih (ask p.committed)
  | modify change next ih => exact .inl (if_neg hclear)

/-- What is committed stays. -/
theorem committed_exec {locked : α} {conn : Nat} (script : Script σ α) (p : Pool σ) :
    (script.exec locked conn p).2.committed = p.committed := by
  induction script generalizing p with
  | done result => rfl
  | query ask next ih => exact ih (ask (p.view conn)) p
  | modify change next ih =>
    rw [exec]
    split
    · exact ih _ _
    · rfl

/-- Without the write transaction a script that only queries reads what is committed. -/
theorem exec_of_reads {locked : α} {conn : Nat} {script : Script σ α} {p : Pool σ} (hclear : ¬p.Clear conn) {t : σ}
    (h : script.Reads p.committed t) : script.exec locked conn p = ((script.run p.committed).1, p) := by
  induction script with
  | done result => rfl
  | query ask next ih =>
    simp only [exec, run, Pool.view, if_neg hclear]
    exact ih _ h.2
  | modify change next ih => exact h.elim

end Script

namespace Pool

/-- A script on the next connection. -/
def call (locked : α) (script : Script σ α) (p : Pool σ) : α × Pool σ :=
  let after := script.exec locked p.next p
  (after.1, after.2.rotate)

/-- Nobody else writes, or the script only queries and nothing it asks for is missing from what is
committed. -/
def Visible (script : Script σ α) (p : Pool σ) : Prop := p.Clear p.next ∨ script.Reads p.committed p.latest

theorem call_eq {locked : α} {script : Script σ α} {p : Pool σ} (h : p.Visible script) :
    (p.call locked script).1 = (script.run p.latest).1 ∧ (p.call locked script).2.latest = (script.run p.latest).2 := by
  simp only [call, latest_rotate]
  by_cases hclear : p.Clear p.next
  · exact script.exec_of_clear hclear
  · have hreads := h.resolve_left hclear
    obtain ⟨hcommitted, hlatest⟩ := Script.run_of_reads hreads
    rw [Script.exec_of_reads hclear hreads, hcommitted, hlatest]
    exact ⟨rfl, rfl⟩

end Pool

/-! ### Calls -/

/-- What a call does: it answers by itself, or runs a script, and then `locked` is how it ends if a write
fails. -/
inductive Plan (σ α : Type) where
  | answer (result : α)
  | connect (locked : α) (script : Script σ α)

namespace Plan

def run : Plan σ α → σ → α × σ
  | .answer result, s => (result, s)
  | .connect _ script, s => script.run s

def call : Plan σ α → Pool σ → α × Pool σ
  | .answer result, p => (result, p)
  | .connect locked script, p => p.call locked script

def Visible : Plan σ α → Pool σ → Prop
  | .answer _, _ => True
  | .connect _ script, p => p.Visible script

theorem call_eq {plan : Plan σ α} {p : Pool σ} (h : plan.Visible p) :
    (plan.call p).1 = (plan.run p.latest).1 ∧ (plan.call p).2.latest = (plan.run p.latest).2 := by
  cases plan with
  | answer result => exact ⟨rfl, rfl⟩
  | connect locked script => exact Pool.call_eq h

/-- How the call ends if a write of it fails. -/
def locked? : Plan σ α → Option α
  | .answer _ => none
  | .connect locked _ => some locked

def Reads : Plan σ α → σ → σ → Prop
  | .answer _, _, _ => True
  | .connect _ script, s, t => script.Reads s t

/-- A call runs on all writes; or it changes nothing, and fails or only reads what is committed. -/
theorem call_cases (plan : Plan σ α) (p : Pool σ) :
    (plan.call p).2.committed = p.committed ∧
    (((plan.call p).1 = (plan.run p.latest).1 ∧ (plan.call p).2.latest = (plan.run p.latest).2) ∨
      ((plan.call p).2.latest = p.latest ∧ (plan.locked? = some (plan.call p).1 ∨
        (plan.Reads p.committed p.committed ∧ (plan.call p).1 = (plan.run p.committed).1)))) := by
  cases plan with
  | answer result => exact ⟨rfl, .inl ⟨rfl, rfl⟩⟩
  | connect locked script =>
    simp only [call, Pool.call, Pool.latest_rotate, Pool.committed_rotate, run, locked?, Reads]
    refine ⟨script.committed_exec p, ?_⟩
    by_cases hclear : p.Clear p.next
    · exact .inl (script.exec_of_clear hclear)
    · right
      rcases script.exec_blocked locked hclear with hfailed | ⟨hreads, hread⟩
      · rw [hfailed]
        exact ⟨rfl, .inl rfl⟩
      · rw [hread]
        exact ⟨rfl, .inr ⟨hreads, rfl⟩⟩

end Plan

section Calls
variable {γ μ ρ : Type} (plan : γ → μ → Plan σ (ρ × μ))

/-- What calls return on one store, with the memory between them. -/
def outcomes : List γ → μ → σ → List ρ
  | [], _, _ => []
  | c :: rest, m, s =>
    let after := (plan c m).run s
    after.1.1 :: outcomes rest after.1.2 after.2

/-- What they return over a pool. -/
def pooledOutcomes : List γ → μ → Pool σ → List ρ
  | [], _, _ => []
  | c :: rest, m, p =>
    let after := (plan c m).call p
    after.1.1 :: pooledOutcomes rest after.1.2 after.2

/-- Each call is visible where it comes. -/
def AllVisible : List γ → μ → Pool σ → Prop
  | [], _, _ => True
  | c :: rest, m, p =>
    (plan c m).Visible p ∧ AllVisible rest ((plan c m).call p).1.2 ((plan c m).call p).2

theorem outcomes_eq {calls : List γ} {m : μ} {p : Pool σ} (h : AllVisible plan calls m p) :
    pooledOutcomes plan calls m p = outcomes plan calls m p.latest := by
  induction calls generalizing m p with
  | nil => rfl
  | cons c rest ih =>
    obtain ⟨hvisible, hrest⟩ := h
    obtain ⟨hresult, hlatest⟩ := Plan.call_eq hvisible
    simp only [pooledOutcomes, outcomes]
    rw [ih hrest, hresult, hlatest]

end Calls

end Sql
