import SynQc.Library.Dict
import SynQc.Library.Scoped
import SynQc.Library.Transition

/-! The shared logging context.

All requests of a process share one dictionary of extras. A `log_context` block saves it on
entry, pushes its fields that are not `None`, and puts the saved extras back when it is
left. Blocks of overlapping requests are entered and left in any order, and then a block
restores what it found of the others. If each block is left only while it is the latest, and
its own code logs only under blocks that push no other ids, nothing leaks
(`nested_no_leak`). -/
namespace SynQc.Logging
open Transition Scoped

/-! ### The context -/

section
variable {V : Type}

/-- Keyword arguments, some of them `None`. -/
abbrev Fields (V : Type) := Dict String (Option V)

/-- The extras of the shared adapter. An adapter that is not there yet counts as one without
any. -/
abbrev Extras (V : Type) := Dict String V

/-- `set_log_context(**fields)` -/
def setLogContext (fields : Fields V) (extras : Extras V) : Extras V := extras.update fields.somes

/-- What a block pushes for a field. -/
def pushed (fields : Fields V) (k : String) : Option V := (fields.get? k).join

theorem get?_setLogContext (fields : Fields V) (extras : Extras V) (k : String) :
    (setLogContext fields extras).get? k = (pushed fields k).or (extras.get? k) := by
  rw [setLogContext, Dict.get?_update, Dict.get?_somes]
  rfl

/-- The fields that tell requests apart. -/
def idFields : List String := ["request_id", "session_id"]

/-! ### Blocks of one process -/

/-- A `log_context` block, with its fields. -/
abbrev Tag (V : Type) := Nat × Fields V

/-- `log_context(**fields)`: the block saves the extras and pushes its fields. -/
def pushTag (tag : Tag V) (extras : Extras V) : Extras V := setLogContext tag.2 extras

structure State (V : Type) where
  cell : Cell (Tag V) (Extras V)
  /-- The fields of the block each line was logged in, with the extras of the line. -/
  lines : List (Fields V × Extras V)

inductive Event (V : Type) where
  | enter (block : Nat) (fields : Fields V)
  | leave (block : Nat)
  /-- The block's own code logs a line. -/
  | log (block : Nat)

def step : Event V → State V → Option (State V)
  | .enter block fields, s =>
    if s.cell.active.any fun b => b.tag.1 = block then none
    else some {s with cell := s.cell.enter pushTag (block, fields)}
  | .leave block, s => (s.cell.leave fun tag => tag.1 = block).map fun cell => {s with cell := cell}
  | .log block, s =>
    (s.cell.active.find? fun b => b.tag.1 = block).map fun b =>
      {s with lines := s.lines ++ [(b.tag.2, s.cell.value)]}

def system (extras : Extras V) : System (State V) (Event V) where
  init s := s = ⟨⟨extras, []⟩, []⟩
  step := step

/-- Each block is left while it is the latest, and its own code logs while no later block has
pushed another id. -/
def Nesting : Event V → State V → Prop
  | .enter _ _, _ => True
  | .leave block, s => ∃ b, s.cell.active.head? = some b ∧ b.tag.1 = block
  | .log block, s => ∀ above b below, s.cell.active = above ++ b :: below → b.tag.1 = block →
      (∀ later ∈ above, later.tag.1 ≠ block) →
      ∀ later ∈ above, ∀ k ∈ idFields, pushed later.tag.2 k = none ∨ pushed later.tag.2 k = pushed b.tag.2 k

/-! ### Nothing leaks -/

/-- Blocks that push nothing else for a field leave what is there. -/
theorem get?_above {above : List (Block (Tag V) (Extras V))} {extras : Extras V} {k : String} {v : V}
    (hextras : extras.get? k = some v)
    (habove : ∀ later ∈ above, pushed later.tag.2 k = none ∨ pushed later.tag.2 k = some v) :
    (above.foldr (fun b extras => pushTag b.tag extras) extras).get? k = some v := by
  induction above with
  | nil => exact hextras
  | cons later above ih =>
    have hrest := ih fun b hb => habove b (List.mem_cons_of_mem _ hb)
    rw [List.foldr_cons, pushTag, get?_setLogContext, hrest]
    rcases habove later List.mem_cons_self with hnone | hsome
    · rw [hnone]
      rfl
    · rw [hsome]
      rfl

/-- The ids of a line are those its block pushed. -/
def Own (line : Fields V × Extras V) : Prop :=
  ∀ k ∈ idFields, ∀ v, line.1.get? k = some (some v) → line.2.get? k = some v

theorem own_of_nested {extras : Extras V} {c : Cell (Tag V) (Extras V)} (h : c.Nested pushTag extras)
    {above below : List (Block (Tag V) (Extras V))} {b : Block (Tag V) (Extras V)} (hactive : c.active = above ++ b :: below)
    (habove : ∀ later ∈ above, ∀ k ∈ idFields, pushed later.tag.2 k = none ∨ pushed later.tag.2 k = pushed b.tag.2 k) :
    Own (b.tag.2, c.value) := by
  intro k hk v hv
  have hpushed : pushed b.tag.2 k = some v := by
    rw [pushed, hv]
    rfl
  have hb : (pushTag b.tag b.saved).get? k = some v := by
    rw [pushTag, get?_setLogContext, hpushed]
    rfl
  show c.value.get? k = some v
  rw [Stacked.above h hactive]
  exact get?_above hb fun later hlater => hpushed ▸ habove later hlater k hk

/-- What nested blocks keep. -/
structure Sound (extras : Extras V) (s : State V) : Prop where
  nested : s.cell.Nested pushTag extras
  own : ∀ line ∈ s.lines, Own line

theorem sound_step {extras : Extras V} {e : Event V} {s t : State V} (h : Sound extras s) (hrule : Nesting e s)
    (hstep : step e s = some t) : Sound extras t := by
  obtain ⟨hnested, hlines⟩ := h
  cases e with
  | enter block fields =>
    simp only [step] at hstep
    split at hstep
    · cases hstep
    · cases hstep
      exact ⟨hnested.enter _, hlines⟩
  | leave block =>
    obtain ⟨b, hlatest, hb⟩ := hrule
    obtain ⟨cell, hleave, rfl⟩ := Option.map_eq_some_iff.mp hstep
    exact ⟨hnested.leave hlatest (decide_eq_true hb) hleave, hlines⟩
  | log block =>
    obtain ⟨b, hfind, rfl⟩ := Option.map_eq_some_iff.mp hstep
    obtain ⟨hb, above, below, hactive, habove⟩ := List.find?_eq_some_iff_append.mp hfind
    refine ⟨hnested, fun line hline => ?_⟩
    rcases List.mem_append.mp hline with hline | hline
    · exact hlines line hline
    · rw [List.mem_singleton.mp hline]
      refine own_of_nested hnested hactive (hrule above b below hactive (of_decide_eq_true hb) fun later hlater => ?_)
      simpa using habove later hlater

/-- **If blocks are nested, the context is restored when all have been left, and a line has the
ids its own block pushed.** -/
theorem nested_no_leak {extras : Extras V} {s : State V} (h : (system extras).Reachable Nesting s) :
    (s.cell.active = [] → s.cell.value = extras) ∧
      ∀ line ∈ s.lines, ∀ k ∈ idFields, ∀ v, line.1.get? k = some (some v) → line.2.get? k = some v := by
  have hsound : Sound extras s := by
    refine System.reachable_invariant ?_ ?_ h
    · rintro s rfl
      exact ⟨nested_idle extras, by simp⟩
    · exact fun e s t hsound hrule hstep => sound_step hsound hrule hstep
  exact ⟨hsound.nested.restored, hsound.own⟩

/-- A test for the rule: a block is left, and logs, while it is the latest. -/
def latestOnly : Event V → State V → Bool
  | .enter _ _, _ => true
  | .leave block, s => s.cell.active.head?.any fun b => b.tag.1 = block
  | .log block, s => s.cell.active.head?.any fun b => b.tag.1 = block

theorem nesting_of_latestOnly (e : Event V) (s : State V) (h : latestOnly e s = true) : Nesting e s := by
  cases e with
  | enter block fields => exact trivial
  | leave block =>
    obtain ⟨b, hlatest, hb⟩ := Option.any_eq_true _ _ |>.mp h
    exact ⟨b, hlatest, of_decide_eq_true hb⟩
  | log block =>
    intro above b below hactive _ habove later hlater
    obtain ⟨latest, hlatest, hb⟩ := Option.any_eq_true _ _ |>.mp h
    cases above with
    | nil => cases hlater
    | cons first above =>
      rw [hactive, List.cons_append, List.head?_cons] at hlatest
      cases hlatest
      exact absurd (of_decide_eq_true hb) (habove latest List.mem_cons_self)

def requestFields (requestId : String) : Fields String := Dict.empty.set "request_id" (some requestId)

def nestedRun : List (Event String) :=
  [.enter 0 (requestFields "a"), .enter 1 (requestFields "b"), .log 1, .leave 1, .log 0, .leave 0]

theorem nested_no_leak_two : ∃ s : State String, s.lines.length = 2 ∧
    (s.cell.active = [] → s.cell.value = Dict.empty) ∧
      ∀ line ∈ s.lines, ∀ k ∈ idFields, ∀ v, line.1.get? k = some (some v) → line.2.get? k = some v := by
  have hrun : (System.walk (system Dict.empty) latestOnly ⟨⟨Dict.empty, []⟩, []⟩ nestedRun).map (·.lines.length) =
      some 2 := by decide +kernel
  obtain ⟨s, hwalk, hlines⟩ := Option.map_eq_some_iff.mp hrun
  have hreachable : (system Dict.empty).Reachable Nesting s :=
    ⟨_, rfl, System.walk_leads (fun e _ s hok => nesting_of_latestOnly e s hok) hwalk⟩
  exact ⟨s, hlines, nested_no_leak hreachable⟩

/-- Two requests that overlap: the first is over first, and its id stays. -/
def overlappingRun : List (Event String) :=
  [.enter 0 (requestFields "a"), .enter 1 (requestFields "b"), .leave 0, .leave 1]

theorem overlapping_leak : ¬∀ (extras : Extras String) (s : State String), (system extras).Reachable anything s →
    (s.cell.active = [] → s.cell.value = extras) ∧
      ∀ line ∈ s.lines, ∀ k ∈ idFields, ∀ v, line.1.get? k = some (some v) → line.2.get? k = some v := by
  intro hclaim
  have hrun : (System.run (system Dict.empty) ⟨⟨Dict.empty, []⟩, []⟩ overlappingRun).map
      (fun s => (s.cell.active.isEmpty, s.cell.value.get? "request_id")) = some (true, some "a") := by decide +kernel
  obtain ⟨s, hs, hleft⟩ := Option.map_eq_some_iff.mp hrun
  obtain ⟨hactive, hvalue⟩ := Prod.mk.inj hleft
  have hrestored := (hclaim Dict.empty s (System.run_reachable rfl hs)).1 (List.isEmpty_iff.mp hactive)
  rw [hrestored, Dict.get?_empty] at hvalue
  cases hvalue

end

end SynQc.Logging
