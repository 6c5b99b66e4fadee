import Mathlib.Tactic.Linarith
import Mathlib.Tactic.Ring
import SynQc.Library.Transition
import SynQc.Metrics.Exporter

/-! `MetricsExporterGuard`: one thread that replaces an exporter whose thread is gone.

`ensure_running` looks at the current exporter, and where its thread does not run asks the
builder for another one and starts it, at most once in every backoff. A thread may end at
any time, also while the guard is at work, and a builder or a start may fail. In all runs
no two exporter threads are alive at once, which is what lets them share a registry, and
the attempts keep their distance (`one_exporter`). -/
namespace SynQc.Metrics.Guard

/-! ### `MetricsExporter.start` -/

/-- An exporter by what its start depends on; `alive` once it has a thread. -/
structure Process where
  enabled : Bool
  alive : Option Bool := none
  deriving DecidableEq

/-- `is_running` -/
def Process.isRunning (p : Process) : Bool := p.alive = some true

/-- What can become of the HTTP server, if one is to be started, and of the new thread. -/
inductive Launch where
  | up
  | serverFails
  | threadFails
  deriving DecidableEq

/-- A failing server is logged and ends the start; a thread that cannot be made raises. -/
def Process.start (launch : Launch) (p : Process) : Process :=
  if !p.enabled ∨ p.isRunning then p
  else
    match launch with
    | .up => {p with alive := some true}
    | .serverFails => p
    | .threadFails => {p with alive := some false}

/-! ### The guard -/

/-- What the builder does. -/
inductive Build where
  | raises
  | nothing
  | exporter (id : Nat) (enabled : Bool)

/-- Where `ensure_running` is. -/
inductive Phase where
  | idle
  | building
  | starting (id : Nat)
  | started (id : Nat)

structure State where
  processes : Dict Nat Process
  current : Option Nat
  /-- `monotonic()`, which does not go back. -/
  clock : ℚ
  lastAttempt : ℚ := 0
  restartCount : Nat := 0
  phase : Phase := .idle
  /-- The times of all attempts, the last first. -/
  attempts : List ℚ := []

inductive Event where
  | wait (now : ℚ)
  | check
  | build (result : Build)
  | start (launch : Launch)
  | confirm
  | ends (id : Nat)

namespace State

def running (s : State) (id : Nat) : Prop := ∃ p, s.processes.get? id = some p ∧ p.isRunning = true

/-- `self._current_exporter and self._current_exporter.is_running` -/
def currentRuns (s : State) : Bool :=
  match s.current with
  | some id => ((s.processes.get? id).map Process.isRunning).getD false
  | none => false

def wait (now : ℚ) (s : State) : Option State := if s.clock ≤ now then some {s with clock := now} else none

/-- `ensure_running` up to the builder. -/
def check (restartBackoff : ℚ) (s : State) : Option State :=
  match s.phase with
  | .idle =>
    if s.currentRuns then some s
    else if s.clock - s.lastAttempt < restartBackoff then some s
    else some {s with lastAttempt := s.clock, phase := .building, attempts := s.clock :: s.attempts}
  | _ => none

def build (result : Build) (s : State) : Option State :=
  match s.phase with
  | .building =>
    match result with
    | .raises | .nothing => some {s with phase := .idle}
    | .exporter id enabled =>
      match s.processes.get? id with
      | some _ => none
      | none => some {s with processes := s.processes.set id {enabled := enabled}, phase := .starting id}
  | _ => none

def start (launch : Launch) (s : State) : Option State :=
  match s.phase with
  | .starting id =>
    match s.processes.get? id with
    | some p =>
      some {s with
        processes := s.processes.set id (p.start launch)
        phase := if launch = .threadFails then .idle else .started id}
    | none => none
  | _ => none

/-- The rest of `ensure_running`, after the start. -/
def confirm (s : State) : Option State :=
  match s.phase with
  | .started id =>
    match s.processes.get? id with
    | some p =>
      if p.isRunning then some {s with current := some id, restartCount := s.restartCount + 1, phase := .idle}
      else some {s with phase := .idle}
    | none => none
  | _ => none

/-- A thread ends, by its stop event or otherwise. -/
def ends (id : Nat) (s : State) : Option State :=
  match s.processes.get? id with
  | some p => if p.isRunning then some {s with processes := s.processes.set id {p with alive := some false}} else none
  | none => none

end State

/-- `max(0.0, float(restart_backoff_seconds))` -/
def restartBackoff (seconds : ℚ) : ℚ := max 0 seconds

/-- The guard, from its construction with the exporter that was started before, if any. -/
def guard (restartBackoffSeconds : ℚ) : Transition.System State Event where
  init s := s.restartCount = 0 ∧ s.lastAttempt = 0 ∧ s.attempts = [] ∧ 0 ≤ s.clock ∧ s.phase = .idle ∧
    ∀ id, s.processes.get? id ≠ none ↔ s.current = some id
  step
    | .wait now => State.wait now
    | .check => State.check (restartBackoff restartBackoffSeconds)
    | .build result => State.build result
    | .start launch => State.start launch
    | .confirm => State.confirm
    | .ends id => State.ends id

/-! ### The invariant -/

/-- The exporter an attempt is about. -/
def Phase.subject : Phase → Option Nat
  | .idle | .building => none
  | .starting id | .started id => some id

def Phase.attempting : Phase → Bool
  | .idle => false
  | _ => true

structure Inv (backoff : ℚ) (s : State) : Prop where
  /-- A thread that runs is the current exporter's, or that of the attempt. -/
  live : ∀ id, s.running id → s.current = some id ∨ s.phase = .started id
  /-- There is no attempt while the current exporter runs. -/
  down : s.phase.attempting = true → ∀ id, s.current = some id → ¬s.running id
  other : ∀ id, s.phase.subject = some id → s.current ≠ some id
  known : ∀ id, s.current = some id ∨ s.phase.subject = some id → s.processes.get? id ≠ none
  spaced : s.attempts.Pairwise fun later earlier => earlier + backoff ≤ later
  last : ∀ a ∈ s.attempts, a ≤ s.lastAttempt
  clock : s.lastAttempt ≤ s.clock
  elapsed : s.attempts.length * backoff ≤ s.lastAttempt
  restarts : s.restartCount + (if s.phase.attempting then 1 else 0) ≤ s.attempts.length

section Steps
variable {backoff : ℚ} {s t : State}

theorem currentRuns_iff (s : State) : s.currentRuns = true ↔ ∃ id, s.current = some id ∧ s.running id := by
  unfold State.currentRuns State.running
  cases s.current with
  | none => simp
  | some id => cases hget : s.processes.get? id <;> simp [hget]

theorem inv_init (h : (guard backoff).init s) : Inv (restartBackoff backoff) s := by
  obtain ⟨hcount, hlast, hattempts, hclock, hphase, hcurrent⟩ := h
  refine ⟨fun id hrun => ?_, fun hattempt => ?_, fun id hsubject => ?_, fun id hknown => ?_, ?_, fun a ha => ?_, ?_,
    ?_, ?_⟩
  · obtain ⟨p, hp, _⟩ := hrun
    exact .inl ((hcurrent id).mp (by rw [hp]; exact Option.some_ne_none p))
  · rw [hphase] at hattempt
    cases hattempt
  · rw [hphase] at hsubject
    cases hsubject
  · rcases hknown with hid | hid
    · exact (hcurrent id).mpr hid
    · rw [hphase] at hid
      cases hid
  · rw [hattempts]
    exact .nil
  · rw [hattempts] at ha
    cases ha
  · rw [hlast]
    exact hclock
  · rw [hattempts, hlast]
    simp
  · rw [hcount, hphase]
    exact Nat.zero_le _

theorem running_set {processes : Dict Nat Process} {id id' : Nat} {p : Process}
    (h : State.running {s with processes := processes.set id p} id') :
    (id = id' ∧ p.isRunning = true) ∨ State.running {s with processes := processes} id' := by
  obtain ⟨p', hp', hrun⟩ := h
  simp only [Dict.get?_set] at hp'
  split at hp'
  · rename_i hid
    cases hp'
    exact .inl ⟨hid, hrun⟩
  · exact .inr ⟨p', hp', hrun⟩

theorem inv_wait (h : Inv backoff s) {now : ℚ} (hstep : State.wait now s = some t) : Inv backoff t := by
  unfold State.wait at hstep
  split at hstep
  · rename_i hnow
    cases hstep
    exact ⟨h.live, h.down, h.other, h.known, h.spaced, h.last, h.clock.trans hnow, h.elapsed, h.restarts⟩
  · cases hstep

/-- An attempt is made with the current exporter down and the last attempt a backoff ago. -/
theorem inv_check (h : Inv backoff s) (hstep : State.check backoff s = some t) : Inv backoff t := by
  unfold State.check at hstep
  split at hstep
  · rename_i hphase
    split at hstep
    · cases hstep
      exact h
    · rename_i hdown
      split at hstep
      · cases hstep
        exact h
      · rename_i hback
        cases hstep
        have hlater : s.lastAttempt + backoff ≤ s.clock := by linarith
        have hdead : ∀ id, s.current = some id → ¬s.running id := fun id hid hrun =>
          hdown ((currentRuns_iff s).mpr ⟨id, hid, hrun⟩)
        have hlive := h.live
        have hrestarts := h.restarts
        rw [hphase] at hlive hrestarts
        refine ⟨fun id hrun => ?_, fun _ => hdead, fun id hsubject => ?_, fun id hknown => ?_, ?_, fun a ha => ?_,
          le_refl _,
          ?_, ?_⟩
        · rcases hlive id hrun with hid | hid
          · exact .inl hid
          · cases hid
        · cases hsubject
        · rcases hknown with hid | hid
          · exact h.known id (.inl hid)
          · cases hid
        · refine List.pairwise_cons.mpr ⟨fun a ha => ?_, h.spaced⟩
          have hlast := h.last a ha
          linarith
        · rcases List.mem_cons.mp ha with rfl | ha
          · exact le_refl _
          · exact (h.last a ha).trans h.clock
        · have helapsed := h.elapsed
          change ((s.clock :: s.attempts).length : ℚ) * backoff ≤ s.clock
          rw [List.length_cons, Nat.cast_add, Nat.cast_one, add_mul, one_mul]
          linarith
        · change s.restartCount + 1 ≤ s.attempts.length + 1
          simp only [Phase.attempting, Bool.false_eq_true, if_false] at hrestarts
          omega
  · cases hstep

/-- The attempt is over, without another exporter. -/
theorem inv_giveUp (h : Inv backoff s) (hnone : ∀ id, s.phase = .started id → ¬s.running id) :
    Inv backoff {s with phase := .idle} := by
  refine ⟨fun id hrun => ?_, fun hattempt => ?_, fun id hsubject => ?_, fun id hknown => ?_, h.spaced, h.last, h.clock,
    h.elapsed, (Nat.add_le_add_left (Nat.zero_le _) _).trans h.restarts⟩
  · rcases h.live id hrun with hid | hid
    · exact .inl hid
    · exact absurd hrun (hnone id hid)
  · cases hattempt
  · cases hsubject
  · rcases hknown with hid | hid
    · exact h.known id (.inl hid)
    · cases hid

theorem inv_build (h : Inv backoff s) {result : Build} (hstep : State.build result s = some t) : Inv backoff t := by
  unfold State.build at hstep
  split at hstep
  · rename_i hphase
    have hnone : ∀ id, s.phase = .started id → ¬s.running id := by
      intro id hid
      rw [hphase] at hid
      cases hid
    split at hstep
    · cases hstep
      exact inv_giveUp h hnone
    · cases hstep
      exact inv_giveUp h hnone
    · rename_i id enabled
      split at hstep
      · cases hstep
      · rename_i hfresh
        cases hstep
        have hdown := h.down (by rw [hphase]; rfl)
        have hlive := h.live
        have hrestarts := h.restarts
        rw [hphase] at hlive hrestarts
        refine ⟨fun id' hrun => ?_, fun _ id' hid' hrun => ?_, fun id' hsubject hid' => ?_, fun id' hknown => ?_,
          h.spaced, h.last,
          h.clock, h.elapsed, hrestarts⟩
        · rcases running_set hrun with ⟨_, hnew⟩ | hold
          · cases hnew
          · rcases hlive id' hold with hid | hid
            · exact .inl hid
            · cases hid
        · rcases running_set hrun with ⟨_, hnew⟩ | hold
          · cases hnew
          · exact hdown id' hid' hold
        · cases hsubject
          exact h.known _ (.inl hid') hfresh
        · simp only [Dict.get?_set]
          split
          · exact Option.some_ne_none _
          · rename_i hne
            rcases hknown with hid | hid
            · exact h.known id' (.inl hid)
            · exact absurd (Option.some.inj hid) hne
  · cases hstep

theorem known_set {processes : Dict Nat Process} {id id' : Nat} (p : Process) (h : processes.get? id' ≠ none) :
    (processes.set id p).get? id' ≠ none := by
  rw [Dict.get?_set]
  split
  · exact Option.some_ne_none p
  · exact h

theorem inv_start (h : Inv backoff s) {launch : Launch} (hstep : State.start launch s = some t) : Inv backoff t := by
  unfold State.start at hstep
  split at hstep
  · rename_i id hphase
    have hother := h.other id (by rw [hphase]; rfl)
    have hdown := h.down (by rw [hphase]; rfl)
    have hlive := h.live
    have hrestarts := h.restarts
    rw [hphase] at hlive hrestarts
    split at hstep
    · rename_i p hp
      cases hstep
      have hcold : p.isRunning = false := by
        by_contra hrun
        rcases hlive id ⟨p, hp, by simpa using hrun⟩ with hid | hid
        · exact hother hid
        · cases hid
      have hold : ∀ id', State.running {s with processes := s.processes} id' → s.current = some id' := by
        intro id' hrun
        rcases hlive id' hrun with hid | hid
        · exact hid
        · cases hid
      have hkeep : ∀ id', s.current = some id' →
          ¬State.running {s with processes := s.processes.set id (p.start launch)} id' := by
        intro id' hid' hrun
        rcases running_set hrun with ⟨hid, _⟩ | hrun'
        · exact hother (hid ▸ hid')
        · exact hdown id' hid' hrun'
      refine ⟨fun id' hrun => ?_, fun _ => hkeep, fun id' hsubject => ?_, fun id' hknown => known_set _ ?_, h.spaced,
        h.last, h.clock,
        h.elapsed, ?_⟩
      · rcases running_set hrun with ⟨hid, hup⟩ | hrun'
        · subst hid
          have hnot : launch ≠ .threadFails := by
            intro hfails
            subst hfails
            simp only [Process.start, hcold] at hup
            split at hup
            · rw [hcold] at hup
              cases hup
            · cases hup
          exact .inr (by simp only [if_neg hnot])
        · exact .inl (hold id' hrun')
      · simp only at hsubject
        split at hsubject
        · cases hsubject
        · cases hsubject
          exact hother
      · rcases hknown with hid | hid
        · exact h.known id' (.inl hid)
        · simp only at hid
          split at hid
          · cases hid
          · cases hid
            rw [hp]
            exact Option.some_ne_none p
      · simp only [Phase.attempting, if_true] at hrestarts
        simp only
        split
        · exact (Nat.add_le_add_left (Nat.zero_le _) _).trans hrestarts
        · exact hrestarts
    · cases hstep
  · cases hstep

theorem inv_confirm (h : Inv backoff s) (hstep : State.confirm s = some t) : Inv backoff t := by
  unfold State.confirm at hstep
  split at hstep
  · rename_i id hphase
    have hdown := h.down (by rw [hphase]; rfl)
    have hlive := h.live
    have hrestarts := h.restarts
    rw [hphase] at hlive hrestarts
    split at hstep
    · rename_i p hp
      split at hstep
      · rename_i hup
        cases hstep
        refine ⟨fun id' hrun => ?_, fun hattempt => ?_, fun id' hsubject => ?_, fun id' hknown => ?_, h.spaced,
          h.last, h.clock,
          h.elapsed, hrestarts⟩
        · rcases hlive id' hrun with hid | hid
          · exact absurd hrun (hdown id' hid)
          · cases hid
            exact .inl rfl
        · cases hattempt
        · cases hsubject
        · rcases hknown with hid | hid
          · cases hid
            change s.processes.get? id ≠ none
            rw [hp]
            exact Option.some_ne_none p
          · cases hid
      · rename_i hcold
        cases hstep
        refine inv_giveUp h fun id' hid' hrun => ?_
        rw [hphase] at hid'
        cases hid'
        obtain ⟨p', hp', hup⟩ := hrun
        cases hp.symm.trans hp'
        exact hcold hup
    · cases hstep
  · cases hstep

theorem inv_ends (h : Inv backoff s) {id : Nat} (hstep : State.ends id s = some t) : Inv backoff t := by
  unfold State.ends at hstep
  split at hstep
  · rename_i p hp
    split at hstep
    · cases hstep
      have hless : ∀ id',
          State.running {s with processes := s.processes.set id {p with alive := some false}} id' → s.running id' := by
        intro id' hrun
        rcases running_set hrun with ⟨_, hup⟩ | hrun'
        · cases hup
        · exact hrun'
      exact ⟨fun id' hrun => h.live id' (hless id' hrun),
        fun hattempt id' hid' hrun => h.down hattempt id' hid' (hless id' hrun),
        h.other, fun id' hknown => known_set _ (h.known id' hknown), h.spaced, h.last, h.clock, h.elapsed, h.restarts⟩
    · cases hstep
  · cases hstep

end Steps

section Runs
variable {seconds : ℚ} {s : State}

theorem inv_step {e : Event} {t : State} (h : Inv (restartBackoff seconds) s)
    (hstep : (guard seconds).step e s = some t) :
    Inv (restartBackoff seconds) t := by
  cases e with
  | wait now => exact inv_wait h hstep
  | check => exact inv_check h hstep
  | build result => exact inv_build h hstep
  | start launch => exact inv_start h hstep
  | confirm => exact inv_confirm h hstep
  | ends id => exact inv_ends h hstep

theorem inv_reachable {C : Event → State → Prop} (h : (guard seconds).Reachable C s) : Inv (restartBackoff seconds) s :=
  Transition.System.reachable_invariant (fun _ => inv_init) (fun _ _ _ hs _ hstep => inv_step hs hstep) h

/-- **No two exporter threads are alive at once**, and between two checks the one that is alive
is the current exporter's; the attempts to start another are a backoff apart, and since the
clock started no more of them, successful or not, than it leaves room for. -/
theorem one_exporter (h : (guard seconds).Reachable Transition.anything s) :
    (∀ id id', s.running id → s.running id' → id = id') ∧ (s.phase = .idle → ∀ id, s.running id → s.current = some id) ∧
    s.attempts.Pairwise (fun later earlier => earlier + restartBackoff seconds ≤ later) ∧
    s.restartCount ≤ s.attempts.length ∧ s.attempts.length * restartBackoff seconds ≤ s.clock := by
  have hs := inv_reachable h
  refine ⟨fun id id' hrun hrun' => ?_, fun hidle id hrun => ?_, hs.spaced, (Nat.le_add_right _ _).trans hs.restarts,
    hs.elapsed.trans hs.clock⟩
  · rcases hs.live id hrun with hid | hid
    · rcases hs.live id' hrun' with hid' | hid'
      · exact Option.some.inj (hid.symm.trans hid')
      · exact absurd hrun (hs.down (by rw [hid']; rfl) id hid)
    · rcases hs.live id' hrun' with hid' | hid'
      · exact absurd hrun' (hs.down (by rw [hid]; rfl) id' hid')
      · cases hid.symm.trans hid'
        rfl
  · rcases hs.live id hrun with hid | hid
    · exact hid
    · rw [hidle] at hid
      cases hid

end Runs

/-- The first exporter's thread ends, and the guard replaces it. -/
theorem one_exporter_replaced :
    ∃ s, (guard 180).run ⟨Dict.empty.set 0 ⟨true, some true⟩, some 0, 0, 0, 0, .idle, []⟩
        [.ends 0, .wait 200, .check, .build (.exporter 1 true), .start .up, .confirm] = some s ∧
      s.restartCount = 1 ∧ s.attempts.length * restartBackoff 180 ≤ s.clock := by
  have hrun : ((guard 180).run ⟨Dict.empty.set 0 ⟨true, some true⟩, some 0, 0, 0, 0, .idle, []⟩
      [.ends 0, .wait 200, .check, .build (.exporter 1 true), .start .up, .confirm]).map State.restartCount =
        some 1 := by
    decide +kernel
  obtain ⟨s, hs, hone⟩ := Option.map_eq_some_iff.mp hrun
  have hinit : (guard 180).init ⟨Dict.empty.set 0 ⟨true, some true⟩, some 0, 0, 0, 0, .idle, []⟩ := by
    refine ⟨rfl, rfl, rfl, le_refl _, rfl, fun id => ?_⟩
    by_cases hid : 0 = id <;> simp [Dict.get?_set, hid]
  exact ⟨s, hs, hone, (one_exporter (Transition.System.run_reachable hinit hs)).2.2.2.2⟩

end SynQc.Metrics.Guard
