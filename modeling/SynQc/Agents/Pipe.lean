import SynQc.Agents.Stranding

/-! The agent's process and the worker that waits for it.

The process puts its result on a queue, which is a pipe of finite capacity; it exits once a
feeder has written the pickled item into the pipe. The worker reads the pipe only after it
has waited for the exit. So an item that does not fit is never read: the process waits for
the worker, the worker for the process, until the timeout. Where the process has done by the
timeout all it can do, how the run ends is decided by the size of the item alone
(`finished`), and the job succeeds exactly if the item fits and the result can be stored
(`succeeds_iff`). -/
namespace SynQc.Agents.Pipe
open Transition

/-! ### Two processes and a pipe -/

/-- What is given as the process is started: the job taken, what the agent will return, and what
`multiprocessing` makes of it. -/
structure Setup where
  seat : Seat
  clock : Clock
  id : JobId
  redis : Redis
  output : AgentRunOutput
  /-- The size of a pickled value, or nothing where pickling raises. -/
  pickle : PyValue → Option Nat
  capacity : Nat

/-- What `_run_agent_in_subprocess` puts on the queue. -/
def Setup.payload (c : Setup) : PyValue :=
  .dict [(.str ⟨"ok", false⟩, .bool true), (.str ⟨"result", false⟩, c.output.modelDump)]

/-- A message on the pipe has its length in front. -/
def framed (n : Nat) : Nat := n + if n ≤ 0x7fffffff then 4 else 12

/-- The bytes the feeder writes. It drops what cannot be pickled. -/
def Setup.item (c : Setup) : Nat := (c.pickle c.payload).elim 0 framed

inductive Child where
  | running
  /-- The agent has returned; the feeder has some bytes left to write. -/
  | flushing (left : Nat)
  | exited
  | terminated
  deriving DecidableEq

inductive Parent where
  /-- In `p.join(timeout=job_timeout_seconds)`. -/
  | joining
  | joined
  /-- `process_one` is over: how, and what it left. -/
  | done (how : Except Stopped Unit) (redis : Redis)

structure State where
  child : Child := .running
  pipe : Nat := 0
  expired : Bool := false
  parent : Parent := .joining

inductive Event where
  | returns
  | write (bytes : Nat)
  | exit
  | expire
  | joinReturns
  | finish

/-- What the worker makes of the process after the join: terminate it, find the queue empty, or
get the item. -/
def outcomeAfterJoin (c : Setup) (s : State) : AgentOutcome :=
  if s.child ≠ .exited then .timedOut
  else if s.pipe = 0 then .silent
  else .ok c.output

def step (c : Setup) : Event → State → Option State
  | .returns, s => if s.child = .running then some {s with child := .flushing c.item} else none
  | .write bytes, s =>
    match s.child with
    | .flushing left =>
      if 0 < bytes ∧ bytes ≤ left ∧ s.pipe + bytes ≤ c.capacity then
        some {s with child := .flushing (left - bytes), pipe := s.pipe + bytes}
      else none
    | _ => none
  | .exit, s => if s.child = .flushing 0 then some {s with child := .exited} else none
  | .expire, s =>
    match s.parent with
    | .joining => if s.expired then none else some {s with expired := true}
    | _ => none
  | .joinReturns, s =>
    match s.parent with
    | .joining => if s.expired ∨ s.child = .exited then some {s with parent := .joined} else none
    | _ => none
  | .finish, s =>
    match s.parent with
    | .joined =>
      let (how, redis) := (processOne c.seat c.clock c.id (outcomeAfterJoin c s)).exec c.redis
      some {s with
        child := if s.child = .exited then .exited else .terminated
        parent := .done how redis}
    | _ => none

def system (c : Setup) : System State Event where
  init s := s = {}
  step := step c

/-- The agent returns before the timeout. -/
def Returned : Event → State → Prop
  | .expire, s => s.child ≠ .running
  | _, _ => True

/-- The process has exited, or waits on a full pipe. -/
def Stuck (c : Setup) (s : State) : Prop :=
  s.child = .exited ∨ ∃ left, s.child = .flushing left ∧ 0 < left ∧ s.pipe = c.capacity

/-- By the timeout the process has done all it can. -/
def Prompt (c : Setup) : Event → State → Prop
  | .expire, s => Stuck c s
  | _, _ => True

/-- Every run under a rule comes to an end, and what it leaves has a property. -/
structure Ends (c : Setup) (C : Event → State → Prop) (P : Except Stopped Unit → Redis → Prop) : Prop where
  bounded : ∃ bound, ∀ es s, (system c).Trace C {} es s → es.length ≤ bound
  progress : ∀ s, (system c).Reachable C s → (∀ how redis, s.parent ≠ .done how redis) → ∃ t, (system c).Next C s t
  left : ∀ s how redis, (system c).Reachable C s → s.parent = .done how redis → P how redis

/-- The job is `succeeded`, with the output as its result. -/
def Succeeded (c : Setup) (how : Except Stopped Unit) (redis : Redis) : Prop :=
  how = .ok () ∧ ∃ h text, redis.jobs.get? c.id = some h ∧ h.status = .succeeded ∧ h.result = some text ∧
    c.output.modelDump.dumps.bind PyStr.encode = some text

section
variable {c : Setup} {e : Event} {s t : State}

/-- What each event needs, and what it changes. -/
inductive Stepped (c : Setup) (s : State) : Event → State → Prop where
  | returns (child : s.child = .running) : Stepped c s .returns {s with child := .flushing c.item}
  | write {bytes left : Nat} (child : s.child = .flushing left) (pos : 0 < bytes) (le : bytes ≤ left)
      (room : s.pipe + bytes ≤ c.capacity) :
      Stepped c s (.write bytes) {s with child := .flushing (left - bytes), pipe := s.pipe + bytes}
  | exit (child : s.child = .flushing 0) : Stepped c s .exit {s with child := .exited}
  | expire (parent : s.parent = .joining) (expired : s.expired = false) : Stepped c s .expire {s with expired := true}
  | joinReturns (parent : s.parent = .joining) (ready : s.expired = true ∨ s.child = .exited) :
      Stepped c s .joinReturns {s with parent := .joined}
  | finish (parent : s.parent = .joined) {how : Except Stopped Unit} {redis : Redis}
      (left : (processOne c.seat c.clock c.id (outcomeAfterJoin c s)).exec c.redis = (how, redis)) :
      Stepped c s .finish {s with
        child := if s.child = .exited then .exited else .terminated
        parent := .done how redis}

theorem stepped (h : step c e s = some t) : Stepped c s e t := by
  cases e with
  | returns =>
    obtain ⟨hchild, heq⟩ := Option.ite_none_right_eq_some.mp h
    cases heq
    exact .returns hchild
  | write bytes =>
    simp only [step] at h
    split at h
    · next left hchild =>
      obtain ⟨⟨hpos, hle, hroom⟩, heq⟩ := Option.ite_none_right_eq_some.mp h
      cases heq
      exact .write hchild hpos hle hroom
    · cases h
  | exit =>
    obtain ⟨hchild, heq⟩ := Option.ite_none_right_eq_some.mp h
    cases heq
    exact .exit hchild
  | expire =>
    simp only [step] at h
    split at h
    · next hparent =>
      split at h
      · cases h
      · next hexpired =>
        cases h
        exact .expire hparent (by simpa using hexpired)
    · cases h
  | joinReturns =>
    simp only [step] at h
    split at h
    · next hparent =>
      obtain ⟨hover, heq⟩ := Option.ite_none_right_eq_some.mp h
      cases heq
      exact .joinReturns hparent hover
    · cases h
  | finish =>
    simp only [step] at h
    split at h
    · next hparent =>
      cases h
      exact .finish hparent rfl
    · cases h

/-! ### Every run ends -/

def Child.rank (item : Nat) : Child → Nat
  | .running => item + 2
  | .flushing left => left + 1
  | .exited | .terminated => 0

def Parent.rank : Parent → Nat
  | .joining => 2
  | .joined => 1
  | .done .. => 0

/-- What is left to do. -/
def measure (c : Setup) (s : State) : Nat := s.child.rank c.item + (if s.expired then 0 else 1) + s.parent.rank

theorem measure_step (h : step c e s = some t) : measure c t < measure c s := by
  cases stepped h with
  | returns hchild =>
    simp only [measure, hchild, Child.rank]
    omega
  | write hchild hpos hle _ =>
    simp only [measure, hchild, Child.rank]
    omega
  | exit hchild =>
    simp only [measure, hchild, Child.rank]
    omega
  | expire _ hexpired => simp [measure, hexpired]
  | joinReturns hparent _ => simp [measure, hparent, Parent.rank]
  | finish hparent _ =>
    have hchild : (if s.child = .exited then Child.exited else .terminated).rank c.item = 0 := by
      split <;> rfl
    simp only [measure, hchild, hparent, Parent.rank]
    omega

theorem bounded {C : Event → State → Prop} {es : List Event} (h : (system c).Trace C {} es s) : es.length ≤ c.item + 5 :=
  h.length_le (measure c) fun _ _ _ _ hstep => measure_step hstep

/-! ### How a run ends -/

/-- What the size of the item makes of the run. -/
def finished (c : Setup) : AgentOutcome :=
  match c.pickle c.payload with
  | none => .silent
  | some n => if framed n ≤ c.capacity then .ok c.output else .timedOut

/-- What is in the pipe is what the feeder has written. -/
def Flushed (c : Setup) (pipe : Nat) : Child → Prop
  | .running => pipe = 0
  | .flushing left => pipe + left = c.item
  | .exited => pipe = c.item
  | .terminated => True

structure Sound (c : Setup) (s : State) : Prop where
  flushed : Flushed c s.pipe s.child
  pipe : s.pipe ≤ c.capacity
  expired : s.expired = true → (∀ how redis, s.parent ≠ .done how redis) → Stuck c s
  joined : s.parent = .joined → s.expired = true ∨ s.child = .exited
  terminated : s.child = .terminated → ∃ how redis, s.parent = .done how redis
  done : ∀ how redis, s.parent = .done how redis →
    (processOne c.seat c.clock c.id (finished c)).exec c.redis = (how, redis)

theorem Stuck.not_running (h : Stuck c s) : s.child ≠ .running := by
  intro hrunning
  rcases h with hexited | ⟨left, hflushing, -⟩
  · rw [hrunning] at hexited
    cases hexited
  · rw [hrunning] at hflushing
    cases hflushing

/-- A process with bytes to write is stuck only on a full pipe. -/
theorem Stuck.full (h : Stuck c s) {left : Nat} (hchild : s.child = .flushing left) : s.pipe = c.capacity := by
  rcases h with hexited | ⟨_, -, -, hfull⟩
  · rw [hchild] at hexited
    cases hexited
  · exact hfull

/-- A join that returned before the process had exited is over by the timeout. -/
theorem Sound.late (h : Sound c s) (hparent : s.parent = .joined) (hchild : s.child ≠ .exited) : s.expired = true :=
  (h.joined hparent).resolve_right hchild

theorem framed_pos (n : Nat) : 0 < framed n := by
  unfold framed
  split <;> omega

/-- After the join, the worker finds what the size of the item makes of it. -/
theorem outcomeAfterJoin_eq (h : Sound c s) (hparent : s.parent = .joined) : outcomeAfterJoin c s = finished c := by
  have hstuck : Stuck c s := by
    rcases h.joined hparent with hexpired | hexited
    · exact h.expired hexpired fun how redis heq => by rw [hparent] at heq; cases heq
    · exact .inl hexited
  have hflushed := h.flushed
  have hpipe := h.pipe
  rcases hstuck with hexited | ⟨left, hchild, hleft, hfull⟩
  · rw [hexited, Flushed, Setup.item] at hflushed
    rw [outcomeAfterJoin, if_neg (not_not_intro hexited), finished]
    cases hpickle : c.pickle c.payload with
    | none =>
      rw [hpickle] at hflushed
      exact if_pos hflushed
    | some n =>
      rw [hpickle, Option.elim_some] at hflushed
      have hpos := framed_pos n
      show (if s.pipe = 0 then _ else _) = if framed n ≤ c.capacity then _ else _
      rw [if_neg (by omega), if_pos (by omega)]
  · rw [hchild, Flushed, Setup.item] at hflushed
    rw [outcomeAfterJoin, if_pos (by rw [hchild]; exact fun heq => by cases heq), finished]
    cases hpickle : c.pickle c.payload with
    | none =>
      rw [hpickle, Option.elim_none] at hflushed
      omega
    | some n =>
      rw [hpickle, Option.elim_some] at hflushed
      exact (if_neg (by omega)).symm

theorem sound_init (c : Setup) : Sound c {} where
  flushed := rfl
  pipe := Nat.zero_le _
  expired h := by cases h
  joined h := by cases h
  terminated h := by cases h
  done _ _ h := by cases h

/-- The process does not move once it is stuck or terminated, nor the worker once it is done. -/
theorem sound_step (h : Sound c s) (hrule : Prompt c e s) (hstep : step c e s = some t) : Sound c t := by
  have hflushed := h.flushed
  cases stepped hstep with
  | returns hchild =>
    rw [hchild, Flushed] at hflushed
    have hlate := fun hparent => h.late hparent (by rw [hchild]; exact fun heq => by cases heq)
    refine ⟨?_, h.pipe, fun hexpired hlive => ?_, fun hparent => .inl (hlate hparent), fun hchild => (by cases hchild),
      h.done⟩
    · show s.pipe + c.item = c.item
      omega
    · exact absurd hchild (h.expired hexpired hlive).not_running
  | @write bytes left hchild hpos hle hroom =>
    rw [hchild, Flushed] at hflushed
    have hlate := fun hparent => h.late hparent (by rw [hchild]; exact fun heq => by cases heq)
    refine ⟨?_, hroom, fun hexpired hlive => ?_, fun hparent => .inl (hlate hparent), fun hchild => (by cases hchild),
      h.done⟩
    · show s.pipe + bytes + (left - bytes) = c.item
      omega
    · have hfull := (h.expired hexpired hlive).full hchild
      omega
  | exit hchild =>
    rw [hchild, Flushed] at hflushed
    exact ⟨hflushed, h.pipe, fun _ _ => .inl rfl, fun hparent => .inr rfl, fun hchild => (by cases hchild), h.done⟩
  | expire hparent hexpired =>
    refine ⟨h.flushed, h.pipe, fun _ _ => hrule, fun hjoined => .inl rfl, h.terminated, h.done⟩
  | joinReturns hparent hover =>
    have hlive : ∀ how redis, s.parent ≠ .done how redis := fun how redis heq => by
      rw [hparent] at heq
      cases heq
    refine ⟨h.flushed, h.pipe, fun hexpired _ => h.expired hexpired hlive, fun _ => hover, fun hchild => ?_, ?_⟩
    · obtain ⟨how, redis, heq⟩ := h.terminated hchild
      exact absurd heq (hlive how redis)
    · exact fun how redis heq => by cases heq
  | @finish hparent how redis hleft =>
    rw [outcomeAfterJoin_eq h hparent] at hleft
    refine ⟨?_, h.pipe, fun _ hlive => absurd rfl (hlive how redis), fun hjoined => (by cases hjoined),
      fun _ => ⟨how, redis, rfl⟩, ?_⟩
    · show Flushed c s.pipe (if s.child = .exited then .exited else .terminated)
      split
      · next hexited =>
        rw [hexited, Flushed] at hflushed
        exact hflushed
      · exact trivial
    · intro how' redis' heq
      cases heq
      exact hleft

theorem sound_reachable (h : (system c).Reachable (Prompt c) s) : Sound c s := by
  refine System.reachable_invariant ?_ ?_ h
  · rintro s rfl
    exact sound_init c
  · exact fun e s t hsound hrule hstep => sound_step hsound hrule hstep

theorem joinReturns_step (c : Setup) (hparent : s.parent = .joining) (hover : s.expired = true ∨ s.child = .exited) :
    step c .joinReturns s = some {s with parent := .joined} := by simp only [step, hparent, if_pos hover]

/-- Until the worker is done, the process or the worker can go on. -/
theorem progress (h : Sound c s) (hlive : ∀ how redis, s.parent ≠ .done how redis) :
    ∃ t, (system c).Next (Prompt c) s t := by
  obtain ⟨child, pipe, expired, parent⟩ := s
  have hexpired := h.expired
  have hpipe := h.pipe
  cases parent with
  | done how redis => exact absurd rfl (hlive how redis)
  | joined => exact ⟨_, .finish, trivial, rfl⟩
  | joining =>
    -- with the join still on, the process moves if it can, and the timeout comes if not
    have hstuck : Stuck c ⟨child, pipe, expired, .joining⟩ →
        ∃ t, (system c).Next (Prompt c) ⟨child, pipe, expired, .joining⟩ t := by
      intro hstuck
      cases expired with
      | false => exact ⟨_, .expire, hstuck, rfl⟩
      | true => exact ⟨_, .joinReturns, trivial, joinReturns_step c (s := ⟨child, pipe, true, .joining⟩) rfl (.inl rfl)⟩
    cases child with
    | running => exact ⟨_, .returns, trivial, rfl⟩
    | exited => exact hstuck (.inl rfl)
    | terminated =>
      obtain ⟨how, redis, heq⟩ := h.terminated rfl
      cases heq
    | flushing left =>
      by_cases hleft : left = 0
      · subst hleft
        exact ⟨_, .exit, trivial, rfl⟩
      · by_cases hroom : pipe + 1 ≤ c.capacity
        · exact ⟨_, .write 1, trivial, if_pos ⟨Nat.one_pos, by omega, hroom⟩⟩
        · exact hstuck (.inr ⟨left, rfl, by omega, by simp only at hpipe ⊢; omega⟩)

/-- **A run whose process has done by the timeout all it can ends as the size of its item has
it.** -/
theorem ends_finished (c : Setup) : Ends c (Prompt c) fun how redis =>
    (processOne c.seat c.clock c.id (finished c)).exec c.redis = (how, redis) where
  bounded := ⟨_, fun _ _ h => bounded h⟩
  progress _ h hlive := progress (sound_reachable h) hlive
  left _ how redis h hdone := (sound_reachable h).done how redis hdone

/-- A run under the rule gets to its end. -/
theorem exists_done (c : Setup) : ∃ s how redis, (system c).Reachable (Prompt c) s ∧ s.parent = .done how redis := by
  obtain ⟨s, hleads, hfinal⟩ := System.exists_final (S := system c) (C := Prompt c) (measure c)
    (fun _ _ _ _ hstep => measure_step hstep) {}
  by_cases hdone : ∃ how redis, s.parent = .done how redis
  · obtain ⟨how, redis, hdone⟩ := hdone
    exact ⟨s, how, redis, ⟨{}, rfl, hleads⟩, hdone⟩
  · refine absurd (progress (sound_reachable ⟨{}, rfl, hleads⟩) ?_) hfinal
    exact fun how redis heq => hdone ⟨how, redis, heq⟩

/-! ### Success -/

/-- The item can be pickled, and fits into the pipe. -/
def Fits (c : Setup) : Prop := ∃ n, c.pickle c.payload = some n ∧ framed n ≤ c.capacity

theorem finished_of_fits (h : Fits c) : finished c = .ok c.output := by
  obtain ⟨n, hpickle, hle⟩ := h
  simp only [finished, hpickle, if_pos hle]

theorem finished_of_not_fits (h : ¬Fits c) : finished c = .silent ∨ finished c = .timedOut := by
  cases hpickle : c.pickle c.payload with
  | none => simp only [finished, hpickle, true_or]
  | some n =>
    have hlarge : ¬framed n ≤ c.capacity := fun hle => h ⟨n, hpickle, hle⟩
    simp only [finished, hpickle, if_neg hlarge, or_true]

section
variable {job : JobHash}

/-- The job as the last two writes of a run leave it. -/
theorem get?_written (hget : c.redis.jobs.get? c.id = some job) (first last : JobHash → JobHash) :
    (((afterCount c.clock c.id c.redis).hset c.id first).hset c.id last).jobs.get? c.id =
      some (last (first {job with
        status := .running
        startedAt := some c.clock.started
        attempts := job.attempts + 1})) := by
  rw [Redis.get?_hset, if_pos rfl, Redis.get?_hset, if_pos rfl, afterCount_get hget]
  rfl

theorem succeeded_of_plain (hget : c.redis.jobs.get? c.id = some job) (hplain : c.output.modelDump.plain = true) {how redis}
    (hexec : (settleRun c.seat c.clock c.id job (job.attempts + 1) (.ok c.output)).exec (afterCount c.clock c.id c.redis) =
      (how, redis)) : Succeeded c how redis := by
  obtain ⟨text, htext⟩ := (stored_iff c.output.modelDump).mpr hplain
  simp only [settleRun, setResult, htext] at hexec
  cases hexec
  exact ⟨rfl, _, text, get?_written hget _ _, rfl, rfl, htext⟩

theorem not_succeeded_of_refused (hrefused : ¬c.output.modelDump.plain = true) {how redis}
    (hexec : (settleRun c.seat c.clock c.id job (job.attempts + 1) (.ok c.output)).exec (afterCount c.clock c.id c.redis) =
      (how, redis)) : ¬Succeeded c how redis := by
  simp only [settleRun, exec_bind, setResult_raises hrefused] at hexec
  cases hexec
  exact fun hsucceeded => by cases hsucceeded.1

theorem not_succeeded_of_failed (hget : c.redis.jobs.get? c.id = some job) {outcome : AgentOutcome}
    (houtcome : outcome = .silent ∨ outcome = .timedOut) {how redis}
    (hexec : (settleRun c.seat c.clock c.id job (job.attempts + 1) outcome).exec (afterCount c.clock c.id c.redis) =
      (how, redis)) : ¬Succeeded c how redis := by
  rintro ⟨-, h, text, hjob, hstatus, -⟩
  -- both ends write an error and the status
  rcases houtcome with rfl | rfl
  all_goals
    simp only [settleRun, exec_bind, setError_exec, updateStatus_exec] at hexec
    cases hexec
    cases (get?_written hget _ _).symm.trans hjob
    cases hstatus

/-- **If the process has done by the timeout all it can, every run ends with the job succeeded and
the output stored exactly when the item can be pickled, fits into the pipe, and the output can
be stored.** -/
theorem succeeds_iff (c : Setup) (hget : c.redis.jobs.get? c.id = some job) (hlive : job.cancelRequested = false) :
    Ends c (Prompt c) (Succeeded c) ↔ Fits c ∧ c.output.modelDump.plain = true := by
  have hrun : ∀ {how redis}, (processOne c.seat c.clock c.id (finished c)).exec c.redis = (how, redis) →
      (settleRun c.seat c.clock c.id job (job.attempts + 1) (finished c)).exec (afterCount c.clock c.id c.redis) =
        (how, redis) := by
    intro how redis h
    rwa [processOne_exec hget, if_neg (by rw [hlive]; exact Bool.false_ne_true)] at h
  have hends := ends_finished c
  constructor
  · intro h
    obtain ⟨s, how, redis, hreachable, hdone⟩ := exists_done c
    have hsucceeded := h.left s how redis hreachable hdone
    have hexec := hrun (hends.left s how redis hreachable hdone)
    have hfits : Fits c := by
      by_contra hfits
      exact not_succeeded_of_failed hget (finished_of_not_fits hfits) hexec hsucceeded
    rw [finished_of_fits hfits] at hexec
    refine ⟨hfits, ?_⟩
    by_contra hrefused
    exact not_succeeded_of_refused hrefused hexec hsucceeded
  · rintro ⟨hfits, hplain⟩
    refine ⟨hends.bounded, hends.progress, fun s how redis hreachable hdone => ?_⟩
    have hexec := hrun (hends.left s how redis hreachable hdone)
    rw [finished_of_fits hfits] at hexec
    exact succeeded_of_plain hget hplain hexec

end

def sampleJob : JobHash := { agent := "echo", createdAt := 0, runInput := "\x7b\x7d" }

/-- A pickled item of some size, and a pipe of 64 KiB. -/
def sample (itemSize : Nat) : Setup where
  seat := ⟨"default", 60⟩
  clock := ⟨1, 2, 2⟩
  id := 7
  redis := {jobs := Dict.empty.set 7 sampleJob}
  output := {agent := ⟨"echo", false⟩}
  pickle _ := some itemSize
  capacity := 65536

theorem sample_job (itemSize : Nat) : (sample itemSize).redis.jobs.get? (sample itemSize).id = some sampleJob := rfl

theorem succeeds_small : Ends (sample 1000) (Prompt (sample 1000)) (Succeeded (sample 1000)) :=
  (succeeds_iff (sample 1000) (sample_job 1000) rfl).mpr ⟨⟨1000, rfl, by decide⟩, rfl⟩

theorem returned_of_prompt (e : Event) (s : State) (h : Prompt c e s) : Returned e s := by
  cases e with
  | expire => exact h.not_running
  | returns | write | exit | joinReturns | finish => exact trivial

/-- An item of 100000 bytes: the agent has returned, the pipe is full, and at the timeout the job
fails. -/
theorem fails_large : ¬∀ (c : Setup) (job : JobHash), c.redis.jobs.get? c.id = some job → job.cancelRequested = false →
    Ends c Returned (Succeeded c) := by
  intro hclaim
  have hends := hclaim (sample 100000) sampleJob (sample_job _) rfl
  have hlarge : ¬Fits (sample 100000) := by
    rintro ⟨n, hpickle, hle⟩
    cases hpickle
    exact absurd hle (by decide)
  obtain ⟨s, how, redis, hreachable, hdone⟩ := exists_done (sample 100000)
  have hsucceeded := hends.left s how redis (hreachable.weaken returned_of_prompt) hdone
  have hexec := (ends_finished (sample 100000)).left s how redis hreachable hdone
  rw [processOne_exec (sample_job _)] at hexec
  exact not_succeeded_of_failed (sample_job _) (finished_of_not_fits hlarge) hexec hsucceeded

end

end SynQc.Agents.Pipe
