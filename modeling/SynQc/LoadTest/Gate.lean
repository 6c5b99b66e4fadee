import Mathlib.Data.List.Dedup
import SynQc.Library.Dict
import SynQc.Library.Transition
import SynQc.LoadTest.ParseMetric

/-! The load test as a gate: `_gather_runs` and `_summarize`.

Runs are submitted by tasks that share a semaphore, and then polled in rounds until each has ended or the
time is over; a request that raises ends the script. What is summarized is not the runs but a dictionary of
their last statuses, which forgets a run id that was given twice. Yet a strict test passes exactly if as
many different runs as asked for were submitted and each was last seen succeeded, and health and metrics
show nothing wrong (`passes_iff`). -/
namespace SynQc.LoadTest
open Transition

/-! ### The script -/

structure Args where
  runs : Nat
  concurrency : Nat
  strict : Bool := true

/-- What the summary reads of `/health`. -/
structure Health where
  queued : Option Int := none
  running : Option Int := none
  backend : Option String := none
  redisConnected : Option Bool := none
  deriving DecidableEq

inductive Phase where
  | submitting
  /-- Before a round, or before the end. -/
  | sleeping
  /-- In a round, with the runs still to poll. -/
  | polling (todo : List String)
  /-- Out of time. -/
  | late
  /-- With the metrics and the health after the runs; a snapshot that failed is empty or none. -/
  | gathered (metricsAfter : String) (health : Option Health)
  | raised
  deriving DecidableEq

structure State where
  /-- Tasks at the semaphore. -/
  waiting : Nat
  inFlight : Nat := 0
  runIds : List String := []
  remaining : List String := []
  statuses : Dict String String := Dict.empty
  /-- All replies to polls, newest first. -/
  replies : List (String × String) := []
  phase : Phase := .submitting

inductive Event where
  | acquire
  | submitted (runId : String)
  | submissionsDone
  | round (todo : List String)
  | polled (status : String)
  | roundDone (timeOver : Bool)
  | snapshots (metricsAfter : String) (health : Option Health)
  /-- A submission or a poll raises. -/
  | raises

/-- `{"succeeded", "failed"}` -/
def ended (status : String) : Bool := status ∈ ["succeeded", "failed"]

def step (args : Args) (e : Event) (s : State) : Option State :=
  match e with
  | .acquire =>
    if s.phase = .submitting ∧ 0 < s.waiting ∧ s.inFlight < args.concurrency then
      some {s with waiting := s.waiting - 1, inFlight := s.inFlight + 1}
    else none
  | .submitted runId =>
    if s.phase = .submitting ∧ 0 < s.inFlight then
      some {s with inFlight := s.inFlight - 1, runIds := s.runIds ++ [runId]}
    else none
  | .submissionsDone =>
    if s.phase = .submitting ∧ s.waiting = 0 ∧ s.inFlight = 0 then
      some {s with remaining := s.runIds.dedup, phase := .sleeping}
    else none
  | .round todo =>
    if s.phase = .sleeping ∧ s.remaining ≠ [] ∧ todo.Perm s.remaining then
      some {s with phase := .polling todo}
    else none
  | .polled status =>
    match s.phase with
    | .polling (runId :: todo) =>
      some {s with
        statuses := s.statuses.set runId status
        remaining := if ended status then s.remaining.erase runId else s.remaining
        replies := (runId, status) :: s.replies
        phase := .polling todo}
    | _ => none
  | .roundDone timeOver =>
    if s.phase = .polling [] then some {s with phase := if timeOver then .late else .sleeping} else none
  | .snapshots metricsAfter health =>
    if s.phase = .late ∨ s.phase = .sleeping ∧ s.remaining = [] then
      some {s with phase := .gathered metricsAfter health}
    else none
  | .raises =>
    match s.phase with
    | .submitting => if 0 < s.inFlight then some {s with phase := .raised} else none
    | .polling (_ :: _) => some {s with phase := .raised}
    | _ => none

def script (args : Args) : System State Event where
  init s := s = { waiting := args.runs }
  step := step args

/-! ### The summary -/

inductive Issue where
  | healthUnreachable
  | queueNotDrained (queued : Int)
  | workersRunning (running : Int)
  | redisDisconnected
  | metricsUnreachable
  | queueDepth (depth : ℚ)
  | redisMetric
  | runsFailed (runIds : List String)
  | unfinished (finished expected : Nat)
  deriving DecidableEq

/-- `queue.get(name) not in (0, None)` -/
def busy (n : Option Int) (issue : Int → Issue) : List Issue :=
  match n with
  | some n => if n = 0 then [] else [issue n]
  | none => []

def summarizeHealth : Option Health → List Issue
  | none => [.healthUnreachable]
  | some health =>
    busy health.queued .queueNotDrained ++ busy health.running .workersRunning ++
      if health.backend = some "redis" ∧ health.redisConnected = some false then [.redisDisconnected] else []

def summarizeMetrics (u : Unicode) (metricsAfter : String) : List Issue :=
  if metricsAfter = "" then [.metricsUnreachable]
  else
    (match parseMetric u metricsAfter "synqc_queue_jobs_queued" with
      | some depth => if 0 < depth then [.queueDepth depth] else []
      | none => []) ++
    if parseMetric u metricsAfter "synqc_redis_connected" [("backend", "redis")] = some 0 then [.redisMetric] else []

def finished (s : State) : Nat := (s.statuses.values.filter ended).length

def failedRuns (s : State) : List String := (s.statuses.entries.filter fun e => e.2 = "failed").map Prod.fst

def summarizeRuns (args : Args) (s : State) : List Issue :=
  (if failedRuns s ≠ [] then [.runsFailed (failedRuns s)] else []) ++
    if finished s < args.runs then [.unfinished (finished s) args.runs] else []

/-- `_summarize` -/
def passes (u : Unicode) (args : Args) (s : State) (metricsAfter : String) (health : Option Health) : Bool :=
  let issues := summarizeHealth health ++ summarizeMetrics u metricsAfter ++ summarizeRuns args s
  issues.isEmpty || !args.strict

/-! ### What the script keeps -/

/-- The status a run was last seen with. -/
def lastSeen (runId : String) (replies : List (String × String)) : Option String :=
  (replies.find? fun r => r.1 = runId).map Prod.snd

structure Kept (args : Args) (s : State) : Prop where
  slots : s.inFlight ≤ args.concurrency
  tasks : s.waiting + s.inFlight + s.runIds.length = args.runs
  all : s.phase ≠ .submitting → s.phase ≠ .raised → s.waiting = 0 ∧ s.inFlight = 0
  remaining : ∀ id ∈ s.remaining, id ∈ s.runIds
  todo : ∀ todo, s.phase = .polling todo → ∀ id ∈ todo, id ∈ s.runIds
  statuses : ∀ id, s.statuses.get? id = lastSeen id s.replies
  known : ∀ id ∈ s.statuses.keys, id ∈ s.runIds

section Runs
variable {args : Args} {s t : State}

theorem kept_init : Kept args { waiting := args.runs } where
  slots := Nat.zero_le _
  tasks := rfl
  all := fun h => absurd rfl h
  remaining := fun _ h => absurd h List.not_mem_nil
  todo := fun _ h => by cases h
  statuses := fun _ => rfl
  known := fun _ h => absurd h List.not_mem_nil

theorem lastSeen_cons (id runId status : String) (replies : List (String × String)) :
    lastSeen id ((runId, status) :: replies) = if runId = id then some status else lastSeen id replies := by
  rw [lastSeen, List.find?_cons]
  by_cases h : runId = id
  · simp [h]
  · simp [h, lastSeen]

/-- A reply to a poll. -/
theorem kept_polled (h : Kept args s) {runId : String} {todo : List String}
    (hphase : s.phase = .polling (runId :: todo))
    (status : String) : Kept args {s with
      statuses := s.statuses.set runId status
      remaining := if ended status then s.remaining.erase runId else s.remaining
      replies := (runId, status) :: s.replies
      phase := .polling todo} := by
  have htodo := h.todo _ hphase
  refine ⟨h.slots, h.tasks, fun _ _ => h.all (by simp [hphase]) (by simp [hphase]), fun id hid => ?_,
    fun later hlater id hid => ?_,
    fun id => ?_, fun id hid => ?_⟩
  · refine h.remaining id ?_
    dsimp only at hid
    split at hid
    · exact List.mem_of_mem_erase hid
    · exact hid
  · cases hlater
    exact htodo id (List.mem_cons_of_mem _ hid)
  · dsimp only
    rw [Dict.get?_set, lastSeen_cons, h.statuses]
  · obtain ⟨value, hvalue⟩ := Dict.mem_keys.mp hid
    rw [Dict.get?_set] at hvalue
    split at hvalue
    · rename_i heq
      exact heq ▸ htodo runId List.mem_cons_self
    · exact h.known id (Dict.mem_keys.mpr ⟨value, hvalue⟩)

theorem kept_step {e : Event} (h : Kept args s) (he : step args e s = some t) : Kept args t := by
  cases e with
  | acquire =>
    simp only [step] at he
    split at he
    · rename_i hguard
      obtain ⟨hphase, hwaiting, hfree⟩ := hguard
      cases he
      have htasks := h.tasks
      exact ⟨hfree, by dsimp only; omega, fun hne => absurd hphase hne, h.remaining, h.todo, h.statuses, h.known⟩
    · cases he
  | submitted runId =>
    simp only [step] at he
    split at he
    · rename_i hguard
      obtain ⟨hphase, hbusy⟩ := hguard
      cases he
      have htasks := h.tasks
      have hslots := h.slots
      refine ⟨by dsimp only; omega, ?_, fun hne => absurd hphase hne, fun id hid => ?_, fun todo htodo => ?_,
        h.statuses,
        fun id hid => ?_⟩
      · dsimp only
        rw [List.length_append, List.length_singleton]
        omega
      · exact List.mem_append_left _ (h.remaining id hid)
      · cases hphase.symm.trans htodo
      · exact List.mem_append_left _ (h.known id hid)
    · cases he
  | submissionsDone =>
    simp only [step] at he
    split at he
    · rename_i hguard
      cases he
      exact ⟨h.slots, h.tasks, fun _ _ => hguard.2, fun id hid => List.mem_dedup.mp hid,
        fun _ htodo => (by cases htodo), h.statuses,
        h.known⟩
    · cases he
  | round todo =>
    simp only [step] at he
    split at he
    · rename_i hguard
      obtain ⟨hphase, -, hperm⟩ := hguard
      cases he
      refine ⟨h.slots, h.tasks, fun _ _ => h.all (by simp [hphase]) (by simp [hphase]), h.remaining,
        fun later hlater id hid => ?_,
        h.statuses, h.known⟩
      cases hlater
      exact h.remaining id (hperm.mem_iff.mp hid)
    · cases he
  | polled status =>
    simp only [step] at he
    split at he
    · rename_i hphase
      cases he
      exact kept_polled h hphase status
    · cases he
  | roundDone timeOver =>
    simp only [step] at he
    split at he
    · rename_i hphase
      cases he
      refine ⟨h.slots, h.tasks, fun _ _ => h.all (by simp [hphase]) (by simp [hphase]), h.remaining,
        fun later hlater => ?_,
        h.statuses, h.known⟩
      dsimp only at hlater
      split at hlater <;> cases hlater
    · cases he
  | snapshots metricsAfter health =>
    simp only [step] at he
    split at he
    · rename_i hguard
      cases he
      have hall := h.all (by obtain hlate | hslept := hguard <;> simp [*])
        (by obtain hlate | hslept := hguard <;> simp [*])
      exact ⟨h.slots, h.tasks, fun _ _ => hall, h.remaining, fun _ htodo => (by cases htodo), h.statuses, h.known⟩
    · cases he
  | raises =>
    have hraised : Kept args {s with phase := .raised} :=
      ⟨h.slots, h.tasks, fun _ hne => absurd rfl hne, h.remaining, fun _ htodo => (by cases htodo), h.statuses, h.known⟩
    simp only [step] at he
    split at he
    · split at he
      · cases he
        exact hraised
      · cases he
    · cases he
      exact hraised
    · cases he

theorem kept_reachable (h : (script args).Reachable anything s) : Kept args s := by
  refine System.reachable_invariant (S := script args) (fun s hs => ?_) (fun e s t hkept _ he => kept_step hkept he) h
  obtain rfl : s = { waiting := args.runs } := hs
  exact kept_init

/-! ### What is missing in a summary -/

theorem busy_eq_nil {n : Option Int} {issue : Int → Issue} : busy n issue = [] ↔ n.getD 0 = 0 := by
  cases n with
  | none => exact iff_of_true rfl rfl
  | some n =>
    rw [busy]
    by_cases hn : n = 0
    · rw [if_pos hn]
      exact iff_of_true rfl hn
    · rw [if_neg hn]
      exact iff_of_false (List.cons_ne_nil _ _) hn

/-- A health snapshot with nothing queued, nothing running and Redis, if it is used, connected. -/
def Health.Drained (health : Health) : Prop :=
  health.queued.getD 0 = 0 ∧ health.running.getD 0 = 0 ∧
    ¬(health.backend = some "redis" ∧ health.redisConnected = some false)

theorem summarizeHealth_eq_nil {health : Option Health} :
    summarizeHealth health = [] ↔ ∃ h, health = some h ∧ h.Drained := by
  cases health with
  | none => exact iff_of_false (List.cons_ne_nil _ _) fun h => by obtain ⟨_, h, -⟩ := h; cases h
  | some health =>
    rw [summarizeHealth, List.append_eq_nil_iff, List.append_eq_nil_iff, busy_eq_nil, busy_eq_nil, and_assoc]
    simp only [Option.some.injEq, exists_eq_left', Health.Drained]
    refine and_congr_right' (and_congr_right' ?_)
    split
    · rename_i hlost
      exact iff_of_false (List.cons_ne_nil _ _) fun h => h hlost
    · rename_i hlost
      exact iff_of_true rfl hlost

/-- Metrics that were reached and show no queue and no lost Redis. -/
def Calm (u : Unicode) (metricsAfter : String) : Prop :=
  metricsAfter ≠ "" ∧ (∀ depth, parseMetric u metricsAfter "synqc_queue_jobs_queued" = some depth → depth ≤ 0) ∧
    parseMetric u metricsAfter "synqc_redis_connected" [("backend", "redis")] ≠ some 0

theorem summarizeMetrics_eq_nil {u : Unicode} {metricsAfter : String} :
    summarizeMetrics u metricsAfter = [] ↔ Calm u metricsAfter := by
  rw [summarizeMetrics, Calm]
  by_cases hempty : metricsAfter = ""
  · rw [if_pos hempty]
    exact iff_of_false (List.cons_ne_nil _ _) fun h => h.1 hempty
  · rw [if_neg hempty, List.append_eq_nil_iff, and_iff_right hempty]
    refine and_congr ?_ ?_
    · cases parseMetric u metricsAfter "synqc_queue_jobs_queued" with
      | none => exact iff_of_true rfl fun depth hdepth => by cases hdepth
      | some depth =>
        dsimp only
        by_cases hdeep : 0 < depth
        · rw [if_pos hdeep]
          exact iff_of_false (List.cons_ne_nil _ _) fun h => absurd hdeep (not_lt.mpr (h depth rfl))
        · rw [if_neg hdeep]
          exact iff_of_true rfl fun other hother => Option.some.inj hother ▸ not_lt.mp hdeep
    · split
      · rename_i hlost
        exact iff_of_false (List.cons_ne_nil _ _) fun h => h hlost
      · rename_i hlost
        exact iff_of_true rfl hlost

/-- The runs that were submitted: as many as asked for, all different, and each last seen succeeded. -/
def AllSucceeded (s : State) : Prop :=
  s.runIds.Nodup ∧ ∀ id ∈ s.runIds, lastSeen id s.replies = some "succeeded"

/-- There is a status for each submitted run, and no run id was given twice, if as many statuses ended as runs
were submitted. -/
theorem Kept.perm (h : Kept args s) (hmany : s.runIds.length ≤ finished s) :
    s.statuses.keys.Perm s.runIds ∧ ∀ id status, s.statuses.get? id = some status → ended status = true := by
  have hkeys : s.statuses.keys.length = s.statuses.values.length := by
    rw [Dict.keys, Dict.values, List.length_map, List.length_map]
  have hfew : finished s ≤ s.statuses.values.length := List.length_filter_le _ _
  have hsub : s.statuses.keys.Subperm s.runIds := List.subperm_of_subset s.statuses.nodup h.known
  refine ⟨hsub.perm_of_length_le (by omega), fun id status hget => ?_⟩
  have hall : (s.statuses.values.filter ended).length = s.statuses.values.length := by
    have hle := hsub.length_le
    rw [finished] at hmany hfew
    omega
  refine List.length_filter_eq_length_iff.mp hall status ?_
  exact List.mem_map.mpr ⟨(id, status), Dict.mem_entries.mpr hget, rfl⟩

theorem Kept.summarizeRuns_eq_nil (h : Kept args s) (hcount : s.runIds.length = args.runs) :
    summarizeRuns args s = [] ↔ AllSucceeded s := by
  have hfailed : failedRuns s = [] ↔ ∀ id, lastSeen id s.replies ≠ some "failed" := by
    rw [failedRuns, List.map_eq_nil_iff, List.filter_eq_nil_iff]
    constructor
    · intro hnone id hseen
      rw [← h.statuses] at hseen
      exact hnone (id, "failed") (Dict.mem_entries.mpr hseen) (by simp)
    · intro hnone e he hfailed
      have hget : s.statuses.get? e.1 = some e.2 := Dict.mem_entries.mp he
      rw [h.statuses, of_decide_eq_true hfailed] at hget
      exact hnone e.1 hget
  have hsplit : summarizeRuns args s = [] ↔ failedRuns s = [] ∧ ¬finished s < args.runs := by
    rw [summarizeRuns, List.append_eq_nil_iff]
    refine and_congr ?_ ?_
    · by_cases hnil : failedRuns s = []
      · simp [hnil]
      · rw [if_pos hnil]
        exact iff_of_false (List.cons_ne_nil _ _) hnil
    · by_cases hfew : finished s < args.runs
      · rw [if_pos hfew]
        exact iff_of_false (List.cons_ne_nil _ _) (not_not_intro hfew)
      · rw [if_neg hfew]
        exact iff_of_true rfl hfew
  rw [hsplit, hfailed, AllSucceeded]
  constructor
  · intro hboth
    obtain ⟨hnone, hmany⟩ := hboth
    obtain ⟨hperm, hended⟩ := h.perm (by omega)
    refine ⟨hperm.nodup_iff.mp s.statuses.nodup, fun id hid => ?_⟩
    obtain ⟨status, hstatus⟩ := Dict.mem_keys.mp (hperm.mem_iff.mpr hid)
    have hseen := hended id status hstatus
    rw [h.statuses] at hstatus
    rw [hstatus]
    simp only [ended, List.mem_cons, List.not_mem_nil, or_false, decide_eq_true_eq] at hseen
    obtain hsucceeded | hfail := hseen
    · rw [hsucceeded]
    · exact absurd (hfail ▸ hstatus) (hnone id)
  · intro hboth
    obtain ⟨hnodup, hall⟩ := hboth
    have hvalue : ∀ id status, s.statuses.get? id = some status → status = "succeeded" := by
      intro id status hget
      have hknown := h.known id (Dict.mem_keys.mpr ⟨status, hget⟩)
      rw [h.statuses, hall id hknown] at hget
      exact (Option.some.inj hget).symm
    refine ⟨fun id hseen => ?_, ?_⟩
    · have hget : s.statuses.get? id = some "failed" := (h.statuses id).trans hseen
      exact absurd (hvalue id _ hget) (by decide)
    · have hkeys : s.runIds ⊆ s.statuses.keys := by
        intro id hid
        exact Dict.mem_keys.mpr ⟨"succeeded", (h.statuses id).trans (hall id hid)⟩
      have hmany := (List.subperm_of_subset hnodup hkeys).length_le
      have hall' : s.statuses.values.filter ended = s.statuses.values := by
        refine List.filter_eq_self.mpr fun status hstatus => ?_
        obtain ⟨id, hid⟩ := Dict.get?_of_mem_values hstatus
        rw [hvalue id status hid]
        decide
      rw [finished, hall', not_lt, Dict.values, List.length_map]
      rw [Dict.keys, List.length_map] at hmany
      omega

/-- **A load test passes for what it says it does.** No more submissions are in flight than there are slots, whatever
the order of the replies; and once the snapshots are taken, a strict test passes exactly if as many different runs as
asked for were submitted, each was last seen succeeded, and health and metrics show nothing wrong. -/
theorem passes_iff (u : Unicode) (h : (script args).Reachable anything s) : s.inFlight ≤ args.concurrency ∧
    ∀ metricsAfter health, s.phase = .gathered metricsAfter health →
      s.runIds.length = args.runs ∧ (passes u args s metricsAfter health = true ↔
        (args.strict = true → AllSucceeded s ∧ (∃ snapshot, health = some snapshot ∧ snapshot.Drained) ∧
          Calm u metricsAfter)) := by
  have hkept := kept_reachable h
  refine ⟨hkept.slots, fun metricsAfter health hphase => ?_⟩
  have hall := hkept.all (by simp [hphase]) (by simp [hphase])
  have htasks := hkept.tasks
  have hcount : s.runIds.length = args.runs := by omega
  refine ⟨hcount, ?_⟩
  rw [passes, Bool.or_eq_true, List.isEmpty_iff, List.append_eq_nil_iff, List.append_eq_nil_iff, summarizeHealth_eq_nil,
    summarizeMetrics_eq_nil, hkept.summarizeRuns_eq_nil hcount, Bool.not_eq_true']
  cases args.strict with
  | false => simp
  | true =>
    simp only [Bool.true_eq_false, or_false, true_implies]
    exact and_comm

end Runs

/-- Two runs, the second submitted while the first is in flight, both succeed in the second round. -/
def twoRuns : List Event :=
  [.acquire, .acquire, .submitted "b", .submitted "a", .submissionsDone, .round ["a", "b"], .polled "running",
    .polled "succeeded", .roundDone false, .round ["a"], .polled "succeeded", .roundDone false,
    .snapshots "up 1" (some {queued := some 0})]

theorem passes_iff_twoRuns : ∃ s, (script ⟨2, 2, true⟩).run { waiting := 2 } twoRuns = some s ∧ AllSucceeded s := by
  have hrun : ((script ⟨2, 2, true⟩).run { waiting := 2 } twoRuns).map (fun s =>
      (s.phase, passes .ascii ⟨2, 2, true⟩ s "up 1" (some {queued := some 0}))) =
        some (.gathered "up 1" (some {queued := some 0}), true) := by
    decide +kernel
  obtain ⟨s, hs, hpair⟩ := Option.map_eq_some_iff.mp hrun
  obtain ⟨hphase, hpasses⟩ := Prod.mk.inj hpair
  have hgate := (passes_iff .ascii (System.run_reachable (S := script ⟨2, 2, true⟩) rfl hs)).2 _ _ hphase
  exact ⟨s, hs, (hgate.2.mp hpasses rfl).1⟩

end SynQc.LoadTest
