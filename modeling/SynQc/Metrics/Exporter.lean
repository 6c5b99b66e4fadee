import Mathlib.Algebra.Order.Group.Abs
import SynQc.Library.Transition
import SynQc.Metrics.Recorder

/-! `MetricsExporter`: the gauges of the process, set by a thread.

Every cycle reads the budget tracker, the queue and the provider summary, in this order, and
sets one gauge after another from what it read; a source that raises ends the cycle and is
counted. A labelled gauge stays once it was set, so the exporter remembers the labels it
reported and sets those that a later reading lacks to zero. It only remembers its own: an
exporter that replaces another one on the shared registry starts with nothing.

The registry is scraped at any time. `registry_shows` says what is there: for every sample
that the thread is not about to set, what the readings of the present exporter say
(`expected`), and where they say nothing, what was there before. -/
namespace SynQc.Metrics

/-! ### The registry -/

/-- The gauges of the queue without a label. -/
inductive Gauge where
  | total
  | queued
  | running
  | succeeded
  | failed
  | oldestAge
  | maxWorkers
  deriving DecidableEq

/-- The gauges whose labels follow a dictionary. -/
inductive Mirror where
  | failureCodes
  | failureTargets
  | providerSuccess
  | providerFailure
  | providerSimulated
  deriving DecidableEq

inductive Family where
  | redisConnected
  | budgetSessionKeys
  | sessionKeyChurn
  | queue (g : Gauge)
  | mirror (m : Mirror)
  | collectionErrors
  deriving DecidableEq

/-- A family and the value of its label, `""` where it has none. -/
abbrev Sample := Family × String

abbrev Registry := Dict Sample ℚ

inductive Write where
  | set (key : Sample) (value : ℚ)
  | inc (key : Sample) (amount : ℚ)

namespace Write

def key : Write → Sample
  | .set key _ => key
  | .inc key _ => key

def apply (r : Registry) : Write → Registry
  | .set key value => Dict.set r key value
  | .inc key amount => Dict.set r key ((r.get? key).getD 0 + amount)

/-- The registry after some writes. -/
def applyAll (r : Registry) (writes : List Write) : Registry := writes.foldl apply r

@[simp] theorem applyAll_nil (r : Registry) : applyAll r [] = r := rfl

@[simp] theorem applyAll_cons (r : Registry) (w : Write) (rest : List Write) :
    applyAll r (w :: rest) = applyAll (w.apply r) rest := rfl

theorem get?_set (r : Registry) (key key' : Sample) (value : ℚ) :
    ((set key value).apply r).get? key' = if key = key' then some value else r.get? key' :=
  Dict.get?_set r key key' value

theorem get?_inc (r : Registry) (key key' : Sample) (amount : ℚ) :
    ((inc key amount).apply r).get? key' = if key = key' then some ((r.get? key).getD 0 + amount) else r.get? key' :=
  Dict.get?_set r key key' _

theorem get?_apply_ne (r : Registry) {w : Write} {key : Sample} (h : w.key ≠ key) :
    (w.apply r).get? key = r.get? key := by
  cases w with
  | set key' value => exact Dict.get?_set_ne r value h
  | inc key' amount => exact Dict.get?_set_ne r _ h

theorem get?_applyAll_ne (r : Registry) {writes : List Write} {key : Sample} (h : ∀ w ∈ writes, w.key ≠ key) :
    (applyAll r writes).get? key = r.get? key := by
  induction writes generalizing r with
  | nil => rfl
  | cons w rest ih =>
    rw [applyAll_cons, ih _ fun w' hw' => h w' (List.mem_cons_of_mem w hw'), get?_apply_ne r (h w List.mem_cons_self)]

/-- Where all writes of a sample agree, it has their value afterwards. -/
theorem get?_applyAll_set (r : Registry) {writes : List Write} {key : Sample} {value : ℚ}
    (hmem : .set key value ∈ writes)
    (hall : ∀ w ∈ writes, w.key = key → w = .set key value) : (applyAll r writes).get? key = some value := by
  induction writes generalizing r with
  | nil => cases hmem
  | cons w rest ih =>
    have hrest : ∀ w' ∈ rest, w'.key = key → w' = .set key value := fun w' hw' => hall w' (List.mem_cons_of_mem w hw')
    by_cases hlater : Write.set key value ∈ rest
    · exact ih _ hlater hrest
    · have hnone : ∀ w' ∈ rest, w'.key ≠ key := fun w' hw' hkey => hlater (hrest w' hw' hkey ▸ hw')
      cases List.mem_cons.mp hmem with
      | inl hw => rw [applyAll_cons, get?_applyAll_ne _ hnone, ← hw, apply, Dict.get?_set_self]
      | inr hw => exact absurd hw hlater

end Write

/-- A collector of a name that is there is taken; a new one is at zero. -/
theorem get?_setDefault (r : Registry) (key key' : Sample) (value : ℚ) :
    (Dict.setDefault r key value).get? key' = if key = key' then some ((r.get? key').getD value) else r.get? key' := by
  unfold Dict.setDefault
  split
  · rename_i old hget
    split
    · rename_i hkey
      rw [← hkey, hget, Option.getD_some]
    · rfl
  · rename_i hget
    rw [Dict.get?_set]
    split
    · rename_i hkey
      rw [← hkey, hget, Option.getD_none]
    · rfl

/-! ### The sources -/

/-- What `BudgetTracker.health_summary` may hold. -/
structure BudgetSummary where
  backend : Option String := none
  redisConnected : Option Bool := none
  redisOk : Option Bool := none
  ok : Option Bool := none
  connected : Option Bool := none
  sessionKeys : Option Nat := none

/-- `summary.get("backend", "unknown")` -/
def BudgetSummary.label (s : BudgetSummary) : String := s.backend.getD "unknown"

/-- The first of the flags that is there counts. -/
def BudgetSummary.isConnected (s : BudgetSummary) : ℚ :=
  if s.label = "memory" then 1
  else if (s.redisConnected.or (s.redisOk.or (s.ok.or s.connected))).getD false then 1
  else 0

def BudgetSummary.keys (s : BudgetSummary) : ℚ := (s.sessionKeys.getD 0 : Nat)

/-- What the `stats` of a queue may hold. -/
structure QueueStats where
  total : Option ℚ := none
  queued : Option ℚ := none
  running : Option ℚ := none
  succeeded : Option ℚ := none
  failed : Option ℚ := none
  oldestQueuedAge : Option ℚ := none
  maxWorkers : Option ℚ := none
  failureCodes : Option (Dict String ℚ) := none
  failuresByTarget : Option (Dict String ℚ) := none

def Gauge.read (s : QueueStats) : Gauge → ℚ
  | .total => s.total.getD 0
  | .queued => s.queued.getD 0
  | .running => s.running.getD 0
  | .succeeded => s.succeeded.getD 0
  | .failed => s.failed.getD 0
  | .oldestAge => s.oldestQueuedAge.getD 0
  | .maxWorkers => s.maxWorkers.getD 0

/-! ### The exporter -/

structure Exporter where
  previousSessionKeys : Option ℚ := none
  knownFailureLabels : List String := []
  knownFailureTargets : List String := []
  providerSeenTargets : List String := []

/-- The gauges without a label, in the order they are made. -/
def unlabelled : List Family :=
  [.queue .total, .queue .queued, .queue .running, .queue .succeeded, .queue .failed, .queue .oldestAge,
    .queue .maxWorkers, .collectionErrors]

/-- `_get_or_create_gauge` and `_get_or_create_counter`: a new collector without a label is at
zero, and one of that name that is there is taken. -/
def Registry.create (r : Registry) : Registry :=
  unlabelled.foldl (fun r family => Dict.setDefault r (family, "") 0) r

theorem Registry.get?_create (r : Registry) (key : Sample) :
    (Registry.create r).get? key =
      if key ∈ unlabelled.map fun family => (family, "") then some ((r.get? key).getD 0) else r.get? key := by
  unfold create
  induction unlabelled generalizing r with
  | nil => rfl
  | cons family rest ih =>
    rw [List.foldl_cons, ih, get?_setDefault]
    by_cases hrest : key ∈ rest.map fun family => (family, "")
    · rw [if_pos hrest, List.map_cons, if_pos (List.mem_cons_of_mem _ hrest)]
      split <;> rfl
    · rw [if_neg hrest, List.map_cons]
      by_cases hkey : key = (family, "")
      · rw [if_pos hkey.symm, hkey, if_pos List.mem_cons_self]
      · rw [if_neg (Ne.symm hkey), if_neg (List.not_mem_cons_of_ne_of_not_mem hkey hrest)]

namespace Exporter

def collectBudgetMetrics (x : Exporter) (s : BudgetSummary) : List Write × Exporter :=
  let churn :=
    match x.previousSessionKeys with
    | some previous =>
      if 0 < |s.keys - previous| then [Write.inc (.sessionKeyChurn, s.label) |s.keys - previous|] else []
    | none => []
  ([.set (.redisConnected, s.label) s.isConnected, .set (.budgetSessionKeys, s.label) s.keys] ++ churn,
    {x with previousSessionKeys := some s.keys})

/-- Set a gauge for each label of a dictionary, and to zero for each known label it lacks. -/
def follow (m : Mirror) (known : List String) (d : Dict String ℚ) : List Write :=
  (d.entries.map fun e => Write.set (.mirror m, e.1) e.2) ++
    ((known.filter fun label => label ∉ d.keys).map fun label => .set (.mirror m, label) 0)

def collectQueueMetrics (x : Exporter) (s : QueueStats) : List Write × Exporter :=
  let failureCodes := s.failureCodes.getD Dict.empty
  let failureTargets := s.failuresByTarget.getD Dict.empty
  ([.set (.queue .total, "") (Gauge.total.read s), .set (.queue .queued, "") (Gauge.queued.read s),
    .set (.queue .running, "") (Gauge.running.read s), .set (.queue .succeeded, "") (Gauge.succeeded.read s),
    .set (.queue .failed, "") (Gauge.failed.read s), .set (.queue .oldestAge, "") (Gauge.oldestAge.read s),
    .set (.queue .maxWorkers, "") (Gauge.maxWorkers.read s)] ++
      follow .failureCodes x.knownFailureLabels failureCodes ++
      follow .failureTargets x.knownFailureTargets failureTargets,
    {x with
      knownFailureLabels := x.knownFailureLabels ∪ failureCodes.keys
      knownFailureTargets := x.knownFailureTargets ∪ failureTargets.keys})

/-- The three gauges of a provider target. -/
def setProvider (target : String) (success failure simulated : ℚ) : List Write :=
  [.set (.mirror .providerSuccess, target) success, .set (.mirror .providerFailure, target) failure,
    .set (.mirror .providerSimulated, target) simulated]

def collectProviderMetrics (x : Exporter) (summary : ProviderMetricsRecorder.HealthSummary) : List Write × Exporter :=
  ((summary.targets.entries.flatMap fun e =>
      setProvider e.1 (e.2.success : Nat) (e.2.failure : Nat) (e.2.simulated : Nat)) ++
    ((x.providerSeenTargets.filter fun target => target ∉ summary.targets.keys).flatMap fun target =>
      setProvider target 0 0 0),
    {x with providerSeenTargets := x.providerSeenTargets ∪ summary.targets.keys})

end Exporter

/-! ### The thread -/

/-- What the exporter read, and the cycles that a source ended. -/
inductive Entry where
  | budget (s : BudgetSummary)
  | queue (s : QueueStats)
  | provider (s : ProviderMetricsRecorder.HealthSummary)
  | error

/-- Where the thread is: waiting for the next cycle, or with some writes to do of what it read. -/
inductive Phase where
  | idle
  | budget (todo : List Write)
  | queue (todo : List Write)
  | provider (todo : List Write)
  | stopped

structure State where
  registry : Registry
  exporter : Exporter
  phase : Phase
  /-- The registry as the exporter found it. -/
  base : Registry
  /-- What the exporter read since, the last first. -/
  log : List Entry

inductive Event where
  | readBudget (reply : Except Exc BudgetSummary)
  | readQueue (reply : Except Exc QueueStats)
  | readProviders (reply : Except Exc ProviderMetricsRecorder.HealthSummary)
  | write
  | finish
  | stop
  | rebuild

namespace State

def pending (s : State) : List Write :=
  match s.phase with
  | .idle | .stopped => []
  | .budget todo | .queue todo | .provider todo => todo

/-- `_collect_with_guard`: the error is counted, and the cycle is over. -/
def fail (s : State) : State :=
  {s with
    registry := (Write.inc (.collectionErrors, "") 1).apply s.registry
    phase := .idle
    log := .error :: s.log}

/-- Go on with what was read. -/
def reading (s : State) (entry : Entry) (phase : List Write → Phase) (result : List Write × Exporter) : State :=
  {s with exporter := result.2, phase := phase result.1, log := entry :: s.log}

def readBudget (reply : Except Exc BudgetSummary) (s : State) : Option State :=
  match s.phase with
  | .idle =>
    match reply with
    | .ok summary => some (s.reading (.budget summary) .budget (s.exporter.collectBudgetMetrics summary))
    | .error _ => some s.fail
  | _ => none

def readQueue (reply : Except Exc QueueStats) (s : State) : Option State :=
  match s.phase with
  | .budget [] =>
    match reply with
    | .ok stats => some (s.reading (.queue stats) .queue (s.exporter.collectQueueMetrics stats))
    | .error _ => some s.fail
  | _ => none

def readProviders (reply : Except Exc ProviderMetricsRecorder.HealthSummary) (s : State) : Option State :=
  match s.phase with
  | .queue [] =>
    match reply with
    | .ok summary => some (s.reading (.provider summary) .provider (s.exporter.collectProviderMetrics summary))
    | .error _ => some s.fail
  | _ => none

/-- The next of the pending writes. -/
def write (s : State) : Option State :=
  match s.phase with
  | .budget (w :: todo) => some {s with registry := w.apply s.registry, phase := .budget todo}
  | .queue (w :: todo) => some {s with registry := w.apply s.registry, phase := .queue todo}
  | .provider (w :: todo) => some {s with registry := w.apply s.registry, phase := .provider todo}
  | _ => none

def finish (s : State) : Option State :=
  match s.phase with
  | .provider [] => some {s with phase := .idle}
  | _ => none

/-- The stop event ends the thread where it waits. -/
def stop (s : State) : Option State :=
  match s.phase with
  | .idle => some {s with phase := .stopped}
  | _ => none

/-- Another exporter on the same registry. -/
def rebuild (s : State) : Option State :=
  match s.phase with
  | .stopped => some ⟨s.registry.create, {}, .idle, s.registry.create, []⟩
  | _ => none

/-- The first exporter, on a new registry. -/
def fresh : State := ⟨Registry.create Dict.empty, {}, .idle, Registry.create Dict.empty, []⟩

end State

/-- The exporters on a registry, one after another. -/
def exporter : Transition.System State Event where
  init s := s = State.fresh
  step
    | .readBudget reply => State.readBudget reply
    | .readQueue reply => State.readQueue reply
    | .readProviders reply => State.readProviders reply
    | .write => State.write
    | .finish => State.finish
    | .stop => State.stop
    | .rebuild => State.rebuild

/-! ### What the log says -/

/-- The dictionary that a mirrored family follows. -/
def Mirror.snapshot : Mirror → Entry → Option (Dict String ℚ)
  | .failureCodes, .queue s => some (s.failureCodes.getD Dict.empty)
  | .failureTargets, .queue s => some (s.failuresByTarget.getD Dict.empty)
  | .providerSuccess, .provider s => some (s.targets.mapValues fun stats => ((stats.success : Nat) : ℚ))
  | .providerFailure, .provider s => some (s.targets.mapValues fun stats => ((stats.failure : Nat) : ℚ))
  | .providerSimulated, .provider s => some (s.targets.mapValues fun stats => ((stats.simulated : Nat) : ℚ))
  | _, _ => none

/-- The last dictionary it followed. -/
def latest (m : Mirror) (log : List Entry) : Option (Dict String ℚ) := log.findSome? m.snapshot

/-- All labels that were in one of them. -/
def reported (m : Mirror) (log : List Entry) : List String :=
  (log.filterMap m.snapshot).flatMap Dict.keys

def Entry.budget? : Entry → Option BudgetSummary
  | .budget s => some s
  | _ => none

def Entry.queue? : Entry → Option QueueStats
  | .queue s => some s
  | _ => none

/-- The number of session keys last read. -/
def lastKeys (log : List Entry) : Option ℚ := (log.findSome? Entry.budget?).map BudgetSummary.keys

/-- By how much the session keys went up and down, where the second of two readings was of
this backend. -/
def churn (backend : String) : List Entry → ℚ
  | .budget s :: rest =>
    ((lastKeys rest).elim 0 fun previous => if s.label = backend then |s.keys - previous| else 0) + churn backend rest
  | _ :: rest => churn backend rest
  | [] => 0

/-- The cycles that a source ended. -/
def failures (log : List Entry) : Nat := log.countP fun entry => match entry with | .error => true | _ => false

/-- Add to a counter; one that nothing was added to need not be there. -/
def addTo (counter : Option ℚ) (amount : ℚ) : Option ℚ := if amount = 0 then counter else some (counter.getD 0 + amount)

/-- The value of a sample by the readings of an exporter and the registry it found. -/
def expected (base : Registry) (log : List Entry) : Sample → Option ℚ
  | (.redisConnected, backend) =>
    ((log.findSome? fun e => e.budget?.filter fun s => s.label = backend).map BudgetSummary.isConnected).or
      (base.get? (.redisConnected, backend))
  | (.budgetSessionKeys, backend) =>
    ((log.findSome? fun e => e.budget?.filter fun s => s.label = backend).map BudgetSummary.keys).or
      (base.get? (.budgetSessionKeys, backend))
  | (.sessionKeyChurn, backend) => addTo (base.get? (.sessionKeyChurn, backend)) (churn backend log)
  | (.queue g, label) =>
    (if label = "" then (log.findSome? Entry.queue?).map fun s => g.read s else none).or (base.get? (.queue g, label))
  | (.mirror m, label) =>
    if label ∈ reported m log then some (((latest m log).bind fun d => d.get? label).getD 0)
    else base.get? (.mirror m, label)
  | (.collectionErrors, label) =>
    addTo (base.get? (.collectionErrors, label)) (if label = "" then (failures log : Nat) else 0)

theorem reported_none {m : Mirror} {e : Entry} (h : m.snapshot e = none) (log : List Entry) :
    reported m (e :: log) = reported m log := by
  simp only [reported, List.filterMap_cons, h]

theorem reported_some {m : Mirror} {e : Entry} {d : Dict String ℚ} (h : m.snapshot e = some d) (log : List Entry) :
    reported m (e :: log) = d.keys ++ reported m log := by
  simp only [reported, List.filterMap_cons, h, List.flatMap_cons]

theorem latest_none {m : Mirror} {e : Entry} (h : m.snapshot e = none) (log : List Entry) :
    latest m (e :: log) = latest m log := by
  simp only [latest, List.findSome?_cons, h]

theorem latest_some {m : Mirror} {e : Entry} {d : Dict String ℚ} (h : m.snapshot e = some d) (log : List Entry) :
    latest m (e :: log) = some d := by
  simp only [latest, List.findSome?_cons, h]

/-- An entry that a family does not follow says nothing about it. -/
theorem expected_mirror_none {m : Mirror} {e : Entry} (h : m.snapshot e = none) (base : Registry) (log : List Entry)
    (label : String) : expected base (e :: log) (.mirror m, label) = expected base log (.mirror m, label) := by
  simp only [expected, reported_none h, latest_none h]

theorem expected_mirror_some {m : Mirror} {e : Entry} {d : Dict String ℚ} (h : m.snapshot e = some d) (base : Registry)
    (log : List Entry) (label : String) :
    expected base (e :: log) (.mirror m, label) =
      if label ∈ d.keys ∨ label ∈ reported m log then some ((d.get? label).getD 0)
      else expected base log (.mirror m, label) := by
  simp only [expected, reported_some h, latest_some h, List.mem_append, Option.bind_some]
  split
  · rfl
  · rename_i hnot
    rw [if_neg fun hmem => hnot (.inr hmem)]

theorem churn_nonneg (backend : String) (log : List Entry) : 0 ≤ churn backend log := by
  induction log with
  | nil => exact le_refl 0
  | cons e rest ih =>
    cases e with
    | budget s =>
      refine add_nonneg ?_ ih
      cases lastKeys rest with
      | none => exact le_refl 0
      | some previous =>
        simp only [Option.elim_some]
        split
        · exact abs_nonneg _
        · exact le_refl 0
    | queue s => exact ih
    | provider s => exact ih
    | error => exact ih

theorem addTo_getD (counter : Option ℚ) (amount : ℚ) : (addTo counter amount).getD 0 = counter.getD 0 + amount := by
  unfold addTo
  split
  · rename_i hzero
    rw [hzero, add_zero]
  · rfl

/-- Counting further than something that is not negative. -/
theorem addTo_add (counter : Option ℚ) {amount more : ℚ} (hamount : 0 ≤ amount) (hmore : 0 < more) :
    some ((addTo counter amount).getD 0 + more) = addTo counter (amount + more) := by
  have hne : amount + more ≠ 0 := by linarith
  rw [addTo_getD, addTo, if_neg hne, add_assoc]

/-! ### What a step does to the registry -/

section Steps
variable {base r : Registry} {log : List Entry}

theorem expected_error (h : ∀ key, r.get? key = expected base log key) (key : Sample) :
    ((Write.inc (.collectionErrors, "") 1).apply r).get? key = expected base (.error :: log) key := by
  by_cases hkey : key = (.collectionErrors, "")
  · subst hkey
    have hcount : ((failures (.error :: log) : Nat) : ℚ) = (failures log : Nat) + 1 := by
      simp [failures]
    rw [Write.apply, Dict.get?_set_self, h]
    simp only [expected, if_true, hcount]
    exact addTo_add _ (Nat.cast_nonneg _) one_pos
  · rw [Write.get?_apply_ne r (Ne.symm hkey), h]
    obtain ⟨family, label⟩ := key
    cases family with
    | mirror m => exact (expected_mirror_none (by cases m <;> rfl) base log label).symm
    | collectionErrors =>
      have hlabel : label ≠ "" := by
        intro hlabel
        exact hkey (by rw [hlabel])
      simp only [expected, if_neg hlabel]
    | redisConnected => rfl
    | budgetSessionKeys => rfl
    | sessionKeyChurn => rfl
    | queue g => rfl

/-- By how much a reading differs from the one before. -/
def Exporter.delta (x : Exporter) (s : BudgetSummary) : ℚ :=
  x.previousSessionKeys.elim 0 fun previous => |s.keys - previous|

/-- The writes of `collectBudgetMetrics`: two gauges, and the churn where there is any. -/
theorem Exporter.collectBudget_writes (x : Exporter) (s : BudgetSummary) :
    (x.collectBudgetMetrics s).1 = [.set (.redisConnected, s.label) s.isConnected,
      .set (.budgetSessionKeys, s.label) s.keys] ++
        if 0 < x.delta s then [.inc (.sessionKeyChurn, s.label) (x.delta s)] else [] := by
  unfold collectBudgetMetrics delta
  cases x.previousSessionKeys with
  | none => rfl
  | some previous => rfl

/-- Counting up after the gauges of the budget. -/
theorem get?_budgetWrites (s : BudgetSummary) (amount : ℚ) (key : Sample) :
    (Write.applyAll r ([.set (.redisConnected, s.label) s.isConnected, .set (.budgetSessionKeys, s.label) s.keys] ++
        if 0 < amount then [.inc (.sessionKeyChurn, s.label) amount] else [])).get? key =
      if key = (.redisConnected, s.label) then some s.isConnected
      else if key = (.budgetSessionKeys, s.label) then some s.keys
      else if key = (.sessionKeyChurn, s.label) ∧ 0 < amount then some ((r.get? key).getD 0 + amount)
      else r.get? key := by
  obtain ⟨family, label⟩ := key
  by_cases hpos : 0 < amount
  · simp only [hpos, if_true, List.cons_append, List.nil_append, Write.applyAll_cons, Write.applyAll_nil,
      Write.get?_set, Write.get?_inc]
    by_cases hlabel : label = s.label
    · cases family <;> simp [hlabel]
    · cases family <;> simp [hlabel, Ne.symm hlabel]
  · simp only [hpos, if_false, List.append_nil, Write.applyAll_cons, Write.applyAll_nil,
      Write.get?_set]
    by_cases hlabel : label = s.label
    · cases family <;> simp [hlabel]
    · cases family <;> simp [hlabel, Ne.symm hlabel]

theorem expected_budget {x : Exporter} (h : ∀ key, r.get? key = expected base log key)
    (hprevious : x.previousSessionKeys = lastKeys log) (s : BudgetSummary) (key : Sample) :
    (Write.applyAll r (x.collectBudgetMetrics s).1).get? key = expected base (.budget s :: log) key := by
  rw [x.collectBudget_writes, get?_budgetWrites, Exporter.delta, hprevious, h]
  obtain ⟨family, label⟩ := key
  cases family with
  | redisConnected =>
    by_cases hlabel : label = s.label
    · simp [expected, Entry.budget?, hlabel, Option.filter_some]
    · simp [expected, Entry.budget?, hlabel, Ne.symm hlabel, Option.filter_some]
  | budgetSessionKeys =>
    by_cases hlabel : label = s.label
    · simp [expected, Entry.budget?, hlabel, Option.filter_some]
    · simp [expected, Entry.budget?, hlabel, Ne.symm hlabel, Option.filter_some]
  | sessionKeyChurn =>
    by_cases hlabel : label = s.label
    · have hchurn : churn label (.budget s :: log) =
          churn label log + (lastKeys log).elim 0 fun previous => |s.keys - previous| := by
        rw [churn, add_comm, hlabel]
        simp only [if_true]
      by_cases hpos : 0 < (lastKeys log).elim 0 fun previous => |s.keys - previous|
      · simp only [hlabel, hpos, Prod.mk.injEq, reduceCtorEq, false_and, if_false, and_self, if_true]
        rw [← hlabel, expected, expected, hchurn, addTo_add _ (churn_nonneg _ _) hpos]
      · have hzero : (lastKeys log).elim 0 (fun previous => |s.keys - previous|) = 0 := by
          cases hlast : lastKeys log with
          | none => rfl
          | some previous =>
            rw [hlast] at hpos
            exact le_antisymm (not_lt.mp hpos) (abs_nonneg _)
        simp only [hpos, Prod.mk.injEq, reduceCtorEq, false_and, and_false, if_false]
        rw [expected, expected, hchurn, hzero, add_zero]
    · have hchurn : churn label (.budget s :: log) = churn label log := by
        rw [churn]
        cases lastKeys log with
        | none => exact zero_add _
        | some previous => simp [Ne.symm hlabel]
      simp [hlabel, expected, hchurn]
  | mirror m => simp [expected_mirror_none (show m.snapshot (.budget s) = none by cases m <;> rfl)]
  | collectionErrors => simp [expected, failures]
  | queue g => simp [expected, Entry.queue?, List.findSome?_cons]

/-- A family that follows a dictionary shows it, and zero under the labels reported before. -/
theorem expected_mirror {m : Mirror} {e : Entry} {d : Dict String ℚ} (hsnapshot : m.snapshot e = some d)
    (h : ∀ key, r.get? key = expected base log key) {known : List String}
    (hknown : ∀ label, label ∈ known ↔ label ∈ reported m log) {writes : List Write}
    (hwrites : ∀ label value, Write.set (.mirror m, label) value ∈ writes ↔
      d.get? label = some value ∨ (label ∈ known ∧ d.get? label = none ∧ value = 0))
    (hsets : ∀ w ∈ writes, ∃ value, w = .set w.key value) (label : String) :
    (Write.applyAll r writes).get? (.mirror m, label) = expected base (e :: log) (.mirror m, label) := by
  have hall : ∀ value, Write.set (.mirror m, label) value ∈ writes →
      (Write.applyAll r writes).get? (.mirror m, label) = some value := by
    intro value hmem
    refine Write.get?_applyAll_set r hmem fun w hw hkey => ?_
    obtain ⟨value', hset⟩ := hsets w hw
    rw [hkey] at hset
    rw [hset] at hw ⊢
    rcases (hwrites label value).mp hmem with hget | ⟨hlabel, hget, hzero⟩
    · rcases (hwrites label value').mp hw with hget' | ⟨_, hget', _⟩
      · cases hget.symm.trans hget'
        rfl
      · cases hget.symm.trans hget'
    · rcases (hwrites label value').mp hw with hget' | ⟨_, _, hzero'⟩
      · cases hget.symm.trans hget'
      · rw [hzero, hzero']
  rw [expected_mirror_some hsnapshot]
  cases hget : d.get? label with
  | some value =>
    rw [hall value ((hwrites label value).mpr (.inl hget)), if_pos (.inl (Dict.mem_keys.mpr ⟨value, hget⟩))]
    rfl
  | none =>
    have hkeys : label ∉ d.keys := by
      intro hmem
      obtain ⟨value, hvalue⟩ := Dict.mem_keys.mp hmem
      rw [hget] at hvalue
      cases hvalue
    by_cases hlabel : label ∈ reported m log
    · rw [hall 0 ((hwrites label 0).mpr (.inr ⟨(hknown label).mpr hlabel, hget, rfl⟩)), if_pos (.inr hlabel)]
      rfl
    · rw [if_neg (not_or.mpr ⟨hkeys, hlabel⟩), Write.get?_applyAll_ne r, h]
      intro w hw hkey
      obtain ⟨value, hset⟩ := hsets w hw
      rw [hkey] at hset
      rw [hset] at hw
      rcases (hwrites label value).mp hw with hvalue | ⟨hmem, _, _⟩
      · cases hget.symm.trans hvalue
      · exact hlabel ((hknown label).mp hmem)

theorem mem_keys_iff (d : Dict String ℚ) (label : String) : label ∉ d.keys ↔ d.get? label = none := by
  rw [Dict.mem_keys, not_exists]
  exact Option.eq_none_iff_forall_ne_some.symm

theorem mem_follow (m m' : Mirror) (known : List String) (d : Dict String ℚ) (label : String) (value : ℚ) :
    Write.set (.mirror m', label) value ∈ Exporter.follow m known d ↔
      m' = m ∧ (d.get? label = some value ∨ (label ∈ known ∧ d.get? label = none ∧ value = 0)) := by
  simp only [Exporter.follow, List.mem_append, List.mem_map, List.mem_filter, decide_eq_true_eq, mem_keys_iff,
    Write.set.injEq, Prod.mk.injEq, Family.mirror.injEq]
  constructor
  · intro h
    rcases h with ⟨e, he, ⟨hm, hlabel⟩, hvalue⟩ | ⟨label', ⟨hmem, hnone⟩, ⟨hm, hlabel⟩, hvalue⟩
    · subst hlabel hvalue
      exact ⟨hm.symm, .inl (Dict.mem_entries.mp he)⟩
    · subst hlabel
      exact ⟨hm.symm, .inr ⟨hmem, hnone, hvalue.symm⟩⟩
  · intro h
    rcases h with ⟨hm, hget | ⟨hmem, hnone, hvalue⟩⟩
    · exact .inl ⟨(label, value), Dict.mem_entries.mpr hget, ⟨hm.symm, rfl⟩, rfl⟩
    · exact .inr ⟨label, ⟨hmem, hnone⟩, ⟨hm.symm, rfl⟩, hvalue.symm⟩

theorem follow_key {m : Mirror} {known : List String} {d : Dict String ℚ} {w : Write}
    (hw : w ∈ Exporter.follow m known d) :
    ∃ label value, w = .set (.mirror m, label) value := by
  simp only [Exporter.follow, List.mem_append, List.mem_map] at hw
  rcases hw with ⟨e, _, hset⟩ | ⟨label, _, hset⟩
  · exact ⟨e.1, e.2, hset.symm⟩
  · exact ⟨label, 0, hset.symm⟩

/-- What a queue reading writes: the gauges without a label, and two families that follow it. -/
theorem mem_collectQueue (x : Exporter) (s : QueueStats) (w : Write) :
    w ∈ (x.collectQueueMetrics s).1 ↔ (∃ g : Gauge, w = .set (.queue g, "") (g.read s)) ∨
      w ∈ Exporter.follow .failureCodes x.knownFailureLabels (s.failureCodes.getD Dict.empty) ∨
      w ∈ Exporter.follow .failureTargets x.knownFailureTargets (s.failuresByTarget.getD Dict.empty) := by
  simp only [Exporter.collectQueueMetrics, List.mem_append, or_assoc]
  refine or_congr_left ⟨fun h => ?_, fun h => ?_⟩
  · simp only [List.mem_cons, List.not_mem_nil, or_false] at h
    rcases h with h | h | h | h | h | h | h <;> exact ⟨_, h⟩
  · obtain ⟨g, hset⟩ := h
    cases g <;> simp [hset]

theorem expected_queue {x : Exporter} (h : ∀ key, r.get? key = expected base log key)
    (hcodes : ∀ label, label ∈ x.knownFailureLabels ↔ label ∈ reported .failureCodes log)
    (htargets : ∀ label, label ∈ x.knownFailureTargets ↔ label ∈ reported .failureTargets log) (s : QueueStats)
    (key : Sample) :
    (Write.applyAll r (x.collectQueueMetrics s).1).get? key = expected base (.queue s :: log) key := by
  have hmem := mem_collectQueue x s
  have hcases : ∀ w ∈ (x.collectQueueMetrics s).1, (∃ g : Gauge, w = .set (.queue g, "") (g.read s)) ∨
      (∃ label value, w = .set (.mirror .failureCodes, label) value) ∨
      ∃ label value, w = .set (.mirror .failureTargets, label) value := by
    intro w hw
    rcases (hmem w).mp hw with hgauge | hcode | htarget
    · exact .inl hgauge
    · exact .inr (.inl (follow_key hcode))
    · exact .inr (.inr (follow_key htarget))
  have hsets : ∀ w ∈ (x.collectQueueMetrics s).1, ∃ value, w = .set w.key value := by
    intro w hw
    rcases hcases w hw with ⟨g, rfl⟩ | ⟨label, value, rfl⟩ | ⟨label, value, rfl⟩ <;> exact ⟨_, rfl⟩
  have hother : ∀ family label, (∀ g, family ≠ .queue g) → family ≠ .mirror .failureCodes →
      family ≠ .mirror .failureTargets →
      (Write.applyAll r (x.collectQueueMetrics s).1).get? (family, label) = expected base log (family, label) := by
    intro family label hgauge hcode htarget
    rw [Write.get?_applyAll_ne r, h]
    intro w hw hkey
    rcases hcases w hw with ⟨g, rfl⟩ | ⟨label', value, rfl⟩ | ⟨label', value, rfl⟩
    · exact hgauge g (congrArg Prod.fst hkey).symm
    · exact hcode (congrArg Prod.fst hkey).symm
    · exact htarget (congrArg Prod.fst hkey).symm
  obtain ⟨family, label⟩ := key
  cases family with
  | redisConnected => simp [hother, expected, Entry.budget?]
  | budgetSessionKeys => simp [hother, expected, Entry.budget?]
  | sessionKeyChurn => simp [hother, expected, churn]
  | collectionErrors => simp [hother, expected, failures]
  | queue g =>
    by_cases hlabel : label = ""
    · subst hlabel
      rw [Write.get?_applyAll_set r ((hmem _).mpr (.inl ⟨g, rfl⟩))]
      · simp [expected, Entry.queue?, List.findSome?_cons]
      · intro w hw hkey
        rcases hcases w hw with ⟨g', rfl⟩ | ⟨label', value, rfl⟩ | ⟨label', value, rfl⟩
        · cases hkey
          rfl
        · cases hkey
        · cases hkey
    · rw [Write.get?_applyAll_ne r, h]
      · simp [expected, hlabel]
      · intro w hw hkey
        rcases hcases w hw with ⟨g', rfl⟩ | ⟨label', value, rfl⟩ | ⟨label', value, rfl⟩
        · exact hlabel (congrArg Prod.snd hkey).symm
        · cases hkey
        · cases hkey
  | mirror m =>
    cases m with
    | failureCodes =>
      refine expected_mirror rfl h hcodes (fun label value => ?_) hsets label
      rw [hmem, mem_follow, mem_follow]
      simp
    | failureTargets =>
      refine expected_mirror rfl h htargets (fun label value => ?_) hsets label
      rw [hmem, mem_follow, mem_follow]
      simp
    | providerSuccess => rw [hother _ _ (by simp) (by simp) (by simp), expected_mirror_none rfl]
    | providerFailure => rw [hother _ _ (by simp) (by simp) (by simp), expected_mirror_none rfl]
    | providerSimulated => rw [hother _ _ (by simp) (by simp) (by simp), expected_mirror_none rfl]

/-- The number of an entry that a provider family shows. -/
def Mirror.count (stats : ProviderStats) : Mirror → ℚ
  | .providerSuccess => (stats.success : Nat)
  | .providerFailure => (stats.failure : Nat)
  | .providerSimulated => (stats.simulated : Nat)
  | _ => 0

def Mirror.ofProvider (m : Mirror) : Prop := m = .providerSuccess ∨ m = .providerFailure ∨ m = .providerSimulated

theorem Mirror.snapshot_provider {m : Mirror} (hm : m.ofProvider) (s : ProviderMetricsRecorder.HealthSummary) :
    m.snapshot (.provider s) = some (s.targets.mapValues fun stats => m.count stats) := by
  rcases hm with rfl | rfl | rfl <;> rfl

/-- What a provider reading writes: for each target, and each target it lacks, three gauges. -/
theorem mem_collectProvider (x : Exporter) (s : ProviderMetricsRecorder.HealthSummary) (w : Write) :
    w ∈ (x.collectProviderMetrics s).1 ↔
      (∃ m target stats, Mirror.ofProvider m ∧ s.targets.get? target = some stats ∧
        w = .set (.mirror m, target) (m.count stats)) ∨
      ∃ m target, Mirror.ofProvider m ∧ target ∈ x.providerSeenTargets ∧ s.targets.get? target = none ∧
        w = .set (.mirror m, target) 0 := by
  have hkeys : ∀ target, target ∉ s.targets.keys ↔ s.targets.get? target = none := by
    intro target
    rw [Dict.mem_keys, not_exists]
    exact Option.eq_none_iff_forall_ne_some.symm
  simp only [Exporter.collectProviderMetrics, Exporter.setProvider, List.mem_append, List.mem_flatMap, List.mem_filter,
    decide_eq_true_eq, hkeys, List.mem_cons, List.not_mem_nil, or_false]
  refine or_congr ⟨fun h => ?_, fun h => ?_⟩ ⟨fun h => ?_, fun h => ?_⟩
  · obtain ⟨e, he, hw⟩ := h
    have hget := Dict.mem_entries.mp (show (e.1, e.2) ∈ s.targets.entries from he)
    rcases hw with hw | hw | hw
    · exact ⟨_, e.1, e.2, .inl rfl, hget, hw⟩
    · exact ⟨_, e.1, e.2, .inr (.inl rfl), hget, hw⟩
    · exact ⟨_, e.1, e.2, .inr (.inr rfl), hget, hw⟩
  · obtain ⟨m, target, stats, hm, hget, hw⟩ := h
    refine ⟨(target, stats), Dict.mem_entries.mpr hget, ?_⟩
    rcases hm with rfl | rfl | rfl
    · exact .inl hw
    · exact .inr (.inl hw)
    · exact .inr (.inr hw)
  · obtain ⟨target, ⟨hseen, hget⟩, hw⟩ := h
    rcases hw with hw | hw | hw
    · exact ⟨_, target, .inl rfl, hseen, hget, hw⟩
    · exact ⟨_, target, .inr (.inl rfl), hseen, hget, hw⟩
    · exact ⟨_, target, .inr (.inr rfl), hseen, hget, hw⟩
  · obtain ⟨m, target, hm, hseen, hget, hw⟩ := h
    refine ⟨target, ⟨hseen, hget⟩, ?_⟩
    rcases hm with rfl | rfl | rfl
    · exact .inl hw
    · exact .inr (.inl hw)
    · exact .inr (.inr hw)

theorem expected_provider {x : Exporter} (h : ∀ key, r.get? key = expected base log key)
    (hseen : ∀ m, Mirror.ofProvider m → ∀ label, label ∈ x.providerSeenTargets ↔ label ∈ reported m log)
    (s : ProviderMetricsRecorder.HealthSummary) (key : Sample) :
    (Write.applyAll r (x.collectProviderMetrics s).1).get? key = expected base (.provider s :: log) key := by
  have hmem := mem_collectProvider x s
  have hcases : ∀ w ∈ (x.collectProviderMetrics s).1,
      ∃ m label value, Mirror.ofProvider m ∧ w = .set (.mirror m, label) value := by
    intro w hw
    rcases (hmem w).mp hw with ⟨m, target, stats, hm, _, hset⟩ | ⟨m, target, hm, _, _, hset⟩ <;>
      exact ⟨m, target, _, hm, hset⟩
  have hother : ∀ family label, (∀ m, Mirror.ofProvider m → family ≠ .mirror m) →
      (Write.applyAll r (x.collectProviderMetrics s).1).get? (family, label) = expected base log (family, label) := by
    intro family label hfamily
    rw [Write.get?_applyAll_ne r, h]
    intro w hw hkey
    obtain ⟨m, label', value, hm, rfl⟩ := hcases w hw
    exact hfamily m hm (congrArg Prod.fst hkey).symm
  have hmirror : ∀ m label, Mirror.ofProvider m →
      (Write.applyAll r (x.collectProviderMetrics s).1).get? (.mirror m, label) =
      expected base (.provider s :: log) (.mirror m, label) := by
    intro m label hm
    refine expected_mirror (Mirror.snapshot_provider hm s) h (hseen m hm) (fun label value => ?_) (fun w hw => ?_) label
    · rw [hmem, Dict.get?_mapValues]
      simp only [Write.set.injEq, Prod.mk.injEq, Family.mirror.injEq, Option.map_eq_some_iff, Option.map_eq_none_iff]
      constructor
      · intro hw
        rcases hw with ⟨m', target, stats, _, hget, ⟨rfl, rfl⟩, rfl⟩ | ⟨m', target, _, hseen', hget, ⟨rfl, rfl⟩, rfl⟩
        · exact .inl ⟨stats, hget, rfl⟩
        · exact .inr ⟨hseen', hget, rfl⟩
      · intro hw
        rcases hw with ⟨stats, hget, rfl⟩ | ⟨hseen', hget, rfl⟩
        · exact .inl ⟨m, label, stats, hm, hget, ⟨rfl, rfl⟩, rfl⟩
        · exact .inr ⟨m, label, hm, hseen', hget, ⟨rfl, rfl⟩, rfl⟩
    · obtain ⟨m', label', value, _, rfl⟩ := hcases w hw
      exact ⟨value, rfl⟩
  obtain ⟨family, label⟩ := key
  cases family with
  | redisConnected => simp [hother, expected, Entry.budget?]
  | budgetSessionKeys => simp [hother, expected, Entry.budget?]
  | sessionKeyChurn => simp [hother, expected, churn]
  | collectionErrors => simp [hother, expected, failures]
  | queue g => simp [hother, expected, Entry.queue?, List.findSome?_cons]
  | mirror m =>
    cases m with
    | failureCodes => rw [hother _ _ (by simp [Mirror.ofProvider]), expected_mirror_none rfl]
    | failureTargets => rw [hother _ _ (by simp [Mirror.ofProvider]), expected_mirror_none rfl]
    | providerSuccess => exact hmirror _ _ (.inl rfl)
    | providerFailure => exact hmirror _ _ (.inr (.inl rfl))
    | providerSimulated => exact hmirror _ _ (.inr (.inr rfl))

end Steps

/-! ### Over all runs -/

/-- The labels an exporter remembers of a family. -/
def Exporter.known (x : Exporter) : Mirror → List String
  | .failureCodes => x.knownFailureLabels
  | .failureTargets => x.knownFailureTargets
  | .providerSuccess | .providerFailure | .providerSimulated => x.providerSeenTargets

/-- The pending writes lead to what the log says, and the exporter knows what it needs of the log. -/
structure Inv (s : State) : Prop where
  shows : ∀ key, (Write.applyAll s.registry s.pending).get? key = expected s.base s.log key
  previous : s.exporter.previousSessionKeys = lastKeys s.log
  known : ∀ m label, label ∈ s.exporter.known m ↔ label ∈ reported m s.log

/-- The steps, one constructor for each way they can go. -/
inductive Step (s : State) : Event → State → Prop where
  | budget (summary : BudgetSummary) (hpending : s.pending = []) : Step s (.readBudget (.ok summary))
      (s.reading (.budget summary) .budget (s.exporter.collectBudgetMetrics summary))
  | queue (stats : QueueStats) (hpending : s.pending = []) : Step s (.readQueue (.ok stats))
      (s.reading (.queue stats) .queue (s.exporter.collectQueueMetrics stats))
  | provider (summary : ProviderMetricsRecorder.HealthSummary) (hpending : s.pending = []) :
      Step s (.readProviders (.ok summary))
        (s.reading (.provider summary) .provider (s.exporter.collectProviderMetrics summary))
  | fail (e : Event) (hpending : s.pending = []) : Step s e s.fail
  | write (w : Write) (t : State) (hpending : s.pending = w :: t.pending) (hregistry : t.registry = w.apply s.registry)
      (hexporter : t.exporter = s.exporter) (hbase : t.base = s.base) (hlog : t.log = s.log) : Step s .write t
  | wait (e : Event) (phase : Phase) (hpending : s.pending = [])
      (hphase : State.pending {s with phase := phase} = []) : Step s e {s with phase := phase}
  | rebuild (hpending : s.pending = []) : Step s .rebuild ⟨s.registry.create, {}, .idle, s.registry.create, []⟩

theorem step_some {e : Event} {s t : State} (h : exporter.step e s = some t) : Step s e t := by
  cases e with
  | readBudget reply =>
    change s.readBudget reply = some t at h
    unfold State.readBudget at h
    split at h
    · rename_i hphase
      have hpending : s.pending = [] := by rw [State.pending, hphase]
      split at h <;> cases h
      · exact .budget _ hpending
      · exact .fail _ hpending
    · cases h
  | readQueue reply =>
    change s.readQueue reply = some t at h
    unfold State.readQueue at h
    split at h
    · rename_i hphase
      have hpending : s.pending = [] := by rw [State.pending, hphase]
      split at h <;> cases h
      · exact .queue _ hpending
      · exact .fail _ hpending
    · cases h
  | readProviders reply =>
    change s.readProviders reply = some t at h
    unfold State.readProviders at h
    split at h
    · rename_i hphase
      have hpending : s.pending = [] := by rw [State.pending, hphase]
      split at h <;> cases h
      · exact .provider _ hpending
      · exact .fail _ hpending
    · cases h
  | write =>
    change s.write = some t at h
    unfold State.write at h
    split at h <;> cases h
    all_goals
      rename_i hphase
      exact .write _ _ (by rw [State.pending, hphase]; rfl) rfl rfl rfl rfl
  | finish =>
    change s.finish = some t at h
    unfold State.finish at h
    split at h <;> cases h
    rename_i hphase
    exact .wait _ .idle (by rw [State.pending, hphase]) rfl
  | stop =>
    change s.stop = some t at h
    unfold State.stop at h
    split at h <;> cases h
    rename_i hphase
    exact .wait _ .stopped (by rw [State.pending, hphase]) rfl
  | rebuild =>
    change s.rebuild = some t at h
    unfold State.rebuild at h
    split at h <;> cases h
    rename_i hphase
    exact .rebuild (by rw [State.pending, hphase])

theorem expected_nil (base : Registry) (key : Sample) : expected base [] key = base.get? key := by
  obtain ⟨family, label⟩ := key
  cases family <;> simp [expected, addTo, churn, failures, reported]

theorem inv_new (r : Registry) : Inv ⟨r, {}, .idle, r, []⟩ where
  shows key := (expected_nil r key).symm
  previous := rfl
  known m _ := by cases m <;> exact Iff.rfl

section Known
variable {m : Mirror} {e : Entry} {known : List String} {log : List Entry}

theorem known_none (h : m.snapshot e = none) (hknown : ∀ label, label ∈ known ↔ label ∈ reported m log)
    (label : String) :
    label ∈ known ↔ label ∈ reported m (e :: log) := by
  rw [reported_none h]
  exact hknown label

theorem known_some {d : Dict String ℚ} (h : m.snapshot e = some d)
    (hknown : ∀ label, label ∈ known ↔ label ∈ reported m log)
    {keys : List String} (hkeys : keys = d.keys) (label : String) :
    label ∈ known ∪ keys ↔ label ∈ reported m (e :: log) := by
  rw [List.mem_union_iff, reported_some h, List.mem_append, hknown, hkeys, or_comm]

end Known

theorem keys_mapValues {α : Type} (d : Dict String α) (f : α → ℚ) : d.keys = (d.mapValues f).keys := by
  simp only [Dict.keys, Dict.mapValues, List.map_map]
  rfl

theorem Step.inv {e : Event} {s t : State} (h : Step s e t) (hs : Inv s) : Inv t := by
  obtain ⟨hshows, hprevious, hknown⟩ := hs
  cases h with
  | budget summary hpending =>
    rw [hpending] at hshows
    exact ⟨fun key => expected_budget hshows hprevious summary key, rfl,
      fun m => known_none (by cases m <;> rfl) (hknown m)⟩
  | queue stats hpending =>
    rw [hpending] at hshows
    refine ⟨fun key => expected_queue hshows (hknown .failureCodes) (hknown .failureTargets) stats key, hprevious,
      fun m => ?_⟩
    cases m with
    | failureCodes => exact known_some rfl (hknown .failureCodes) rfl
    | failureTargets => exact known_some rfl (hknown .failureTargets) rfl
    | providerSuccess => exact known_none rfl (hknown .providerSuccess)
    | providerFailure => exact known_none rfl (hknown .providerFailure)
    | providerSimulated => exact known_none rfl (hknown .providerSimulated)
  | provider summary hpending =>
    rw [hpending] at hshows
    have hseen : ∀ m, Mirror.ofProvider m →
        ∀ label, label ∈ s.exporter.providerSeenTargets ↔ label ∈ reported m s.log := by
      intro m hm
      rcases hm with rfl | rfl | rfl
      · exact hknown .providerSuccess
      · exact hknown .providerFailure
      · exact hknown .providerSimulated
    refine ⟨fun key => expected_provider hshows hseen summary key, hprevious, fun m => ?_⟩
    cases m with
    | failureCodes => exact known_none rfl (hknown .failureCodes)
    | failureTargets => exact known_none rfl (hknown .failureTargets)
    | providerSuccess => exact known_some rfl (hknown .providerSuccess) (keys_mapValues _ _)
    | providerFailure => exact known_some rfl (hknown .providerFailure) (keys_mapValues _ _)
    | providerSimulated => exact known_some rfl (hknown .providerSimulated) (keys_mapValues _ _)
  | fail _ hpending =>
    rw [hpending] at hshows
    exact ⟨fun key => expected_error hshows key, hprevious, fun m => known_none (by cases m <;> rfl) (hknown m)⟩
  | write w t hpending hregistry hexporter hbase hlog =>
    refine ⟨fun key => ?_, ?_, fun m => ?_⟩
    · rw [hregistry, hbase, hlog, ← hshows, hpending, Write.applyAll_cons]
    · rw [hexporter, hlog]
      exact hprevious
    · rw [hexporter, hlog]
      exact hknown m
  | wait _ phase hpending hphase =>
    refine ⟨fun key => ?_, hprevious, hknown⟩
    rw [hphase, ← hshows, hpending]
  | rebuild _ => exact inv_new _

theorem inv_reachable {C : Event → State → Prop} {s : State} (h : exporter.Reachable C s) : Inv s := by
  refine Transition.System.reachable_invariant (fun s hs => ?_) (fun e s t hs _ hstep => (step_some hstep).inv hs) h
  cases hs
  exact inv_new _

/-- **What a scrape finds, at any time**: every sample that is not among the writes still to do
has the value that the readings of the present exporter give it, or else the value it had
when this exporter was made. -/
theorem registry_shows {s : State} (h : exporter.Reachable Transition.anything s) (key : Sample)
    (hsettled : ∀ w ∈ s.pending, w.key ≠ key) : s.registry.get? key = expected s.base s.log key := by
  rw [← (inv_reachable h).shows key, Write.get?_applyAll_ne _ hsettled]

/-- A failure that the second of two cycles no longer reports; the provider summary raises in both. -/
def twoCycles : List Event :=
  let cycle (codes : Dict String ℚ) (writes : Nat) : List Event :=
    [.readBudget (.ok {backend := some "memory", sessionKeys := some 3}), .write, .write,
      .readQueue (.ok {failed := some 2, failureCodes := some codes})] ++
        List.replicate writes .write ++ [.readProviders (.error .timeoutError)]
  cycle (Dict.empty.set "TIMEOUT" 2) 8 ++ cycle Dict.empty 8

theorem registry_shows_twoCycles :
    ∃ s, exporter.run State.fresh twoCycles = some s ∧
      s.registry.get? (.mirror .failureCodes, "TIMEOUT") = expected s.base s.log (.mirror .failureCodes, "TIMEOUT") ∧
      expected s.base s.log (.mirror .failureCodes, "TIMEOUT") = some 0 := by
  have hrun : (exporter.run State.fresh twoCycles).map
      (fun s => (s.pending.map Write.key, expected s.base s.log (.mirror .failureCodes, "TIMEOUT"))) =
        some ([], some 0) := by
    decide +kernel
  obtain ⟨s, hs, hpair⟩ := Option.map_eq_some_iff.mp hrun
  obtain ⟨hpending, hzero⟩ := Prod.mk.inj hpair
  refine ⟨s, hs, registry_shows (Transition.System.run_reachable rfl hs) _ fun w hw => ?_, hzero⟩
  rw [List.map_eq_nil_iff.mp hpending] at hw
  cases hw

end SynQc.Metrics
