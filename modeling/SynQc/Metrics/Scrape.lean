import SynQc.Jobs.Queue
import SynQc.Metrics.Exporter

/-! What a scrape tells about the embedded queue.

The exporter's thread and the queue run side by side: the queue goes on while the gauges are
set one after another, and a scrape may come between any two steps. The failure counters of
the queue only grow and no code leaves them, so the gauges are never ahead of the queue, and
once a reading is written out they are the numbers of FAILED records at the moment it was
taken (`scrape_sound`), whichever exporter took it. -/
namespace SynQc.Metrics

open Jobs (JobStatus)

/-- `EmbeddedRunQueue.stats`: no failures by target are kept here. -/
def embeddedStats (cfg : Jobs.Config) (maxWorkers : Nat) (now : Time) (q : Jobs.Queue) : QueueStats :=
  let stats := q.stats cfg now
  { total := some (stats.total : Nat)
    queued := some (stats.queued : Nat)
    running := some (stats.running : Nat)
    succeeded := some (stats.succeeded : Nat)
    failed := some (stats.failed : Nat)
    oldestQueuedAge := stats.oldestQueuedAge
    maxWorkers := some (maxWorkers : Nat)
    failureCodes := some (stats.failureCodes.mapValues fun n => ((n : Nat) : ℚ))
    failuresByTarget := some Dict.empty }

structure Monitored where
  queue : Jobs.Queue
  exporter : State
  /-- The queue as it was last read. -/
  read : Jobs.Queue

inductive MonitoredEvent (ι : Type) where
  | queue (e : Jobs.Event ι)
  | readQueue (now : Time)
  | exporter (e : Event)

namespace Monitored

def readQueue (cfg : Jobs.Config) (maxWorkers : Nat) (now : Time) (s : Monitored) : Option Monitored :=
  (s.exporter.readQueue (.ok (embeddedStats cfg maxWorkers now s.queue))).map fun x => ⟨s.queue, x, s.queue⟩

/-- The other steps of the exporter. -/
def exporterStep (e : Event) (s : Monitored) : Option Monitored :=
  match e with
  | .readQueue _ => none
  | e => (Metrics.exporter.step e s.exporter).map fun x => {s with exporter := x}

end Monitored

/-- The embedded queue with its exporters. -/
def monitored {ι : Type} (fn : Jobs.WorkerFn ι) (cfg : Jobs.Config) (maxWorkers : Nat) :
    Transition.System Monitored (MonitoredEvent ι) where
  init s := (Jobs.queue fn cfg).init s.queue ∧ exporter.init s.exporter ∧ s.read = s.queue
  step
    | .queue e => fun s => ((Jobs.queue fn cfg).step e s.queue).map fun q => {s with queue := q}
    | .readQueue now => Monitored.readQueue cfg maxWorkers now
    | .exporter e => Monitored.exporterStep e

/-! ### The counters only grow -/

/-- How often a failure was counted. -/
def failureCount (q : Jobs.Queue) (label : String) : Nat := (q.failureCounts.get? label).getD 0

theorem failureCount_change {q u : Jobs.Queue} (h : Jobs.Change q u) (label : String) :
    failureCount q label ≤ failureCount u label := by
  unfold failureCount
  cases h with
  | same _ counts => rw [counts]
  | touch _ _ _ counts => rw [counts]
  | move _ _ _ _ _ _ _ _ counts =>
    rw [counts, Jobs.count_get]
    exact Nat.le_add_right _ _
  | new _ _ _ _ _ _ counts => rw [counts]

section Queue
variable {ι : Type} {fn : Jobs.WorkerFn ι} {cfg : Jobs.Config} {q u : Jobs.Queue}

theorem failureCount_leads (hq : Jobs.Counted q) (h : (Jobs.queue fn cfg).Leads Transition.anything q u)
    (label : String) :
    failureCount q label ≤ failureCount u label := by
  refine Transition.System.leads_relation (I := Jobs.Counted)
    (R := fun q u => ∀ label, failureCount q label ≤ failureCount u label)
    (fun _ _ _ hq _ hstep => Jobs.counted_change hq (Jobs.step_change hq.ok hstep)) (fun _ _ => Nat.le_refl _)
    (fun _ _ _ hqr hru label => (hqr label).trans (hru label))
    (fun _ _ _ hq _ hstep => failureCount_change (Jobs.step_change hq.ok hstep)) h hq label

end Queue

/-! ### The invariant -/

/-- The gauges of the queue that are numbers of its records. -/
def recordCount (q : Jobs.Queue) : Gauge → Option Nat
  | .total => some q.jobs.size
  | .queued => some (q.withStatus .queued)
  | .running => some (q.withStatus .running)
  | .succeeded => some (q.withStatus .succeeded)
  | .failed => some (q.withStatus .failed)
  | .oldestAge | .maxWorkers => none

/-- A write of a failure code puts it at what was read, or below. -/
def Below (q : Jobs.Queue) (w : Write) : Prop :=
  ∀ label, w.key = (.mirror .failureCodes, label) →
    ∃ value, w = .set (.mirror .failureCodes, label) value ∧ value ≤ (failureCount q label : Nat)

/-- The log leads to the counts of the queue as it was read, and the registry is not past them. -/
structure Sound {ι : Type} (fn : Jobs.WorkerFn ι) (cfg : Jobs.Config) (s : Monitored) : Prop where
  exporter : Inv s.exporter
  reached : (Jobs.queue fn cfg).Reachable Transition.anything s.read
  since : (Jobs.queue fn cfg).Leads Transition.anything s.read s.queue
  codes : ∀ label, (expected s.exporter.base s.exporter.log (.mirror .failureCodes, label)).getD 0 =
    (failureCount s.read label : Nat)
  gauges : ∀ g n, recordCount s.read g = some n →
    expected s.exporter.base s.exporter.log (.queue g, "") = some ((n : Nat) : ℚ)
  shown : ∀ label value, s.exporter.registry.get? (.mirror .failureCodes, label) = some value →
    value ≤ (failureCount s.read label : Nat)
  pending : ∀ w ∈ s.exporter.pending, Below s.read w

section Steps
variable {ι : Type} {fn : Jobs.WorkerFn ι} {cfg : Jobs.Config} {maxWorkers : Nat} {s : Monitored}

theorem recordCount_stats (q : Jobs.Queue) (now : Time) {g : Gauge} {n : Nat} (h : recordCount q g = some n) :
    g.read (embeddedStats cfg maxWorkers now q) = (n : Nat) := by
  cases g <;> cases h <;> rfl

theorem sound_init (h : (monitored fn cfg maxWorkers).init s) : Sound fn cfg s := by
  obtain ⟨hqueue, hexporter, hread⟩ := h
  have hjobs := hqueue.1
  have hcounts := hqueue.2.1
  have hbase : ∀ label, (Registry.create Dict.empty).get? (.mirror .failureCodes, label) = none := by
    intro label
    rw [Registry.get?_create, if_neg (by simp [unlabelled])]
    rfl
  have hexporter' : s.exporter = ⟨Registry.create Dict.empty, {}, .idle, Registry.create Dict.empty, []⟩ := hexporter
  refine ⟨?_, ?_, ?_, fun label => ?_, fun g n hn => ?_, fun label value hvalue => ?_, fun w hw => ?_⟩
  · rw [hexporter']
    exact inv_new _
  · rw [hread]
    exact ⟨_, hqueue, .refl⟩
  · rw [hread]
    exact .refl
  · rw [hexporter', hread, expected_nil, hbase, failureCount, hcounts]
    rfl
  · rw [hread] at hn
    have hzero : n = 0 := by
      cases g <;> cases hn <;> simp only [Jobs.Queue.withStatus, hjobs] <;> rfl
    have hcreated : (Family.queue g, "") ∈ unlabelled.map fun family => (family, "") := by
      cases g <;> simp [unlabelled]
    rw [hexporter', expected_nil, Registry.get?_create, if_pos hcreated, hzero]
    rfl
  · rw [hexporter', hbase] at hvalue
    cases hvalue
  · rw [hexporter'] at hw
    cases hw

theorem sound_queue (h : Sound fn cfg s) {e : Jobs.Event ι} {q : Jobs.Queue}
    (hstep : (Jobs.queue fn cfg).step e s.queue = some q) :
    Sound fn cfg {s with queue := q} where
  exporter := h.exporter
  reached := h.reached
  since := h.since.tail ⟨e, trivial, hstep⟩
  codes := h.codes
  gauges := h.gauges
  shown := h.shown
  pending := h.pending

/-- A reading takes the counts of the present queue. -/
theorem sound_read (h : Sound fn cfg s) (now : Time) (hpending : s.exporter.pending = []) :
    Sound fn cfg ⟨s.queue, s.exporter.reading (.queue (embeddedStats cfg maxWorkers now s.queue)) .queue
      (s.exporter.exporter.collectQueueMetrics (embeddedStats cfg maxWorkers now s.queue)), s.queue⟩ := by
  have hcounted := Jobs.counted_reachable h.reached
  have hgrows := failureCount_leads hcounted h.since
  have hget : ∀ label, (((embeddedStats cfg maxWorkers now s.queue).failureCodes.getD Dict.empty).get? label).getD 0 =
      (failureCount s.queue label : Nat) := by
    intro label
    simp only [embeddedStats, Option.getD_some, Jobs.Queue.stats, Dict.get?_mapValues, failureCount]
    cases s.queue.failureCounts.get? label <;> simp
  refine ⟨(Step.queue _ hpending).inv h.exporter, h.reached.trans h.since, .refl, fun label => ?_, fun g n hn => ?_,
    fun label value hvalue => ?_, fun w hw label hkey => ?_⟩
  · change (expected _ (.queue _ :: _) _).getD 0 = _
    rw [expected_mirror_some (m := .failureCodes) rfl]
    split
    · exact hget label
    · rename_i hnot
      have hnone := (mem_keys_iff _ label).mp (not_or.mp hnot).1
      have hzero := hget label
      have hgrow := hgrows label
      have hold := h.codes label
      rw [hnone, Option.getD_none] at hzero
      have hnow : failureCount s.queue label = 0 := by exact_mod_cast hzero.symm
      have hthen : failureCount s.read label = 0 := by omega
      exact hold.trans (by rw [hthen, hnow])
  · change expected _ (.queue _ :: _) _ = _
    simp [expected, Entry.queue?, recordCount_stats s.queue now hn]
  · have hle : ((failureCount s.read label : Nat) : ℚ) ≤ (failureCount s.queue label : Nat) := by
      exact_mod_cast hgrows label
    exact (h.shown label value hvalue).trans hle
  · have hw' := (mem_collectQueue s.exporter.exporter (embeddedStats cfg maxWorkers now s.queue) w).mp hw
    rcases hw' with ⟨g, rfl⟩ | hcode | htarget
    · cases hkey
    · obtain ⟨label', value, rfl⟩ := follow_key hcode
      cases hkey
      refine ⟨value, rfl, ?_⟩
      rcases ((mem_follow _ _ _ _ _ _).mp hcode).2 with hvalue | ⟨_, _, hzero⟩
      · have hcount := hget label
        rw [hvalue, Option.getD_some] at hcount
        exact le_of_eq hcount
      · rw [hzero]
        exact Nat.cast_nonneg _
    · obtain ⟨label', value, rfl⟩ := follow_key htarget
      cases hkey

/-- A reading of something else says nothing about the queue. -/
theorem sound_reading (h : Sound fn cfg s) {entry : Entry} {phase : List Write → Phase} {result : List Write × Exporter}
    (hinv : Inv (s.exporter.reading entry phase result)) (hcodes : Mirror.failureCodes.snapshot entry = none)
    (hqueue : entry.queue? = none) (hphase : (s.exporter.reading entry phase result).pending = result.1)
    (hwrites : ∀ w ∈ result.1, ∀ label, w.key ≠ (.mirror .failureCodes, label)) :
    Sound fn cfg {s with exporter := s.exporter.reading entry phase result} := by
  refine ⟨hinv, h.reached, h.since, fun label => ?_, fun g n hn => ?_, h.shown, fun w hw label hkey => ?_⟩
  · change (expected _ (entry :: _) _).getD 0 = _
    rw [expected_mirror_none hcodes]
    exact h.codes label
  · have hold := h.gauges g n hn
    change expected _ (entry :: _) _ = _
    simp only [expected, List.findSome?_cons, hqueue] at hold ⊢
    exact hold
  · rw [hphase] at hw
    exact absurd hkey (hwrites w hw label)

theorem sound_step (h : Sound fn cfg s) {e : Event} {x : State} (hother : ∀ reply, e ≠ .readQueue reply)
    (hstep : Step s.exporter e x) : Sound fn cfg {s with exporter := x} := by
  have hinv := hstep.inv h.exporter
  cases hstep with
  | budget summary hpending =>
    refine sound_reading h hinv rfl rfl rfl fun w hw label hkey => ?_
    rw [Exporter.collectBudget_writes] at hw
    rcases List.mem_append.mp hw with hw | hw
    · simp only [List.mem_cons, List.not_mem_nil, or_false] at hw
      rcases hw with rfl | rfl <;> cases hkey
    · split at hw
      · rw [List.mem_singleton.mp hw] at hkey
        cases hkey
      · cases hw
  | queue stats hpending => exact absurd rfl (hother _)
  | provider summary hpending =>
    refine sound_reading h hinv rfl rfl rfl fun w hw label hkey => ?_
    rcases (mem_collectProvider _ _ w).mp hw with ⟨m, target, stats, hm, _, rfl⟩ | ⟨m, target, hm, _, _, rfl⟩
    all_goals
      cases hkey
      rcases hm with hm | hm | hm <;> cases hm
  | fail _ hpending =>
    refine ⟨hinv, h.reached, h.since, fun label => ?_, fun g n hn => ?_, fun label value hvalue => ?_, fun w hw => ?_⟩
    · change (expected _ (.error :: _) _).getD 0 = _
      rw [expected_mirror_none rfl]
      exact h.codes label
    · have hold := h.gauges g n hn
      change expected _ (.error :: _) _ = _
      simp only [expected, List.findSome?_cons, Entry.queue?] at hold ⊢
      exact hold
    · change ((Write.inc (.collectionErrors, "") 1).apply _).get? _ = _ at hvalue
      rw [Write.get?_apply_ne _ (by simp [Write.key])] at hvalue
      exact h.shown label value hvalue
    · cases hw
  | write w x hpending hregistry hexporter hbase hlog =>
    have hbelow : Below s.read w := h.pending w (by rw [hpending]; exact List.mem_cons_self)
    refine ⟨hinv, h.reached, h.since, fun label => ?_, fun g n hn => ?_, fun label value hvalue => ?_, fun w' hw' => ?_⟩
    · change (expected x.base x.log _).getD 0 = _
      rw [hbase, hlog]
      exact h.codes label
    · change expected x.base x.log _ = _
      rw [hbase, hlog]
      exact h.gauges g n hn
    · change x.registry.get? _ = _ at hvalue
      rw [hregistry] at hvalue
      by_cases hkey : w.key = (.mirror .failureCodes, label)
      · obtain ⟨value', rfl, hle⟩ := hbelow label hkey
        rw [Write.get?_set, if_pos rfl] at hvalue
        cases hvalue
        exact hle
      · rw [Write.get?_apply_ne _ hkey] at hvalue
        exact h.shown label value hvalue
    · exact h.pending w' (by rw [hpending]; exact List.mem_cons_of_mem _ hw')
  | wait _ phase hpending hphase =>
    refine ⟨hinv, h.reached, h.since, h.codes, h.gauges, h.shown, fun w hw => ?_⟩
    change w ∈ State.pending {s.exporter with phase := phase} at hw
    rw [hphase] at hw
    cases hw
  | rebuild hpending =>
    have hshows := h.exporter.shows
    rw [hpending] at hshows
    have hkept : ∀ label, s.exporter.registry.create.get? (.mirror .failureCodes, label) =
        s.exporter.registry.get? (.mirror .failureCodes, label) := by
      intro label
      rw [Registry.get?_create, if_neg (by simp [unlabelled])]
    refine ⟨hinv, h.reached, h.since, fun label => ?_, fun g n hn => ?_, fun label value hvalue => ?_, fun w hw => ?_⟩
    · change (expected _ [] _).getD 0 = _
      rw [expected_nil, hkept]
      exact (congrArg (fun v => v.getD 0) (hshows (.mirror .failureCodes, label))).trans (h.codes label)
    · have hcreated : (Family.queue g, "") ∈ unlabelled.map fun family => (family, "") := by
        cases g <;> simp [unlabelled]
      change expected _ [] _ = _
      rw [expected_nil, Registry.get?_create, if_pos hcreated]
      have hold := (hshows (.queue g, "")).trans (h.gauges g n hn)
      rw [Write.applyAll_nil] at hold
      rw [hold]
      rfl
    · change s.exporter.registry.create.get? _ = _ at hvalue
      rw [hkept] at hvalue
      exact h.shown label value hvalue
    · cases hw

theorem sound_next {e : MonitoredEvent ι} {t : Monitored} (h : Sound fn cfg s)
    (hstep : (monitored fn cfg maxWorkers).step e s = some t) : Sound fn cfg t := by
  cases e with
  | queue e =>
    obtain ⟨q, hq, rfl⟩ := Option.map_eq_some_iff.mp hstep
    exact sound_queue h hq
  | readQueue now =>
    obtain ⟨x, hx, rfl⟩ := Option.map_eq_some_iff.mp hstep
    unfold State.readQueue at hx
    split at hx
    · rename_i hphase
      cases hx
      exact sound_read h now (by rw [State.pending, hphase])
    · cases hx
  | exporter e =>
    change Monitored.exporterStep e s = some t at hstep
    unfold Monitored.exporterStep at hstep
    split at hstep
    · cases hstep
    · rename_i hother
      obtain ⟨x, hx, rfl⟩ := Option.map_eq_some_iff.mp hstep
      exact sound_step h hother (step_some hx)

theorem sound_reachable {C : MonitoredEvent ι → Monitored → Prop} (h : (monitored fn cfg maxWorkers).Reachable C s) :
    Sound fn cfg s :=
  Transition.System.reachable_invariant (fun _ => sound_init) (fun _ _ _ hs _ hstep => sound_next hs hstep) h

/-- **A scrape of the embedded queue is sound**: at any time the gauge of a failure code is at
most the number of jobs that FAILED with it; and when no write of the queue's gauges is to be
done, those of the failure codes and those that count jobs are exact for one state that the
queue has been in. -/
theorem scrape_sound (h : (monitored fn cfg maxWorkers).Reachable Transition.anything s) :
    (∀ code : ErrorCode,
      (s.exporter.registry.get? (.mirror .failureCodes, code.value)).getD 0 ≤ (s.queue.failedWith code : Nat)) ∧
    ((∀ w ∈ s.exporter.pending, (∀ g, w.key.1 ≠ .queue g) ∧ w.key.1 ≠ .mirror .failureCodes) →
      ∃ q, (Jobs.queue fn cfg).Reachable Transition.anything q ∧
        (Jobs.queue fn cfg).Leads Transition.anything q s.queue ∧
        (∀ code : ErrorCode, (s.exporter.registry.get? (.mirror .failureCodes, code.value)).getD 0 =
          (q.failedWith code : Nat)) ∧
        ∀ g n, recordCount q g = some n → s.exporter.registry.get? (.queue g, "") = some ((n : Nat) : ℚ)) := by
  have hs := sound_reachable h
  have hread := Jobs.counted_reachable hs.reached
  have hqueue := Jobs.counted_reachable (hs.reached.trans hs.since)
  refine ⟨fun code => ?_, fun hsettled => ⟨s.read, hs.reached, hs.since, fun code => ?_, fun g n hn => ?_⟩⟩
  · rw [← hqueue.codes code]
    cases hget : s.exporter.registry.get? (.mirror .failureCodes, code.value) with
    | none => exact Nat.cast_nonneg _
    | some value =>
      have hgrows : ((failureCount s.read code.value : Nat) : ℚ) ≤ (failureCount s.queue code.value : Nat) := by
        exact_mod_cast failureCount_leads hread hs.since code.value
      exact (hs.shown code.value value hget).trans hgrows
  · have hsame := Write.get?_applyAll_ne s.exporter.registry fun w hw hkey =>
      (hsettled w hw).2 (congrArg Prod.fst (show w.key = (.mirror .failureCodes, code.value) from hkey))
    rw [← hread.codes code, ← hsame, hs.exporter.shows]
    exact hs.codes code.value
  · have hsame := Write.get?_applyAll_ne s.exporter.registry fun w hw hkey =>
      (hsettled w hw).1 g (congrArg Prod.fst (show w.key = (.queue g, "") from hkey))
    rw [← hsame, hs.exporter.shows]
    exact hs.gauges g n hn

end Steps

/-- A job is cancelled, and a cycle reads the queue. -/
def cancelledThenRead : List (MonitoredEvent Unit) :=
  Jobs.earlyCancel.map .queue ++ [.exporter (.readBudget (.ok {backend := some "memory"})), .exporter .write,
    .exporter .write, .readQueue 5] ++ List.replicate 8 (.exporter .write)

theorem scrape_sound_cancelled :
    ∃ s, (monitored Jobs.idleWorker {} 1).run
        ⟨Jobs.emptyQueue, State.fresh, Jobs.emptyQueue⟩
        cancelledThenRead = some s ∧
      (s.exporter.registry.get? (.mirror .failureCodes, ErrorCode.cancelled.value)).getD 0 = 1 ∧
      (s.exporter.registry.get? (.mirror .failureCodes, ErrorCode.cancelled.value)).getD 0 ≤
        (s.queue.failedWith .cancelled : Nat) ∧
      ∃ q, (Jobs.queue Jobs.idleWorker {}).Reachable Transition.anything q ∧
        s.exporter.registry.get? (.queue .failed, "") = some ((q.withStatus .failed : Nat) : ℚ) := by
  have hrun : ((monitored Jobs.idleWorker {} 1).run
      ⟨Jobs.emptyQueue, State.fresh, Jobs.emptyQueue⟩
      cancelledThenRead).map (fun s => (s.exporter.pending.length,
        (s.exporter.registry.get? (.mirror .failureCodes, ErrorCode.cancelled.value)).getD 0)) =
          some (0, 1) := by decide +kernel
  obtain ⟨s, hs, hends⟩ := Option.map_eq_some_iff.mp hrun
  obtain ⟨hpending, hone⟩ := Prod.mk.inj hends
  have hinit : (monitored Jobs.idleWorker {} 1).init ⟨Jobs.emptyQueue, State.fresh, Jobs.emptyQueue⟩ :=
    ⟨⟨rfl, rfl, rfl, rfl, rfl, rfl⟩, rfl, rfl⟩
  obtain ⟨hbelow, hexact⟩ := scrape_sound (Transition.System.run_reachable hinit hs)
  obtain ⟨q, hq, -, -, hgauges⟩ := hexact fun w hw => by
    rw [List.eq_nil_of_length_eq_zero hpending] at hw
    cases hw
  exact ⟨s, hs, hone, hbelow .cancelled, q, hq, hgauges .failed _ rfl⟩

end SynQc.Metrics
