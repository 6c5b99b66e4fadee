import Mathlib.Data.List.Dedup
import SynQc.Engine.Run
import SynQc.Library.Lapse
import SynQc.Library.Transition
import SynQc.Storage.Recent

/-! `SessionQubitTracker`: how many qubits the runs of a session used.

A run is recorded in the tracker before it is added to the store, under another lock, so
other runs and reads come in between. The tracker has one entry for a session and drops it
once it was not touched for a TTL, whoever happens to look. What a session is told
(`telemetry_of_runs`) does not depend on who looked and when: it is the sum over its latest
records, back to the first gap of a TTL, and where there are none, the newest run of all. -/
namespace SynQc.Engine

structure QubitUsageSnapshot where
  sessionTotal : Int
  lastRunQubits : Int
  lastUpdated : Time
  deriving DecidableEq

structure SessionQubitTracker where
  ttlSeconds : Int := 3600
  /-- The total and the last run of a session, and when they were stored. -/
  usage : Dict SessionId ((Int × Int) × Time) := Dict.empty

namespace SessionQubitTracker

def evictExpired (now : Time) (t : SessionQubitTracker) : SessionQubitTracker :=
  {t with usage := Lapse.sweep (t.ttlSeconds : Time) now t.usage}

/-- The clock is read for the eviction and again for the entry. -/
def record (evicted now : Time) (sessionId : SessionId) (qubitsUsed : Int) (t : SessionQubitTracker) :
    SessionQubitTracker :=
  let t := t.evictExpired evicted
  let total := (t.usage.get? sessionId).elim 0 fun entry => entry.1.1
  {t with usage := t.usage.set sessionId ((max 0 (total + max qubitsUsed 0), max qubitsUsed 0), now)}

def snapshot (evicted now : Time) (sessionId : SessionId) (t : SessionQubitTracker) :
    QubitUsageSnapshot × SessionQubitTracker :=
  let t := t.evictExpired evicted
  let entry := (t.usage.get? sessionId).getD ((0, 0), now)
  (⟨entry.1.1, entry.1.2, entry.2⟩, t)

structure Health where
  trackedSessions : Nat
  ttlSeconds : Int
  deriving DecidableEq

def health (evicted : Time) (t : SessionQubitTracker) : Health × SessionQubitTracker :=
  let t := t.evictExpired evicted
  (⟨t.usage.size, t.ttlSeconds⟩, t)

end SessionQubitTracker

/-- The demo bounds are constants. -/
structure QubitTelemetry where
  sessionTotalQubits : Int
  lastRunQubits : Option Int
  lastUpdated : Time
  deriving DecidableEq

def getQubitTelemetry (evicted now : Time) (sessionId : SessionId) (store : ExperimentStore)
    (tracker : SessionQubitTracker) : QubitTelemetry × SessionQubitTracker :=
  let (snapshot, tracker) := tracker.snapshot evicted now sessionId
  -- `snapshot.last_run_qubits or None`, and without it the latest stored run
  let lastRunQubits :=
    if snapshot.lastRunQubits = 0 then (store.listRecent 1).head?.map fun recent => recent.qubitsUsed
    else some snapshot.lastRunQubits
  (⟨snapshot.sessionTotal, lastRunQubits, snapshot.lastUpdated⟩, tracker)

/-! ### Runs and reads, one step at a time -/

/-- What the tracker was told of a run. -/
structure Recorded where
  sessionId : SessionId
  qubits : Int
  evicted : Time
  stamped : Time

/-- The tracker and the store, with a log of what each was given, the last first. -/
structure Usage where
  tracker : SessionQubitTracker
  store : ExperimentStore
  /-- The last clock reading. -/
  now : Time
  /-- Runs that are recorded but not in the store yet. -/
  finishing : List RunExperimentResponse := []
  recorded : List Recorded := []
  added : List RunExperimentResponse := []

inductive UsageEvent where
  /-- A run comes to its end and is recorded. -/
  | finish (s : Settings) (i : RunInputs) (req : RunExperimentRequest) (runId : Option RunId) (sessionId : SessionId)
    (evicted now : Time)
  /-- A recorded run is added to the store. -/
  | add (index : Nat)
  /-- A failed job leaves its own entry in the store, with no qubits. -/
  | persistFailure (run : RunExperimentResponse)
  | getQubitTelemetry (sessionId : SessionId) (evicted now : Time)
  | health (evicted : Time)

namespace Usage

def stored (run : RunExperimentResponse) (u : Usage) : Usage :=
  {u with store := u.store.add run, added := u.added ++ [run]}

def finish (s : Settings) (i : RunInputs) (req : RunExperimentRequest) (runId : Option RunId) (sessionId : SessionId)
    (evicted now : Time) (u : Usage) : Option Usage :=
  match runExperiment s i req runId with
  | .error _ => none
  | .ok run =>
    if u.now ≤ evicted ∧ evicted ≤ now then
      some {u with
        tracker := u.tracker.record evicted now sessionId run.qubitsUsed
        now := now
        finishing := run :: u.finishing
        recorded := ⟨sessionId, run.qubitsUsed, evicted, now⟩ :: u.recorded }
    else none

def add (index : Nat) (u : Usage) : Option Usage :=
  (u.finishing[index]?).map fun run => {u with finishing := u.finishing.eraseIdx index}.stored run

def telemetry (sessionId : SessionId) (evicted now : Time) (u : Usage) : Option Usage :=
  if u.now ≤ evicted ∧ evicted ≤ now then
    some {u with tracker := (Engine.getQubitTelemetry evicted now sessionId u.store u.tracker).2, now := now}
  else none

def health (evicted : Time) (u : Usage) : Option Usage :=
  if u.now ≤ evicted then some {u with tracker := (u.tracker.health evicted).2, now := evicted} else none

end Usage

/-- The runs of an API process and the reads of their usage, in any order. The clock does not go back. -/
def usage (ttlSeconds : Int) : Transition.System Usage UsageEvent where
  init u := ∃ maxEntries now, 0 < maxEntries ∧
    u = { tracker := { ttlSeconds := ttlSeconds }, store := { maxEntries := maxEntries }, now := now }
  step
    | .finish s i req runId sessionId evicted now => Usage.finish s i req runId sessionId evicted now
    | .add index => Usage.add index
    | .persistFailure run => fun u => some (u.stored run)
    | .getQubitTelemetry sessionId evicted now => Usage.telemetry sessionId evicted now
    | .health evicted => Usage.health evicted

/-! ### What counts -/

def ofSession (sessionId : SessionId) (recorded : List Recorded) : List Recorded :=
  recorded.filter fun r => decide (r.sessionId = sessionId)

/-- The records that count at a time, of one session's, the last first: back to the first gap of a TTL. -/
def live (ttl : Time) : Time → List Recorded → List Recorded
  | _, [] => []
  | now, r :: older => if now - r.stamped < ttl then r :: live ttl r.evicted older else []

/-- The entry of a session whose records are these. -/
def entryOf : List Recorded → Option ((Int × Int) × Time)
  | [] => none
  | r :: older => some ((((r :: older).map Recorded.qubits).sum, r.qubits), r.stamped)

theorem mem_live {ttl now : Time} {recorded : List Recorded} {r : Recorded} (h : r ∈ live ttl now recorded) :
    r ∈ recorded := by
  induction recorded generalizing now with
  | nil => exact h
  | cons first older ih =>
    rw [live] at h
    split at h
    · rcases List.mem_cons.mp h with rfl | h
      · exact List.mem_cons_self
      · exact List.mem_cons_of_mem _ (ih h)
    · cases h

theorem ofSession_cons (sessionId : SessionId) (r : Recorded) (recorded : List Recorded) :
    ofSession sessionId (r :: recorded) =
      if r.sessionId = sessionId then r :: ofSession sessionId recorded else ofSession sessionId recorded := by
  simp only [ofSession, List.filter_cons, decide_eq_true_eq]

theorem mem_ofSession {sessionId : SessionId} {recorded : List Recorded} {r : Recorded} :
    r ∈ ofSession sessionId recorded ↔ r ∈ recorded ∧ r.sessionId = sessionId := by
  rw [ofSession, List.mem_filter, decide_eq_true_eq]

/-- What an entry holds as its total. -/
theorem total_entryOf (recorded : List Recorded) :
    ((entryOf recorded).elim 0 fun entry => entry.1.1) = (recorded.map Recorded.qubits).sum := by
  cases recorded <;> rfl

theorem sum_nonneg {recorded : List Recorded} (h : ∀ r ∈ recorded, 1 ≤ r.qubits) :
    0 ≤ (recorded.map Recorded.qubits).sum := by
  refine List.sum_nonneg fun n hn => ?_
  obtain ⟨r, hr, rfl⟩ := List.mem_map.mp hn
  exact (by decide : (0 : Int) ≤ 1).trans (h r hr)

/-! ### The tracker -/

namespace SessionQubitTracker

variable {t : SessionQubitTracker} {evicted now later : Time} {sessionId other : SessionId} {qubitsUsed : Int}

theorem young_evictExpired (t : SessionQubitTracker) (sessionId : SessionId) (hle : evicted ≤ later) :
    Lapse.young (t.ttlSeconds : Time) later ((t.evictExpired evicted).usage.get? sessionId) =
      Lapse.young (t.ttlSeconds : Time) later (t.usage.get? sessionId) :=
  Lapse.alike_sweep _ _ _ later hle sessionId

theorem get?_record : (t.record evicted now sessionId qubitsUsed).usage.get? other =
    if sessionId = other then
      some ((max 0
        ((Lapse.young (t.ttlSeconds : Time) evicted (t.usage.get? sessionId)).elim 0 (fun entry => entry.1.1) +
        max qubitsUsed 0), max qubitsUsed 0), now)
    else (t.evictExpired evicted).usage.get? other := by
  rw [record, Dict.get?_set, ← Lapse.get?_sweep]
  rfl

end SessionQubitTracker

/-- A run uses a qubit at least. -/
theorem qubitsUsed_pos {s : Settings} {i : RunInputs} {req : RunExperimentRequest} {runId : Option RunId}
    {run : RunExperimentResponse} (h : runExperiment s i req runId = .ok run) : 1 ≤ run.qubitsUsed := by
  unfold runExperiment at h
  split at h
  · cases h
  · unfold execute at h
    simp only at h
    split at h
    · cases h
    · split at h
      · cases h
      · cases h
        exact le_max_left _ _

/-- The entries, as far as they are young, and the store are what the log makes of them. -/
structure Tracks (ttlSeconds : Int) (u : Usage) : Prop where
  ttl : u.tracker.ttlSeconds = ttlSeconds
  entries : ∀ sessionId later, u.now ≤ later →
    Lapse.young (ttlSeconds : Time) later (u.tracker.usage.get? sessionId) =
      entryOf (live ttlSeconds later (ofSession sessionId u.recorded))
  positive : ∀ r ∈ u.recorded, 1 ≤ r.qubits
  store : ∃ maxEntries, 0 < maxEntries ∧ u.store = u.added.foldl ExperimentStore.add { maxEntries := maxEntries }

namespace Tracks
variable {ttlSeconds : Int} {u u' : Usage}

theorem stored (h : Tracks ttlSeconds u) (finishing : List RunExperimentResponse) (run : RunExperimentResponse) :
    Tracks ttlSeconds ({u with finishing := finishing}.stored run) := by
  obtain ⟨maxEntries, hpos, hstore⟩ := h.store
  refine ⟨h.ttl, h.entries, h.positive, maxEntries, hpos, ?_⟩
  simp only [Usage.stored, List.foldl_append, List.foldl_cons, List.foldl_nil, hstore]

/-- A look at the tracker, which sweeps it. -/
theorem look (h : Tracks ttlSeconds u) {evicted now : Time} (hevicted : u.now ≤ evicted) (hnow : evicted ≤ now) :
    Tracks ttlSeconds {u with tracker := u.tracker.evictExpired evicted, now := now} := by
  refine ⟨h.ttl, fun sessionId later hlater => ?_, h.positive, h.store⟩
  have hyoung := SessionQubitTracker.young_evictExpired u.tracker sessionId (hnow.trans hlater)
  rw [h.ttl] at hyoung
  exact hyoung.trans (h.entries sessionId later (hevicted.trans (hnow.trans hlater)))

theorem finish (h : Tracks ttlSeconds u) {s : Settings} {i : RunInputs} {req : RunExperimentRequest}
    {runId : Option RunId} {sessionId : SessionId} {evicted now : Time}
    (hstep : u.finish s i req runId sessionId evicted now = some u') : Tracks ttlSeconds u' := by
  rw [Usage.finish] at hstep
  split at hstep
  · cases hstep
  · rename_i run hrun
    split at hstep
    · rename_i hclock
      cases hstep
      have hqubits := qubitsUsed_pos hrun
      refine ⟨h.ttl, fun other later hlater => ?_, fun r hr => ?_, h.store⟩
      · simp only at hlater ⊢
        rw [SessionQubitTracker.get?_record, ofSession_cons, h.ttl, h.entries sessionId evicted hclock.1, total_entryOf]
        have hlive : ∀ r ∈ live ttlSeconds evicted (ofSession sessionId u.recorded), 1 ≤ r.qubits :=
          fun r hr => h.positive r (mem_ofSession.mp (mem_live hr)).1
        have hsum := sum_nonneg hlive
        by_cases hother : sessionId = other
        · subst hother
          rw [if_pos rfl, if_pos rfl, max_eq_left (by omega : (0 : Int) ≤ run.qubitsUsed), max_eq_right (by omega),
            Lapse.young_some, live]
          split
          · rw [entryOf, List.map_cons, List.sum_cons, Int.add_comm]
          · rfl
        · have hevict := SessionQubitTracker.young_evictExpired u.tracker other (hclock.2.trans hlater)
          rw [h.ttl] at hevict
          rw [if_neg hother, if_neg hother, hevict]
          exact h.entries other later (hclock.1.trans (hclock.2.trans hlater))
      · rcases List.mem_cons.mp hr with rfl | hr
        · exact hqubits
        · exact h.positive r hr
    · cases hstep

theorem step (h : Tracks ttlSeconds u) {e : UsageEvent} (hstep : (usage ttlSeconds).step e u = some u') :
    Tracks ttlSeconds u' := by
  cases e with
  | finish s i req runId sessionId evicted now => exact h.finish hstep
  | add index =>
    obtain ⟨run, _, rfl⟩ := Option.map_eq_some_iff.mp hstep
    exact h.stored _ run
  | persistFailure run =>
    cases hstep
    exact h.stored _ run
  | getQubitTelemetry sessionId evicted now =>
    obtain ⟨hclock, hsome⟩ := Option.ite_none_right_eq_some.mp hstep
    cases hsome
    exact h.look hclock.1 hclock.2
  | health evicted =>
    obtain ⟨hclock, hsome⟩ := Option.ite_none_right_eq_some.mp hstep
    cases hsome
    exact h.look hclock (le_refl evicted)

end Tracks

theorem tracks_reachable {ttlSeconds : Int} {u : Usage} (h : (usage ttlSeconds).Reachable Transition.anything u) :
    Tracks ttlSeconds u := by
  refine Transition.System.reachable_invariant (fun u hu => ?_) (fun e u u' hu _ hstep => hu.step hstep) h
  obtain ⟨maxEntries, now, hpos, rfl⟩ := hu
  exact ⟨rfl, fun _ _ _ => rfl, fun r hr => absurd hr List.not_mem_nil, maxEntries, hpos, rfl⟩

/-! ### What a session is told -/

theorem empty_first (maxEntries : Nat) :
    (({ maxEntries := maxEntries } : ExperimentStore).listRecent 1).head? = none := by
  have hnil : newestFirst (fun run : RunExperimentResponse => run.createdAt) [] = [] :=
    List.Perm.eq_nil (newestFirst_perm _ _)
  have hrecent : ({ maxEntries := maxEntries } : ExperimentStore).recent 1 =
    (newestFirst (fun run => run.createdAt) []).take 1 := rfl
  rw [ExperimentStore.listRecent, hrecent, hnil]
  rfl

/-- The first of a listing is the newest run that was ever added. -/
theorem newest_first {maxEntries : Nat} (hpos : 0 < maxEntries) {added : List RunExperimentResponse}
    (hids : (added.map fun run => run.id).Nodup) (hsome : added ≠ []) :
    ∃ run ∈ added, (∀ other ∈ added, other.createdAt ≤ run.createdAt) ∧
      ((added.foldl ExperimentStore.add { maxEntries := maxEntries }).listRecent 1).head? = some run.summary := by
  have hnewest := ExperimentStore.newest_adds { maxEntries := maxEntries } rfl hids
  generalize added.foldl ExperimentStore.add { maxEntries := maxEntries } = store at hnewest ⊢
  have hperm := newestFirst_perm (fun run => run.createdAt) store.runs.values
  have hsorted := newestFirst_pairwise (fun run => run.createdAt) store.runs.values
  have hlength := hperm.length_eq
  have hadded : 0 < added.length := List.length_pos_iff.mpr hsome
  have hrecent : store.recent 1 = (newestFirst (fun run => run.createdAt) store.runs.values).take 1 := rfl
  cases hlisted : newestFirst (fun run => run.createdAt) store.runs.values with
  | nil =>
    rw [hlisted, hnewest.length, List.length_nil] at hlength
    exact absurd hlength (by show 0 ≠ min maxEntries added.length; omega)
  | cons run older =>
    rw [hlisted] at hperm hsorted hrecent
    have hkept : run ∈ store.runs.values := hperm.mem_iff.mp List.mem_cons_self
    refine ⟨run, hnewest.mem_added hkept, fun other hother => ?_, ?_⟩
    · by_cases hmem : other ∈ store.runs.values
      · rcases List.mem_cons.mp (hperm.mem_iff.mpr hmem) with rfl | hmem
        · exact le_refl _
        · exact (List.pairwise_cons.mp hsorted).1 other hmem
      · exact hnewest.le_of_dropped hother hmem hkept
    · rw [ExperimentStore.listRecent, hrecent]
      rfl

section Reads
variable {ttlSeconds : Int} {u : Usage} {evicted now : Time}

/-- The entry that a read finds. -/
theorem Tracks.entry (h : Tracks ttlSeconds u) (hclock : u.now ≤ evicted) (sessionId : SessionId) :
    (u.tracker.evictExpired evicted).usage.get? sessionId =
      entryOf (live ttlSeconds evicted (ofSession sessionId u.recorded)) := by
  rw [← h.entries sessionId evicted hclock, ← h.ttl]
  exact Lapse.get?_sweep _ _ _ _

/-- The sessions with a record that counts. -/
def liveSessions (ttl now : Time) (recorded : List Recorded) : List SessionId :=
  (recorded.map Recorded.sessionId).dedup.filter fun sessionId => !(live ttl now (ofSession sessionId recorded)).isEmpty

theorem Tracks.tracked (h : Tracks ttlSeconds u) (hclock : u.now ≤ evicted) :
    (u.tracker.health evicted).1.trackedSessions = (liveSessions ttlSeconds evicted u.recorded).length := by
  refine Lapse.size_eq_length ((List.nodup_dedup _).filter _) fun sessionId => ?_
  rw [h.entry hclock, liveSessions, List.mem_filter, List.mem_dedup]
  cases hlive : live ttlSeconds evicted (ofSession sessionId u.recorded) with
  | nil => simp [entryOf]
  | cons r older =>
    have hr : r ∈ ofSession sessionId u.recorded := mem_live (hlive ▸ List.mem_cons_self)
    have hsession : sessionId ∈ u.recorded.map Recorded.sessionId :=
      List.mem_map.mpr ⟨r, (mem_ofSession.mp hr).1, (mem_ofSession.mp hr).2⟩
    simp [entryOf, hsession]

/-- **Whatever ran and whoever looked before, a session is told the sum over its records that
count and the last of them; without any, nothing in sum and, if no two runs were stored under one id, the newest run
ever stored. A health check counts the sessions that have any.** -/
theorem telemetry_of_runs (h : (usage ttlSeconds).Reachable Transition.anything u) (hclock : u.now ≤ evicted)
    (now : Time) (sessionId : SessionId) :
    let records := live ttlSeconds evicted (ofSession sessionId u.recorded)
    let told := (getQubitTelemetry evicted now sessionId u.store u.tracker).1
    told.sessionTotalQubits = (records.map Recorded.qubits).sum ∧
      (∀ r ∈ records.head?, told.lastRunQubits = some r.qubits ∧ told.lastUpdated = r.stamped) ∧
      (records = [] → told.lastUpdated = now ∧ (u.added = [] → told.lastRunQubits = none) ∧
        (u.added ≠ [] → (u.added.map fun run => run.id).Nodup →
          ∃ run ∈ u.added, (∀ other ∈ u.added, other.createdAt ≤ run.createdAt) ∧
            told.lastRunQubits = some run.qubitsUsed)) ∧
      (u.tracker.health evicted).1.trackedSessions = (liveSessions ttlSeconds evicted u.recorded).length := by
  have htracks := tracks_reachable h
  obtain ⟨maxEntries, hpos, hstore⟩ := htracks.store
  have hentry := htracks.entry hclock sessionId
  intro records told
  have htold : told = (getQubitTelemetry evicted now sessionId u.store u.tracker).1 := rfl
  have hrecords : records = live ttlSeconds evicted (ofSession sessionId u.recorded) := rfl
  rw [← hrecords] at hentry
  simp only [getQubitTelemetry, SessionQubitTracker.snapshot, hentry] at htold
  have hhealth := htracks.tracked hclock
  cases hlive : records with
  | nil =>
    rw [hlive] at htold
    refine ⟨by rw [htold]; rfl, fun r hr => (Option.not_mem_none r hr).elim,
      fun _ => ⟨by rw [htold]; rfl, fun hnone => ?_, fun hsome hids => ?_⟩,
      hhealth⟩
    · rw [htold, hstore, hnone]
      exact congrArg (Option.map fun recent : ExperimentSummary => recent.qubitsUsed) (empty_first maxEntries)
    · obtain ⟨run, hmem, hnewest, hfirst⟩ := newest_first hpos hids hsome
      refine ⟨run, hmem, hnewest, ?_⟩
      rw [htold, hstore, hfirst]
      rfl
  | cons r older =>
    rw [hlive] at htold
    have hr : r ∈ records := hlive ▸ List.mem_cons_self
    have hqubits := htracks.positive r (mem_ofSession.mp (mem_live hr)).1
    have hne : r.qubits ≠ 0 := by omega
    refine ⟨by rw [htold]; rfl, fun first hfirst => ?_, fun hnone => (List.cons_ne_nil _ _ hnone).elim, hhealth⟩
    obtain rfl := Option.some.inj hfirst
    rw [htold]
    exact ⟨if_neg hne, rfl⟩

end Reads

/-- Session 7 runs, and again after more than a minute. -/
def secondRun (s : Settings) : List UsageEvent :=
  let req : RunExperimentRequest := { preset := .health, hardwareTarget := .simLocal, shotBudget := some 10 }
  let finish (runId : RunId) (now : Time) : UsageEvent := .finish s (plainInputs none) req (some runId) 7 now now
  [finish 1 1, .add 0, .health 30, finish 2 100]

theorem telemetry_of_runs_afterGap :
    ∃ u, (usage 60).run { tracker := { ttlSeconds := 60 }, store := {}, now := 0 } (secondRun {}) = some u ∧
      (getQubitTelemetry 150 150 7 u.store u.tracker).1.sessionTotalQubits =
        ((live 60 150 (ofSession 7 u.recorded)).map Recorded.qubits).sum ∧
      (live 60 150 (ofSession 7 u.recorded)).length = 1 ∧ (ofSession 7 u.recorded).length = 2 := by
  have hrun : ((usage 60).run { tracker := { ttlSeconds := 60 }, store := {}, now := 0 } (secondRun {})).map (fun u =>
      (u.now, (live 60 150 (ofSession 7 u.recorded)).length, (ofSession 7 u.recorded).length)) = some (100, 1, 2) := by
    decide +kernel
  obtain ⟨u, hu, hfacts⟩ := Option.map_eq_some_iff.mp hrun
  simp only [Prod.mk.injEq] at hfacts
  obtain ⟨hnow, hlive, hall⟩ := hfacts
  have hreachable := Transition.System.run_reachable (S := usage 60) ⟨512, 0, by decide, rfl⟩ hu
  have hclock : u.now ≤ 150 := by
    rw [hnow]
    decide +kernel
  have htold := telemetry_of_runs hreachable hclock 150 7
  exact ⟨u, hu, htold.1, hlive, hall⟩

end SynQc.Engine
