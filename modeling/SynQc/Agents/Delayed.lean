import SynQc.Agents.Service
import SynQc.Library.SortedSet

/-! The delayed jobs of a queue: `schedule_delayed` and `pump_delayed`.

`pump_delayed` pops the least entry of the sorted set before it knows if that is due, and puts it back if it
is not. With no one else at the two keys that is as good as having looked first: a call moves the first due
entries, as many as the limit allows, to the end of what will be dequeued, and changes nothing else
(`pumpDelayed_releases`). A worker of the service whose pump is not interrupted does the same to its queue
(`pump_represents`). -/
namespace SynQc.Agents
open SortedSet (idOf scoreOf)

/-- The two keys of a queue: the list, its left end first, and the sorted set. -/
structure QueueKeys (ι : Type*) [LinearOrder ι] where
  list : List ι
  delayed : SortedSet ι Time

namespace QueueKeys
variable {ι : Type*} [LinearOrder ι]

/-- `LPUSH` -/
def enqueue (id : ι) (q : QueueKeys ι) : QueueKeys ι := {q with list := id :: q.list}

/-- `BRPOP`; `none` when the time to block is over. -/
def dequeue (q : QueueKeys ι) : Option (ι × QueueKeys ι) :=
  q.list.getLast?.map fun id => (id, {q with list := q.list.dropLast})

def scheduleDelayed (id : ι) (now delaySeconds : Time) (q : QueueKeys ι) : QueueKeys ι :=
  {q with delayed := q.delayed.add id (now + delaySeconds)}

/-- The loop of `pump_delayed`, with the turns that are left and the number moved so far. -/
def pumpFrom (now : Time) : ℕ → ℕ → QueueKeys ι → ℕ × QueueKeys ι
  | 0, moved, q => (moved, q)
  | left + 1, moved, q =>
    match q.delayed.popMin with
    | none => (moved, q)
    | some (popped, rest) =>
      if scoreOf popped > now then (moved, {q with delayed := rest.add (idOf popped) (scoreOf popped)})
      else pumpFrom now left (moved + 1) (enqueue (idOf popped) {q with delayed := rest})

/-- What `pump_delayed` returns, and the keys after it. `range` of a negative limit is empty. -/
def pumpDelayed (limit : ℤ) (now : Time) (q : QueueKeys ι) : ℕ × QueueKeys ι := pumpFrom now limit.toNat 0 q

def queueDepth (q : QueueKeys ι) : ℕ := q.list.length

def delayedDepth (q : QueueKeys ι) : ℕ := q.delayed.entries.length

/-! ### The order of dequeuing -/

theorem dequeue_eq_some_iff {q q' : QueueKeys ι} {id : ι} :
    q.dequeue = some (id, q') ↔ q.list = q'.list ++ [id] ∧ q'.delayed = q.delayed := by
  rw [dequeue, Option.map_eq_some_iff]
  constructor
  · intro h
    obtain ⟨last, hlast, h⟩ := h
    obtain ⟨rfl, rfl⟩ := Prod.mk.inj h
    exact ⟨(List.dropLast_append_getLast? _ hlast).symm, rfl⟩
  · intro h
    obtain ⟨hlist, hdelayed⟩ := h
    refine ⟨id, by rw [hlist, List.getLast?_concat], ?_⟩
    rw [hlist, List.dropLast_concat, ← hdelayed]

theorem dequeue_eq_none_iff {q : QueueKeys ι} : q.dequeue = none ↔ q.list = [] := by
  rw [dequeue, Option.map_eq_none_iff, List.getLast?_eq_none_iff]

/-- What dequeuing gives until nothing is left. -/
def drain (q : QueueKeys ι) : List ι :=
  match _h : q.dequeue with
  | none => []
  | some (id, rest) => id :: drain rest
termination_by q.list.length
decreasing_by
  rw [(dequeue_eq_some_iff.mp _h).1, List.length_append]
  exact Nat.lt_succ_self _

/-- The list is dequeued from its right end. -/
theorem drain_eq (q : QueueKeys ι) : q.drain = q.list.reverse := by
  fun_induction drain q with
  | case1 q hnone => rw [dequeue_eq_none_iff.mp hnone, List.reverse_nil]
  | case2 q id rest hsome ih =>
    rw [(dequeue_eq_some_iff.mp hsome).1, List.reverse_append, List.reverse_singleton, List.singleton_append, ih]

/-! ### What a call moves -/

/-- The entries that a call with this limit releases. -/
def released (limit : ℕ) (now : Time) (q : QueueKeys ι) : List (Time ×ₗ ι) := (q.delayed.upTo now).take limit

theorem pumpFrom_releases (now : Time) (left moved : ℕ) (q : QueueKeys ι) :
    (pumpFrom now left moved q).1 = moved + (q.released left now).length ∧
      (pumpFrom now left moved q).2.list = ((q.released left now).map idOf).reverse ++ q.list ∧
      q.delayed.entries = q.released left now ++ (pumpFrom now left moved q).2.delayed.entries := by
  induction left generalizing moved q with
  | zero => simp [pumpFrom, released]
  | succ left ih =>
    rw [pumpFrom]
    cases hpop : q.delayed.popMin with
    | none => simp [released, SortedSet.upTo_of_none hpop]
    | some popped =>
      obtain ⟨e, rest⟩ := popped
      dsimp only
      split_ifs with hearly
      · rw [SortedSet.add_of_popMin hpop]
        simp [released, SortedSet.upTo_of_lt hpop hearly]
      · have hreleased : q.released (left + 1) now =
            e :: released left now (enqueue (idOf e) {q with delayed := rest}) := by
          rw [released, SortedSet.upTo_of_le hpop (not_lt.mp hearly), List.take_succ_cons]
          rfl
        obtain ⟨hmoved, hlist, hentries⟩ := ih (moved + 1) (enqueue (idOf e) {q with delayed := rest})
        rw [hreleased]
        refine ⟨?_, ?_, ?_⟩
        · rw [hmoved, List.length_cons]
          omega
        · rw [hlist, List.map_cons, List.reverse_cons, List.append_assoc]
          rfl
        · rw [SortedSet.popMin_eq_some_iff.mp hpop, List.cons_append]
          exact congrArg (e :: ·) hentries

/-- **A call releases exactly the due jobs**, as many of the first as the limit allows: they are dequeued in
their order after everything that was ready, and every other entry is as before. -/
theorem pumpDelayed_releases (limit : ℤ) (now : Time) (q : QueueKeys ι) :
    (q.pumpDelayed limit now).1 = min limit.toNat (q.delayed.upTo now).length ∧
      (q.pumpDelayed limit now).2.drain = q.drain ++ ((q.delayed.upTo now).take limit.toNat).map idOf ∧
      q.delayed.entries =
        (q.delayed.upTo now).take limit.toNat ++ (q.pumpDelayed limit now).2.delayed.entries := by
  obtain ⟨hmoved, hlist, hentries⟩ := pumpFrom_releases now limit.toNat 0 q
  refine ⟨?_, ?_, hentries⟩
  · rw [pumpDelayed, hmoved, Nat.zero_add, released, List.length_take]
  · rw [drain_eq, drain_eq, pumpDelayed, hlist, List.reverse_append, List.reverse_reverse, released]

/-- No job is lost or doubled. -/
theorem pumpDelayed_depth (limit : ℤ) (now : Time) (q : QueueKeys ι) :
    (q.pumpDelayed limit now).2.queueDepth + (q.pumpDelayed limit now).2.delayedDepth =
      q.queueDepth + q.delayedDepth := by
  obtain ⟨-, hlist, hentries⟩ := pumpFrom_releases now limit.toNat 0 q
  rw [delayedDepth, delayedDepth, hentries, queueDepth, queueDepth, pumpDelayed, hlist]
  simp only [List.length_append, List.length_reverse, List.length_map]
  omega

/-- A scheduled job is due when its delay is over, whatever was scheduled for it before. -/
theorem scheduleDelayed_due_iff {id : ι} {scheduled delaySeconds now : Time} {q : QueueKeys ι} :
    id ∈ ((q.scheduleDelayed id scheduled delaySeconds).delayed.upTo now).map idOf ↔
      scheduled + delaySeconds ≤ now := by
  simp only [scheduleDelayed, SortedSet.upTo, List.mem_map, List.mem_filter, SortedSet.mem_add, decide_eq_true_iff]
  constructor
  · intro h
    obtain ⟨e, ⟨rfl | ⟨_, hne⟩, hdue⟩, hid⟩ := h
    · exact hdue
    · exact absurd hid hne
  · intro hdue
    exact ⟨toLex (scheduled + delaySeconds, id), ⟨.inl rfl, hdue⟩, rfl⟩

end QueueKeys

/-! ### In the service -/

theorem queueKey_ne_delayedKey (queue : QueueName) : queueKey queue ≠ delayedKey queue := by
  intro heq
  have hlength := congrArg String.length heq
  rw [delayedKey_eq, queueKey, queueKey, String.length_append, String.length_append, String.length_append] at hlength
  have hmore : 0 < ":delayed".length := by decide
  omega

/-- The keys of a queue, as the service's Redis has them: its list has the next id to pop first. -/
structure Represents (q : QueueKeys JobId) (queue : QueueName) (r : Redis) : Prop where
  ready : r.ready queue = q.list.reverse
  delayed : ∀ id due, (r.delayed queue).get? id = some due ↔ toLex (due, id) ∈ q.delayed.entries
  list : (r.kept (queueKey queue)).isZset = false
  zset : (r.kept (delayedKey queue)).isList = false

namespace Represents
variable {q : QueueKeys JobId} {queue : QueueName} {r : Redis} {rest : SortedSet JobId Time} {e : Time ×ₗ JobId}

theorem values_eq_nil (h : Represents q queue r) (hnone : q.delayed.popMin = none) :
    (r.delayed queue).values = [] := by
  refine List.eq_nil_iff_forall_not_mem.mpr fun due hdue => ?_
  obtain ⟨id, hget⟩ := Dict.get?_of_mem_values hdue
  rw [h.delayed, SortedSet.popMin_eq_none_iff.mp hnone] at hget
  cases hget

/-- The service may pop the entry that the sorted set does. -/
theorem zpopmin (h : Represents q queue r) (hpop : q.delayed.popMin = some (e, rest)) :
    ∃ r', r.zpopmin queue (idOf e) = some (scoreOf e, r') ∧ Represents {q with delayed := rest} queue r' := by
  have hentries := SortedSet.popMin_eq_some_iff.mp hpop
  have hget : (r.delayed queue).get? (idOf e) = some (scoreOf e) := by
    rw [h.delayed, hentries]
    exact List.mem_cons_self
  have hleast : ∀ other ∈ (r.delayed queue).values, scoreOf e ≤ other := by
    intro other hother
    obtain ⟨id, hid⟩ := Dict.get?_of_mem_values hother
    rw [h.delayed, hentries, List.mem_cons] at hid
    obtain heq | hrest := hid
    · rw [← heq]
      exact le_rfl
    · exact Prod.Lex.monotone_fst_ofLex (SortedSet.lt_of_popMin hpop hrest).le
  obtain ⟨r', hr⟩ : ∃ r', r' =
      ({r with queues := r.queues.set (delayedKey queue) (.zset ((r.delayed queue).erase (idOf e)))} : Redis) := ⟨_, rfl⟩
  have hlist : r'.kept (queueKey queue) = r.kept (queueKey queue) := by
    rw [Redis.kept_set (congrArg Redis.queues hr), if_neg (queueKey_ne_delayedKey queue).symm]
  have hzset := Redis.kept_set (congrArg Redis.queues hr) (delayedKey queue)
  rw [if_pos rfl] at hzset
  refine ⟨r', ?_, ?_, fun id due => ?_, by rw [hlist]; exact h.list, by rw [hzset]; rfl⟩
  · rw [Redis.zpopmin, hget, hr]
    exact if_pos hleast
  · rw [Redis.ready, hlist]
    exact h.ready
  · rw [Redis.delayed, hzset, Kept.scores_zset, Dict.get?_erase]
    split_ifs with hid
    · refine iff_of_false not_false fun hmem => ?_
      exact SortedSet.ne_of_popMin hpop hmem hid.symm
    · rw [h.delayed, hentries, List.mem_cons, or_iff_right]
      intro heq
      exact hid (congrArg idOf heq).symm

theorem push (h : Represents q queue r) (id : JobId) :
    ∃ r', r.push queue id = some r' ∧ Represents (q.enqueue id) queue r' := by
  obtain ⟨r', hpush⟩ : ∃ r', r.push queue id = some r' := by
    rw [Redis.push, h.list]
    exact ⟨_, rfl⟩
  obtain ⟨_, hr⟩ := Redis.push_some hpush
  have hlist := Redis.kept_set (congrArg Redis.queues hr) (queueKey queue)
  rw [if_pos rfl] at hlist
  have hzset : r'.kept (delayedKey queue) = r.kept (delayedKey queue) := by
    rw [Redis.kept_set (congrArg Redis.queues hr), if_neg (queueKey_ne_delayedKey queue)]
  refine ⟨r', hpush, ?_, fun id due => ?_, by rw [hlist]; rfl, by rw [hzset]; exact h.zset⟩
  · rw [Redis.ready, hlist, Kept.ids_list, h.ready]
    exact List.reverse_cons.symm
  · rw [Redis.delayed, hzset]
    exact h.delayed id due

theorem zadd (h : Represents q queue r) (id : JobId) (due : Time) :
    ∃ r', r.zadd queue id due = some r' ∧ Represents {q with delayed := q.delayed.add id due} queue r' := by
  obtain ⟨r', hadd⟩ : ∃ r', r.zadd queue id due = some r' := by
    rw [Redis.zadd, h.zset]
    exact ⟨_, rfl⟩
  obtain ⟨_, hr⟩ := Redis.zadd_some hadd
  have hlist : r'.kept (queueKey queue) = r.kept (queueKey queue) := by
    rw [Redis.kept_set (congrArg Redis.queues hr), if_neg (queueKey_ne_delayedKey queue).symm]
  have hzset := Redis.kept_set (congrArg Redis.queues hr) (delayedKey queue)
  rw [if_pos rfl] at hzset
  refine ⟨r', hadd, ?_, fun id' due' => ?_, by rw [hlist]; exact h.list, by rw [hzset]; rfl⟩
  · rw [Redis.ready, hlist]
    exact h.ready
  rw [Redis.delayed, hzset, Kept.scores_zset, Dict.get?_set, SortedSet.mem_add]
  split_ifs with hid
  · subst hid
    rw [Option.some.injEq]
    constructor
    · rintro rfl
      exact .inl rfl
    · intro hentry
      obtain heq | ⟨_, hne⟩ := hentry
      · exact (congrArg scoreOf heq).symm
      · exact absurd rfl hne
  · rw [h.delayed]
    constructor
    · intro hmem
      exact .inr ⟨hmem, Ne.symm hid⟩
    · intro hentry
      obtain heq | ⟨hmem, _⟩ := hentry
      · exact absurd (congrArg idOf heq).symm hid
      · exact hmem

end Represents

/-- The steps of a worker's pump. -/
def Pumps (w : Nat) : Event → State → Prop
  | .zpopmin w' _, _ => w' = w
  | .put w', _ => w' = w
  | .endPump w', _ => w' = w
  | _, _ => False

section Worker
variable (cfg : Config) {w : Nat} {seat : Seat} {now : Time} {left : ℕ} {s : State} {q : QueueKeys JobId}

theorem endPump_leads (hphase : s.worker w = .pumping seat now left)
    (hend : left = 0 ∨
      (s.redis.delayed seat.queue).values = [] ∧ (s.redis.kept (delayedKey seat.queue)).isList = false) :
    (service cfg).Leads (Pumps w) s (s.setWorker w (.waiting seat)) := by
  refine .single ⟨.endPump w, rfl, ?_⟩
  show s.endPump w = _
  rw [State.endPump, hphase]
  exact if_pos hend

/-- A pop and what follows it: the entry goes back and the pump is over, or it goes to the ready list. -/
theorem popped_leads {id : JobId} {score : Time} {r readded pushed : Redis}
    (hphase : s.worker w = .pumping seat now (left + 1)) (hpop : s.redis.zpopmin seat.queue id = some (score, r))
    (hadd : r.zadd seat.queue id score = some readded) (hpush : r.push seat.queue id = some pushed) :
    ∃ t, (service cfg).Leads (Pumps w) s t ∧
      if score > now then t.worker w = .waiting seat ∧ t.redis = readded
      else t.worker w = .pumping seat now left ∧ t.redis = pushed := by
  let u := {s with redis := r}.setWorker w (.popped seat now left id score)
  have hu : (service cfg).step (.zpopmin w id) s = some u := by
    show s.zpopmin w id = some u
    simp only [State.zpopmin, hphase, hpop, u]
  have hput : (service cfg).step (.put w) u = u.put w := rfl
  have hredis : u.redis = r := rfl
  rw [State.put, worker_setWorker] at hput
  dsimp only at hput
  rw [hredis, hadd, hpush] at hput
  split_ifs at hput ⊢
  · exact ⟨_, .head ⟨.zpopmin w id, rfl, hu⟩ (.single ⟨.put w, rfl, hput⟩), worker_setWorker _ _ _, rfl⟩
  · exact ⟨_, .head ⟨.zpopmin w id, rfl, hu⟩ (.single ⟨.put w, rfl, hput⟩), worker_setWorker _ _ _, rfl⟩

/-- **A worker that pumps with no one else in between** leaves its queue as `pump_delayed` does. -/
theorem pump_represents (moved : ℕ) (hphase : s.worker w = .pumping seat now left)
    (h : Represents q seat.queue s.redis) :
    ∃ t, (service cfg).Leads (Pumps w) s t ∧ t.worker w = .waiting seat ∧
      Represents (QueueKeys.pumpFrom now left moved q).2 seat.queue t.redis := by
  induction left generalizing s q moved with
  | zero => exact ⟨_, endPump_leads cfg hphase (.inl rfl), worker_setWorker _ _ _, h⟩
  | succ left ih =>
    rw [QueueKeys.pumpFrom]
    cases hpop : q.delayed.popMin with
    | none => exact ⟨_, endPump_leads cfg hphase (.inr ⟨h.values_eq_nil hpop, h.zset⟩), worker_setWorker _ _ _, h⟩
    | some popped =>
      obtain ⟨e, rest⟩ := popped
      obtain ⟨r, hr, hrest⟩ := h.zpopmin hpop
      obtain ⟨readded, hadd, hreadded⟩ := hrest.zadd (idOf e) (scoreOf e)
      obtain ⟨pushed, hpush, hpushed⟩ := hrest.push (idOf e)
      obtain ⟨u, hu, hput⟩ := popped_leads cfg hphase hr hadd hpush
      dsimp only
      split_ifs at hput ⊢ with hearly
      · refine ⟨u, hu, hput.1, ?_⟩
        rw [hput.2]
        exact hreadded
      · rw [← hput.2] at hpushed
        obtain ⟨t, ht, hwaiting, hrepresents⟩ := ih (moved + 1) hput.1 hpushed
        exact ⟨t, hu.trans ht, hwaiting, hrepresents⟩

end Worker

end SynQc.Agents
