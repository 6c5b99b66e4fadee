import Mathlib.Data.List.Infix
import SynQc.Library.Roster
import SynQc.Models

/-! The agent service's job store and queues: what is kept in Redis.

A job is a hash, written by `create_job` as a whole and then field by field. JSON texts
are stored and read as they are. A queue is a list of ids, pushed on the left and popped
on the right, with a sorted set of the ids whose time has not come; here a list has the
next id to pop first. The keys of both are made from the queue's name, and the sorted set
of one queue can have the key of another's list. Ids are uuids, so natural numbers. Nothing
expires. -/
namespace SynQc.Agents

abbrev JobId := Nat
abbrev QueueName := String

/-- A Python `str`. A lone surrogate has no UTF-8 form and no place in a `String`; it is shown
as U+FFFD here. -/
structure PyStr where
  text : String
  lone : Bool := false
  deriving DecidableEq

/-- `str.encode("utf-8")`, or nothing where it raises. -/
def PyStr.encode (s : PyStr) : Option String := if s.lone then none else some s.text

inductive JobStatus where
  | queued
  | running
  | succeeded
  | failed
  | cancelled
  deriving DecidableEq, Repr

def JobStatus.terminal : JobStatus → Bool
  | .succeeded | .failed | .cancelled => true
  | _ => false

structure JobErrorInfo where
  code : String
  message : String
  details : Detail := Dict.empty

/-- A `synqc:job:<id>` hash, and with its id what `get_job` returns of it. -/
structure JobHash where
  agent : String
  status : JobStatus := .queued
  createdAt : Time
  startedAt : Option Time := none
  finishedAt : Option Time := none
  attempts : Nat := 0
  maxAttempts : Int := 3
  runInput : String
  result : Option String := none
  error : Option JobErrorInfo := none
  cancelRequested : Bool := false

/-- The updates of a hash that job store functions make, one `HSET` each. -/
inductive Write where
  | updateStatus (status : JobStatus) (started finished : Bool)
  | setResult (resultJson : String)
  | setError (info : JobErrorInfo)

namespace Write

def apply (now : Time) : Write → JobHash → JobHash
  | .updateStatus status started finished, h =>
    {h with
      status := status
      startedAt := if started then some now else h.startedAt
      finishedAt := if finished then some now else h.finishedAt}
  | .setResult resultJson, h => {h with result := some resultJson}
  | .setError info, h => {h with error := some info}

/-- Whether the write ends the job. -/
def closes : Write → Bool
  | .updateStatus status _ _ => status.terminal
  | _ => false

/-- Whether the write leaves the status alone. -/
def quiet : Write → Bool
  | .updateStatus .. => false
  | _ => true

/-- A last update of the status after `set_result` or `set_error`. -/
def ends : List Write → Bool
  | [] => false
  | [w] => w.closes
  | w :: rest => w.quiet && ends rest

end Write

/-! ### Queues -/

/-- What is at a key of a queue. With nothing in it the key is not there, and free for either type. -/
inductive Kept where
  | list (ids : List JobId)
  | zset (scores : Dict JobId Time)

instance : Inhabited Kept := ⟨.list []⟩

namespace Kept

def ids : Kept → List JobId
  | .list ids => ids
  | .zset _ => []

def scores : Kept → Dict JobId Time
  | .list _ => Dict.empty
  | .zset scores => scores

@[simp] theorem ids_list (ids : List JobId) : (list ids).ids = ids := rfl

@[simp] theorem scores_zset (scores : Dict JobId Time) : (zset scores).scores = scores := rfl

def isList (k : Kept) : Bool := k.ids ≠ []

def isZset (k : Kept) : Bool := k.scores.values ≠ []

theorem ids_of_not_list {k : Kept} (h : k.isList = false) : k.ids = [] := not_not.mp (of_decide_eq_false h)

theorem get?_of_not_zset {k : Kept} (h : k.isZset = false) (id : JobId) : k.scores.get? id = none := by
  have hempty : k.scores.values = [] := not_not.mp (of_decide_eq_false h)
  cases hget : k.scores.get? id with
  | none => rfl
  | some score =>
    have hmem := List.mem_map_of_mem (f := Prod.snd) (Dict.mem_entries.mpr hget)
    change score ∈ k.scores.values at hmem
    rw [hempty] at hmem
    cases hmem

theorem scores_of_ids {k : Kept} {id : JobId} {rest : List JobId} (h : k.ids = id :: rest) : k.scores = Dict.empty := by
  cases k with
  | list ids => rfl
  | zset scores => cases h

theorem ids_of_get? {k : Kept} {id : JobId} {score : Time} (h : k.scores.get? id = some score) : k.ids = [] := by
  cases k with
  | list ids => cases h
  | zset scores => rfl

end Kept

/-- `_queue_key` -/
def queueKey (queue : QueueName) : String := "synqc:q:" ++ queue

/-- `_delayed_key` -/
def delayedKey (queue : QueueName) : String := "synqc:q:" ++ queue ++ ":delayed"

/-- The delayed key of a queue is the key of another queue's list. -/
theorem delayedKey_eq (queue : QueueName) : delayedKey queue = queueKey (queue ++ ":delayed") :=
  String.append_assoc

/-- The Redis side of the service. -/
structure Redis where
  jobs : Dict JobId JobHash := Dict.empty
  /-- Idempotency keys. The names of the agents have no colon, so agent and key are the key. -/
  keys : Dict (String × String) JobId := Dict.empty
  /-- What the keys of the queues hold, lists and sorted sets in one name space. -/
  queues : Roster String Kept := Dict.empty

namespace Redis

def kept (r : Redis) (key : String) : Kept := r.queues.phase key

/-- The ready list of a queue. -/
def ready (r : Redis) (queue : QueueName) : List JobId := (r.kept (queueKey queue)).ids

/-- The delayed set of a queue. -/
def delayed (r : Redis) (queue : QueueName) : Dict JobId Time := (r.kept (delayedKey queue)).scores

/-- An `HSET` or `HINCRBY` on a job's hash. Every id in circulation has its hash. -/
def hset (r : Redis) (id : JobId) (f : JobHash → JobHash) : Redis :=
  match r.jobs.get? id with
  | some h => {r with jobs := r.jobs.set id (f h)}
  | none => r

/-- The pipeline of `create_job`. -/
def createJob (id : JobId) (agent runInput : String) (key : Option String) (maxAttempts : Int) (now : Time)
    (r : Redis) : Redis :=
  {r with
    jobs := r.jobs.set id { agent := agent, createdAt := now, maxAttempts := maxAttempts, runInput := runInput }
    keys := match key with
      | some key => r.keys.set (agent, key) id
      | none => r.keys}

/-- `request_cancel` -/
def requestCancel (id : JobId) (r : Redis) : Redis := r.hset id fun h => {h with cancelRequested := true}

/-- What `HINCRBY` of a job's attempts replies. -/
def nextAttempt (r : Redis) (id : JobId) : Nat :=
  match r.jobs.get? id with
  | some h => h.attempts + 1
  | none => 1

/-! The commands on queues. At a key of the other type they fail (`WRONGTYPE`): nothing is returned here. -/

/-- `LPUSH` -/
def push (queue : QueueName) (id : JobId) (r : Redis) : Option Redis :=
  if (r.kept (queueKey queue)).isZset then none
  else some {r with queues := r.queues.set (queueKey queue) (.list (r.ready queue ++ [id]))}

/-- `BRPOP`, which also returns nothing once the time to block is over. -/
def pop (queue : QueueName) (r : Redis) : Option (JobId × Redis) :=
  match r.ready queue with
  | id :: rest => some (id, {r with queues := r.queues.set (queueKey queue) (.list rest)})
  | [] => none

/-- `ZADD` -/
def zadd (queue : QueueName) (id : JobId) (due : Time) (r : Redis) : Option Redis :=
  if (r.kept (delayedKey queue)).isList then none
  else some {r with queues := r.queues.set (delayedKey queue) (.zset ((r.delayed queue).set id due))}

/-- `ZPOPMIN`, of an id with the least score; among equals it is not said here which. -/
def zpopmin (queue : QueueName) (id : JobId) (r : Redis) : Option (Time × Redis) :=
  match (r.delayed queue).get? id with
  | some score =>
    if ∀ other ∈ (r.delayed queue).values, score ≤ other then
      some (score, {r with queues := r.queues.set (delayedKey queue) (.zset ((r.delayed queue).erase id))})
    else none
  | none => none

section Commands
variable {r r' : Redis} {queue : QueueName} {id : JobId}

theorem kept_set {key : String} {k : Kept} (hqueues : r'.queues = r.queues.set key k) (key' : String) :
    r'.kept key' = if key = key' then k else r.kept key' := by
  rw [kept, hqueues, Roster.phase_set]
  rfl

theorem push_some (h : r.push queue id = some r') : (r.kept (queueKey queue)).isZset = false ∧
    r' = {r with queues := r.queues.set (queueKey queue) (.list (r.ready queue ++ [id]))} := by
  simp only [push] at h
  split at h
  · cases h
  · rename_i hlist
    cases h
    exact ⟨Bool.eq_false_iff.mpr hlist, rfl⟩

theorem pop_some (h : r.pop queue = some (id, r')) : ∃ rest, r.ready queue = id :: rest ∧
    r' = {r with queues := r.queues.set (queueKey queue) (.list rest)} := by
  simp only [pop] at h
  split at h
  · rename_i head rest hready
    cases h
    exact ⟨rest, hready, rfl⟩
  · cases h

theorem zadd_some {due : Time} (h : r.zadd queue id due = some r') : (r.kept (delayedKey queue)).isList = false ∧
    r' = {r with queues := r.queues.set (delayedKey queue) (.zset ((r.delayed queue).set id due))} := by
  simp only [zadd] at h
  split at h
  · cases h
  · rename_i hzset
    cases h
    exact ⟨Bool.eq_false_iff.mpr hzset, rfl⟩

theorem zpopmin_some {score : Time} (h : r.zpopmin queue id = some (score, r')) :
    (r.delayed queue).get? id = some score ∧
      r' = {r with queues := r.queues.set (delayedKey queue) (.zset ((r.delayed queue).erase id))} := by
  simp only [zpopmin] at h
  split at h
  · rename_i found hfound
    split at h
    · cases h
      exact ⟨hfound, rfl⟩
    · cases h
  · cases h

theorem push_frame (h : r.push queue id = some r') : r'.jobs = r.jobs ∧ r'.keys = r.keys := by
  obtain ⟨_, rfl⟩ := push_some h
  exact ⟨rfl, rfl⟩

theorem pop_frame (h : r.pop queue = some (id, r')) : r'.jobs = r.jobs ∧ r'.keys = r.keys := by
  obtain ⟨_, _, rfl⟩ := pop_some h
  exact ⟨rfl, rfl⟩

theorem zadd_frame {due : Time} (h : r.zadd queue id due = some r') : r'.jobs = r.jobs ∧ r'.keys = r.keys := by
  obtain ⟨_, rfl⟩ := zadd_some h
  exact ⟨rfl, rfl⟩

theorem zpopmin_frame {score : Time} (h : r.zpopmin queue id = some (score, r')) :
    r'.jobs = r.jobs ∧ r'.keys = r.keys := by
  obtain ⟨_, rfl⟩ := zpopmin_some h
  exact ⟨rfl, rfl⟩

end Commands

end Redis

/-! ### What the functions write -/

/-- The result of a sandbox run, as JSON. -/
def sandboxResult (latencyMs : Int) (payload : String) : String :=
  "\x7b\"sandbox\":\"grover\",\"latency_ms\":" ++ toString latencyMs ++ ",\"payload\":" ++ payload ++ "\x7d"

def sandboxError (latencyMs : Int) (message : String) : JobErrorInfo where
  code := "SANDBOX_ERROR"
  message := message
  details := (Dict.empty.set "sandbox" (.text "grover")).set "latency_ms" (.int latencyMs)

def timeoutError (jobTimeoutSeconds : Int) : JobErrorInfo where
  code := "timeout"
  message := "Job exceeded " ++ toString jobTimeoutSeconds ++ "s and was terminated."

def workerError : JobErrorInfo where
  code := "worker_error"
  message := "Worker finished without returning a result."

/-- `int(job.max_attempts or 3)` -/
def maxAttempts (h : JobHash) : Int := if h.maxAttempts = 0 then 3 else h.maxAttempts

/-- `min(60.0, float(2 ** (attempt - 1)))`, a whole number of seconds. -/
def retryDelay (attempt : Nat) : Nat := min 60 (2 ^ (attempt - 1))

def retryError (attempt : Nat) (max : Int) (errType message : String) : JobErrorInfo where
  code := "retry_scheduled"
  message := "Transient error; retrying in " ++ toString (retryDelay attempt) ++ ".0s (attempt " ++
    toString attempt ++ "/" ++ toString max ++ ")."
  details := (Dict.empty.set "err_type" (.text errType)).set "message" (.text message)

def agentFailed (errType message traceback : String) : JobErrorInfo where
  code := "agent_failed"
  message := message
  details := (Dict.empty.set "err_type" (.text errType)).set "traceback" (.text traceback)

/-- `_is_transient_error` -/
def isTransientError (errType message : String) : Bool :=
  let markers := ["Timeout", "timed out", "temporarily unavailable", "connection reset", "connection refused",
    "503", "429"]
  let blob := (errType ++ ": " ++ message).toLower
  markers.any fun marker => decide (marker.toLower.toList <:+: blob.toList)

end SynQc.Agents
