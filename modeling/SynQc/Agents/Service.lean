import SynQc.Agents.Store
import SynQc.Library.Transition

/-! The agent service: `run_agent` calls, cancels and `process_one` workers on one Redis.

Each Redis command is a step of its own; what a process does between two commands goes
with one of them. A call looks its idempotency key up, creates its job or reuses one, and
then either takes the sandbox route or pushes the job; a sandbox call that does not wait
goes on to the push. A call whose input cannot be dumped, or has no UTF-8 form, raises before
its job is written, one whose queue's key holds a sorted set after. A worker first pumps the
delayed set, then pops a job, loads it, and runs its agent unless a cancel was requested. The
clock moves by steps too. Workers do not crash; in particular a worker function that raises is no step. -/
namespace SynQc.Agents

/-- The registered agents, and where sandbox runs go. -/
structure Config where
  agents : List String
  sandboxUrl : String := ""
  sandboxEnabled : Bool := true

/-- Whether a run of the agent takes the sandbox route. -/
def Config.routed (cfg : Config) (agent : String) : Bool :=
  cfg.sandboxEnabled && agent.toLower = "grover_search" && cfg.sandboxUrl ≠ ""

/-! ### Calls of `run_agent` -/

structure Request where
  agent : String
  /-- What `model_dump` and `_json_dumps` make of the input. It is missing where `model_dump` raises, as it does
  on values nested too deeply. -/
  runInput : Option PyStr := some ⟨"\x7b\x7d", false⟩
  idempotencyKey : Option String := none
  queueName : QueueName := "default"
  wait : Bool := false
  timeoutSeconds : Int := 20
  /-- `SYNQC_JOB_MAX_ATTEMPTS` at the time of the call. -/
  maxAttempts : Int := 3

/-- The idempotency key, where it is one. -/
def Request.key (r : Request) : Option String :=
  match r.idempotencyKey with
  | some key => if key = "" then none else some key
  | none => none

/-- What `create_job` returns. -/
structure Ticket where
  id : JobId
  reused : Bool
  deriving DecidableEq

/-- Where a call stands. `writing` is what its sandbox run has yet to write, `recording` the call
of `record_event` after that. A call that is `refused` has raised as it pushed its job. -/
inductive CallPhase where
  | absent
  | lookup
  | creating
  | routed (t : Ticket)
  | posting (t : Ticket) (t0 : Time)
  | writing (t : Ticket) (t0 : Time) (success : Bool) (writes : List Write)
  | recording (t : Ticket) (t0 : Time) (success : Bool)
  | rereading (t : Ticket)
  | queueing (t : Ticket)
  | refused (t : Ticket)
  | polling (t : Ticket) (deadline : Time)
  | returned (t : Ticket) (status : JobStatus)
  | raised (message : String)

structure Call where
  request : Request
  phase : CallPhase

instance : Inhabited Call := ⟨⟨{ agent := "" }, .absent⟩⟩

/-! ### Workers -/

/-- The arguments of `process_one`. -/
structure Seat where
  queue : QueueName
  timeoutSeconds : Int

inductive Worker where
  | idle
  | pumping (seat : Seat) (now : Time) (left : Nat)
  | popped (seat : Seat) (now : Time) (left : Nat) (id : JobId) (score : Time)
  | waiting (seat : Seat)
  | holding (seat : Seat) (id : JobId)
  | loaded (seat : Seat) (id : JobId) (job : JobHash)
  | marked (seat : Seat) (id : JobId) (job : JobHash)
  | counted (seat : Seat) (id : JobId) (job : JobHash) (attempt : Nat)
  | running (seat : Seat) (id : JobId) (job : JobHash) (attempt : Nat)
  | writing (seat : Seat) (id : JobId) (writes : List Write) (delay : Option Nat)

instance : Inhabited Worker := ⟨.idle⟩

/-- How the agent's process ended. -/
inductive Outcome where
  | timedOut
  | silent
  | ok (result : String)
  | error (errType message traceback : String)

/-! ### The system -/

structure State where
  now : Time := 0
  redis : Redis := {}
  calls : Roster Nat Call := Dict.empty
  workers : Roster Nat Worker := Dict.empty
  /-- The jobs created, sent to the sandbox, pushed by a call and started by a worker, latest
  first. -/
  created : List JobId := []
  sandboxed : List JobId := []
  pushed : List JobId := []
  started : List JobId := []
  /-- When each job that was scheduled is due. -/
  dues : Dict JobId Time := Dict.empty

inductive Event where
  | tick (now : Time)
  | cancel (id : JobId)
  | submit (c : Nat) (request : Request)
  | lookup (c : Nat)
  | create (c : Nat) (id : JobId)
  | mark (c : Nat)
  | post (c : Nat) (reply : Except String String)
  | write (c : Nat)
  | record (c : Nat) (raised : Option String)
  | reread (c : Nat)
  | push (c : Nat)
  | poll (c : Nat)
  | pump (w : Nat) (seat : Seat)
  | zpopmin (w : Nat) (id : JobId)
  | endPump (w : Nat)
  | put (w : Nat)
  | brpop (w : Nat)
  | giveUp (w : Nat)
  | load (w : Nat)
  | begin (w : Nat)
  | count (w : Nat)
  | start (w : Nat)
  | finish (w : Nat) (outcome : Outcome)
  | writeBack (w : Nat)
  | schedule (w : Nat)

namespace State

def call (s : State) (c : Nat) : Call := s.calls.phase c

def worker (s : State) (w : Nat) : Worker := s.workers.phase w

def setCall (s : State) (c : Nat) (phase : CallPhase) : State :=
  {s with calls := s.calls.set c ⟨(s.call c).request, phase⟩}

def setWorker (s : State) (w : Nat) (phase : Worker) : State := {s with workers := s.workers.set w phase}

def hset (s : State) (id : JobId) (write : Write) : State :=
  {s with redis := s.redis.hset id (write.apply s.now)}

/-- `int((time.time() - t0) * 1000)` -/
def latencyMs (s : State) (t0 : Time) : Int := Rat.floor ((s.now - t0) * 1000)

def tick (now : Time) (s : State) : Option State := if s.now ≤ now then some {s with now := now} else none

/-- `job_cancel` -/
def cancel (id : JobId) (s : State) : Option State :=
  match s.redis.jobs.get? id with
  | some _ => some {s with redis := s.redis.requestCancel id}
  | none => none

def submit (cfg : Config) (c : Nat) (request : Request) (s : State) : Option State :=
  match (s.call c).phase with
  | .absent =>
    let phase :=
      if request.agent ∉ cfg.agents then .raised ("Unknown agent: " ++ request.agent)
      else if request.runInput = none then .raised "Circular reference detected (depth exceeded)"
      else .lookup
    some {s with calls := s.calls.set c ⟨request, phase⟩}
  | _ => none

/-- Where a call goes once `create_job` has returned. -/
def afterCreate (cfg : Config) (request : Request) (t : Ticket) : CallPhase :=
  if cfg.routed request.agent then .routed t else .queueing t

/-- The `GET` of `create_job`, made with a key only. -/
def lookup (cfg : Config) (c : Nat) (s : State) : Option State :=
  match (s.call c).phase with
  | .lookup =>
    match (s.call c).request.key with
    | some key =>
      match s.redis.keys.get? ((s.call c).request.agent, key) with
      | some id => some (s.setCall c (afterCreate cfg (s.call c).request ⟨id, true⟩))
      | none => some (s.setCall c .creating)
    | none => some (s.setCall c .creating)
  | _ => none

/-- The pipeline of `create_job`, under a fresh id. It is encoded as a whole before it is sent. -/
def create (cfg : Config) (c : Nat) (id : JobId) (s : State) : Option State :=
  match (s.call c).phase, s.redis.jobs.get? id with
  | .creating, none =>
    let request := (s.call c).request
    match request.runInput.bind PyStr.encode with
    | some runInput =>
      some ({s with
        redis := s.redis.createJob id request.agent runInput request.key request.maxAttempts s.now
        created := id :: s.created}.setCall c (afterCreate cfg request ⟨id, false⟩))
    | none => some (s.setCall c (.raised "surrogates not allowed"))
  | _, _ => none

/-- The sandbox route begins: the job is running. -/
def mark (c : Nat) (s : State) : Option State :=
  match (s.call c).phase with
  | .routed t =>
    some ({s.hset t.id (.updateStatus .running true false) with sandboxed := t.id :: s.sandboxed}.setCall c
      (.posting t s.now))
  | _ => none

/-- What the handler of the sandbox route writes. -/
def sandboxFailure (s : State) (t0 : Time) (message : String) : List Write :=
  [.setError (sandboxError (s.latencyMs t0) message), .updateStatus .failed false true]

/-- The sandbox answers, or the request fails. -/
def post (c : Nat) (reply : Except String String) (s : State) : Option State :=
  match (s.call c).phase with
  | .posting t t0 =>
    match reply with
    | .ok payload =>
      some (s.setCall c (.writing t t0 true
        [.setResult (sandboxResult (s.latencyMs t0) payload), .updateStatus .succeeded false true]))
    | .error message => some (s.setCall c (.writing t t0 false (s.sandboxFailure t0 message)))
  | _ => none

def write (c : Nat) (s : State) : Option State :=
  match (s.call c).phase with
  | .writing t t0 success (w :: rest) =>
    some ((s.hset t.id w).setCall c (if rest = [] then .recording t t0 success else .writing t t0 success rest))
  | _ => none

/-- `record_event`. In the `try` block it is caught by the handler; in the handler it is not. -/
def record (c : Nat) (raised : Option String) (s : State) : Option State :=
  match (s.call c).phase with
  | .recording t t0 success =>
    match raised with
    | some message =>
      if success then some (s.setCall c (.writing t t0 false (s.sandboxFailure t0 message)))
      else some (s.setCall c (.raised message))
    | none => some (s.setCall c (if (s.call c).request.wait then .rereading t else .queueing t))
  | _ => none

def reread (c : Nat) (s : State) : Option State :=
  match (s.call c).phase with
  | .rereading t =>
    some (s.setCall c (.returned t (((s.redis.jobs.get? t.id).map fun h => h.status).getD .failed)))
  | _ => none

/-- Past the queue a call polls its job, or returns at once. -/
def afterPush (s : State) (request : Request) (t : Ticket) : CallPhase :=
  if request.wait then .polling t (s.now + request.timeoutSeconds) else .returned t .queued

/-- `enqueue`, of a job that is not reused. -/
def push (c : Nat) (s : State) : Option State :=
  match (s.call c).phase with
  | .queueing t =>
    let request := (s.call c).request
    if t.reused then some (s.setCall c (s.afterPush request t))
    else
      match s.redis.push request.queueName t.id with
      | some redis => some ({s with redis := redis, pushed := t.id :: s.pushed}.setCall c (s.afterPush request t))
      | none => some (s.setCall c (.refused t))
  | _ => none

def poll (c : Nat) (s : State) : Option State :=
  match (s.call c).phase with
  | .polling t deadline =>
    if s.now < deadline then
      match s.redis.jobs.get? t.id with
      | some h => if h.status.terminal then some (s.setCall c (.returned t h.status)) else some s
      | none => some (s.setCall c (.returned t .running))
    else some (s.setCall c (.returned t .running))
  | _ => none

/-! `process_one` -/

def pump (w : Nat) (seat : Seat) (s : State) : Option State :=
  match s.worker w with
  | .idle => some (s.setWorker w (.pumping seat s.now 100))
  | _ => none

def zpopmin (w : Nat) (id : JobId) (s : State) : Option State :=
  match s.worker w with
  | .pumping seat now (left + 1) =>
    match s.redis.zpopmin seat.queue id with
    | some (score, redis) => some ({s with redis := redis}.setWorker w (.popped seat now left id score))
    | none => none
  | _ => none

def endPump (w : Nat) (s : State) : Option State :=
  match s.worker w with
  | .pumping seat _ left =>
    if left = 0 ∨ (s.redis.delayed seat.queue).values = [] ∧ (s.redis.kept (delayedKey seat.queue)).isList = false then
      some (s.setWorker w (.waiting seat))
    else none
  | _ => none

/-- Back into the delayed set if it is early, to the ready list otherwise. -/
def put (w : Nat) (s : State) : Option State :=
  match s.worker w with
  | .popped seat now left id score =>
    if score > now then
      match s.redis.zadd seat.queue id score with
      | some redis => some ({s with redis := redis}.setWorker w (.waiting seat))
      | none => none
    else
      match s.redis.push seat.queue id with
      | some redis => some ({s with redis := redis}.setWorker w (.pumping seat now left))
      | none => none
  | _ => none

def brpop (w : Nat) (s : State) : Option State :=
  match s.worker w with
  | .waiting seat =>
    match s.redis.pop seat.queue with
    | some (id, redis) => some ({s with redis := redis}.setWorker w (.holding seat id))
    | none => none
  | _ => none

def giveUp (w : Nat) (s : State) : Option State :=
  match s.worker w with
  | .waiting seat =>
    if s.redis.ready seat.queue = [] ∧ (s.redis.kept (queueKey seat.queue)).isZset = false then
      some (s.setWorker w .idle)
    else none
  | _ => none

def load (w : Nat) (s : State) : Option State :=
  match s.worker w with
  | .holding seat id =>
    match s.redis.jobs.get? id with
    | some job => some (s.setWorker w (.loaded seat id job))
    | none => some (s.setWorker w .idle)
  | _ => none

def begin (w : Nat) (s : State) : Option State :=
  match s.worker w with
  | .loaded seat id job =>
    if job.cancelRequested then some ((s.hset id (.updateStatus .cancelled false true)).setWorker w .idle)
    else some ((s.hset id (.updateStatus .running true false)).setWorker w (.marked seat id job))
  | _ => none

/-- `increment_attempts` -/
def count (w : Nat) (s : State) : Option State :=
  match s.worker w with
  | .marked seat id job =>
    some ({s with redis := s.redis.hset id fun h => {h with attempts := h.attempts + 1}}.setWorker w
      (.counted seat id job (s.redis.nextAttempt id)))
  | _ => none

def start (w : Nat) (s : State) : Option State :=
  match s.worker w with
  | .counted seat id job attempt =>
    some ({s with started := id :: s.started}.setWorker w (.running seat id job attempt))
  | _ => none

/-- What the worker writes after the agent ended, and the delay of a retry. From attempt 1025 on
`float(2 ** (attempt - 1))` raises. -/
def conclude (seat : Seat) (job : JobHash) (attempt : Nat) : Outcome → Option (List Write × Option Nat)
  | .timedOut => some ([.setError (timeoutError seat.timeoutSeconds), .updateStatus .failed false true], none)
  | .silent => some ([.setError workerError, .updateStatus .failed false true], none)
  | .ok result => some ([.setResult result, .updateStatus .succeeded false true], none)
  | .error errType message traceback =>
    if attempt < maxAttempts job ∧ isTransientError errType message then
      if attempt ≤ 1024 then
        some ([.setError (retryError attempt (maxAttempts job) errType message), .updateStatus .queued false false],
          some (retryDelay attempt))
      else none
    else some ([.setError (agentFailed errType message traceback), .updateStatus .failed false true], none)

def finish (w : Nat) (outcome : Outcome) (s : State) : Option State :=
  match s.worker w with
  | .running seat id job attempt =>
    match conclude seat job attempt outcome with
    | some (writes, delay) => some (s.setWorker w (.writing seat id writes delay))
    | none => none
  | _ => none

def writeBack (w : Nat) (s : State) : Option State :=
  match s.worker w with
  | .writing seat id (write :: rest) delay =>
    some ((s.hset id write).setWorker w (if rest = [] ∧ delay = none then .idle else .writing seat id rest delay))
  | _ => none

/-- `schedule_delayed` -/
def schedule (w : Nat) (s : State) : Option State :=
  match s.worker w with
  | .writing seat id [] (some delay) =>
    let due := s.now + delay
    match s.redis.zadd seat.queue id due with
    | some redis => some ({s with redis := redis, dues := s.dues.set id due}.setWorker w .idle)
    | none => none
  | _ => none

/-- An agent's error is retried, after a delay and below the job's attempts, or it ends the job. -/
theorem conclude_error {seat : Seat} {job : JobHash} {attempt : Nat} {errType message traceback : String}
    {writes : List Write} {delay : Option Nat}
    (h : conclude seat job attempt (.error errType message traceback) = some (writes, delay)) :
    ((attempt : Int) < maxAttempts job ∧ delay = some (retryDelay attempt) ∧
        writes = [.setError (retryError attempt (maxAttempts job) errType message), .updateStatus .queued false false]) ∨
      (delay = none ∧
        writes = [.setError (agentFailed errType message traceback), .updateStatus .failed false true]) := by
  simp only [conclude] at h
  split at h
  · rename_i hretry
    split at h
    · cases h
      exact .inl ⟨hretry.1, rfl, rfl⟩
    · cases h
  · cases h
    exact .inr ⟨rfl, rfl⟩

end State

def service (cfg : Config) : Transition.System State Event where
  init s := s = {}
  step
    | .tick now => State.tick now
    | .cancel id => State.cancel id
    | .submit c request => State.submit cfg c request
    | .lookup c => State.lookup cfg c
    | .create c id => State.create cfg c id
    | .mark c => State.mark c
    | .post c reply => State.post c reply
    | .write c => State.write c
    | .record c raised => State.record c raised
    | .reread c => State.reread c
    | .push c => State.push c
    | .poll c => State.poll c
    | .pump w seat => State.pump w seat
    | .zpopmin w id => State.zpopmin w id
    | .endPump w => State.endPump w
    | .put w => State.put w
    | .brpop w => State.brpop w
    | .giveUp w => State.giveUp w
    | .load w => State.load w
    | .begin w => State.begin w
    | .count w => State.count w
    | .start w => State.start w
    | .finish w outcome => State.finish w outcome
    | .writeBack w => State.writeBack w
    | .schedule w => State.schedule w

theorem worker_setWorker (s : State) (w : Nat) (p : Worker) : (s.setWorker w p).worker w = p :=
  Roster.phase_set_self _ _ _

/-! ### What a step can do -/

/-- The steps, one constructor for each way an event can go. -/
inductive Step (cfg : Config) (s : State) : Event → State → Prop where
  | tick {now : Time} (hnow : s.now ≤ now) : Step cfg s (.tick now) {s with now := now}
  | cancel {id : JobId} {hash : JobHash} (hget : s.redis.jobs.get? id = some hash) :
      Step cfg s (.cancel id) {s with redis := s.redis.requestCancel id}
  | submit {c : Nat} {request : Request} {phase : CallPhase} (hphase : (s.call c).phase = .absent)
      (hnew : phase = .lookup ∨
        (request.agent ∉ cfg.agents ∨ request.runInput = none) ∧ ∃ message, phase = .raised message) :
      Step cfg s (.submit c request) {s with calls := s.calls.set c ⟨request, phase⟩}
  | hit {c : Nat} {key : String} {id : JobId} (hphase : (s.call c).phase = .lookup)
      (hkey : (s.call c).request.key = some key)
      (hget : s.redis.keys.get? ((s.call c).request.agent, key) = some id) :
      Step cfg s (.lookup c) (s.setCall c (State.afterCreate cfg (s.call c).request ⟨id, true⟩))
  | miss {c : Nat} (hphase : (s.call c).phase = .lookup)
      (hmiss : ∀ key, (s.call c).request.key = some key →
        s.redis.keys.get? ((s.call c).request.agent, key) = none) :
      Step cfg s (.lookup c) (s.setCall c .creating)
  | create {c : Nat} {id : JobId} {runInput : String} (hphase : (s.call c).phase = .creating)
      (hnone : s.redis.jobs.get? id = none) (hencode : (s.call c).request.runInput.bind PyStr.encode = some runInput) :
      Step cfg s (.create c id) ({s with
        redis := s.redis.createJob id (s.call c).request.agent runInput (s.call c).request.key
          (s.call c).request.maxAttempts s.now
        created := id :: s.created}.setCall c (State.afterCreate cfg (s.call c).request ⟨id, false⟩))
  | unencoded {c : Nat} {id : JobId} {message : String} (hphase : (s.call c).phase = .creating)
      (hencode : (s.call c).request.runInput.bind PyStr.encode = none) :
      Step cfg s (.create c id) (s.setCall c (.raised message))
  | mark {c : Nat} {t : Ticket} (hphase : (s.call c).phase = .routed t) :
      Step cfg s (.mark c) ({s.hset t.id (.updateStatus .running true false) with
        sandboxed := t.id :: s.sandboxed}.setCall c (.posting t s.now))
  | post {c : Nat} {reply : Except String String} {t : Ticket} {t0 : Time} {success : Bool} {writes : List Write}
      (hphase : (s.call c).phase = .posting t t0) (hends : Write.ends writes = true) :
      Step cfg s (.post c reply) (s.setCall c (.writing t t0 success writes))
  | write {c : Nat} {t : Ticket} {t0 : Time} {success : Bool} {write : Write} {rest : List Write}
      (hphase : (s.call c).phase = .writing t t0 success (write :: rest)) :
      Step cfg s (.write c) ((s.hset t.id write).setCall c
        (if rest = [] then .recording t t0 success else .writing t t0 success rest))
  | caught {c : Nat} {t : Ticket} {t0 : Time} {message : String} (hphase : (s.call c).phase = .recording t t0 true) :
      Step cfg s (.record c (some message)) (s.setCall c (.writing t t0 false (s.sandboxFailure t0 message)))
  | uncaught {c : Nat} {t : Ticket} {t0 : Time} {message : String}
      (hphase : (s.call c).phase = .recording t t0 false) :
      Step cfg s (.record c (some message)) (s.setCall c (.raised message))
  | recorded {c : Nat} {t : Ticket} {t0 : Time} {success : Bool} (hphase : (s.call c).phase = .recording t t0 success) :
      Step cfg s (.record c none) (s.setCall c (if (s.call c).request.wait then .rereading t else .queueing t))
  | reread {c : Nat} {t : Ticket} {status : JobStatus} (hphase : (s.call c).phase = .rereading t) :
      Step cfg s (.reread c) (s.setCall c (.returned t status))
  | skip {c : Nat} {t : Ticket} (hphase : (s.call c).phase = .queueing t) (hreused : t.reused = true) :
      Step cfg s (.push c) (s.setCall c (s.afterPush (s.call c).request t))
  | push {c : Nat} {t : Ticket} {redis : Redis} (hphase : (s.call c).phase = .queueing t) (hnew : t.reused = false)
      (hpush : s.redis.push (s.call c).request.queueName t.id = some redis) :
      Step cfg s (.push c) ({s with redis := redis, pushed := t.id :: s.pushed}.setCall c
        (s.afterPush (s.call c).request t))
  | refused {c : Nat} {t : Ticket} (hphase : (s.call c).phase = .queueing t) (hnew : t.reused = false)
      (hpush : s.redis.push (s.call c).request.queueName t.id = none) :
      Step cfg s (.push c) (s.setCall c (.refused t))
  | poll {c : Nat} {t : Ticket} {deadline : Time} {status : JobStatus}
      (hphase : (s.call c).phase = .polling t deadline) :
      Step cfg s (.poll c) (s.setCall c (.returned t status))
  | again {c : Nat} {t : Ticket} {deadline : Time} (hphase : (s.call c).phase = .polling t deadline) :
      Step cfg s (.poll c) s
  | pump {w : Nat} {seat : Seat} (hphase : s.worker w = .idle) :
      Step cfg s (.pump w seat) (s.setWorker w (.pumping seat s.now 100))
  | zpopmin {w : Nat} {id : JobId} {seat : Seat} {now : Time} {left : Nat} {score : Time} {redis : Redis}
      (hphase : s.worker w = .pumping seat now (left + 1)) (hpop : s.redis.zpopmin seat.queue id = some (score, redis)) :
      Step cfg s (.zpopmin w id) ({s with redis := redis}.setWorker w (.popped seat now left id score))
  | endPump {w : Nat} {seat : Seat} {now : Time} {left : Nat} (hphase : s.worker w = .pumping seat now left) :
      Step cfg s (.endPump w) (s.setWorker w (.waiting seat))
  | putBack {w : Nat} {seat : Seat} {now : Time} {left : Nat} {id : JobId} {score : Time} {redis : Redis}
      (hphase : s.worker w = .popped seat now left id score) (hadd : s.redis.zadd seat.queue id score = some redis) :
      Step cfg s (.put w) ({s with redis := redis}.setWorker w (.waiting seat))
  | putReady {w : Nat} {seat : Seat} {now : Time} {left : Nat} {id : JobId} {score : Time} {redis : Redis}
      (hphase : s.worker w = .popped seat now left id score) (hdue : score ≤ now)
      (hpush : s.redis.push seat.queue id = some redis) :
      Step cfg s (.put w) ({s with redis := redis}.setWorker w (.pumping seat now left))
  | brpop {w : Nat} {seat : Seat} {id : JobId} {redis : Redis} (hphase : s.worker w = .waiting seat)
      (hpop : s.redis.pop seat.queue = some (id, redis)) :
      Step cfg s (.brpop w) ({s with redis := redis}.setWorker w (.holding seat id))
  | giveUp {w : Nat} {seat : Seat} (hphase : s.worker w = .waiting seat) :
      Step cfg s (.giveUp w) (s.setWorker w .idle)
  | load {w : Nat} {seat : Seat} {id : JobId} {job : JobHash} (hphase : s.worker w = .holding seat id)
      (hget : s.redis.jobs.get? id = some job) :
      Step cfg s (.load w) (s.setWorker w (.loaded seat id job))
  | lose {w : Nat} {seat : Seat} {id : JobId} (hphase : s.worker w = .holding seat id)
      (hnone : s.redis.jobs.get? id = none) :
      Step cfg s (.load w) (s.setWorker w .idle)
  | cancelled {w : Nat} {seat : Seat} {id : JobId} {job : JobHash} (hphase : s.worker w = .loaded seat id job)
      (hcancel : job.cancelRequested = true) :
      Step cfg s (.begin w) ((s.hset id (.updateStatus .cancelled false true)).setWorker w .idle)
  | begin {w : Nat} {seat : Seat} {id : JobId} {job : JobHash} (hphase : s.worker w = .loaded seat id job)
      (hcancel : job.cancelRequested = false) :
      Step cfg s (.begin w) ((s.hset id (.updateStatus .running true false)).setWorker w (.marked seat id job))
  | count {w : Nat} {seat : Seat} {id : JobId} {job : JobHash} (hphase : s.worker w = .marked seat id job) :
      Step cfg s (.count w) ({s with
        redis := s.redis.hset id fun h => {h with attempts := h.attempts + 1}}.setWorker w
          (.counted seat id job (s.redis.nextAttempt id)))
  | start {w : Nat} {seat : Seat} {id : JobId} {job : JobHash} {attempt : Nat}
      (hphase : s.worker w = .counted seat id job attempt) :
      Step cfg s (.start w) ({s with started := id :: s.started}.setWorker w (.running seat id job attempt))
  | finish {w : Nat} {outcome : Outcome} {seat : Seat} {id : JobId} {job : JobHash} {attempt : Nat}
      {writes : List Write} {delay : Option Nat} (hphase : s.worker w = .running seat id job attempt)
      (hconclude : State.conclude seat job attempt outcome = some (writes, delay)) :
      Step cfg s (.finish w outcome) (s.setWorker w (.writing seat id writes delay))
  | writeBack {w : Nat} {seat : Seat} {id : JobId} {write : Write} {rest : List Write} {delay : Option Nat}
      (hphase : s.worker w = .writing seat id (write :: rest) delay) :
      Step cfg s (.writeBack w) ((s.hset id write).setWorker w
        (if rest = [] ∧ delay = none then .idle else .writing seat id rest delay))
  | schedule {w : Nat} {seat : Seat} {id : JobId} {delay : Nat} {redis : Redis}
      (hphase : s.worker w = .writing seat id [] (some delay))
      (hadd : s.redis.zadd seat.queue id (s.now + delay) = some redis) :
      Step cfg s (.schedule w) ({s with redis := redis, dues := s.dues.set id (s.now + delay)}.setWorker w .idle)

theorem step_some {cfg : Config} {e : Event} {s u : State} (h : (service cfg).step e s = some u) : Step cfg s e u := by
  cases e with
  | tick now =>
    change s.tick now = some u at h
    simp only [State.tick] at h
    split at h <;> cases h
    rename_i hnow
    exact .tick hnow
  | cancel id =>
    change s.cancel id = some u at h
    simp only [State.cancel] at h
    split at h <;> cases h
    rename_i hget
    exact .cancel hget
  | submit c request =>
    change s.submit cfg c request = some u at h
    simp only [State.submit] at h
    split at h <;> cases h
    rename_i hphase
    refine .submit hphase ?_
    split
    · rename_i hunknown
      exact .inr ⟨.inl hunknown, _, rfl⟩
    · split
      · rename_i hnone
        exact .inr ⟨.inr hnone, _, rfl⟩
      · exact .inl rfl
  | lookup c =>
    change s.lookup cfg c = some u at h
    simp only [State.lookup] at h
    split at h
    · rename_i hphase
      split at h
      · rename_i key hkey
        split at h <;> cases h
        · rename_i id hget
          exact .hit hphase hkey hget
        · rename_i hnone
          refine .miss hphase fun key' hkey' => ?_
          cases hkey.symm.trans hkey'
          exact hnone
      · rename_i hnokey
        cases h
        refine .miss hphase fun key' hkey' => ?_
        cases hnokey.symm.trans hkey'
    · cases h
  | create c id =>
    change s.create cfg c id = some u at h
    simp only [State.create] at h
    split at h
    · rename_i hphase hnone
      split at h <;> cases h
      · rename_i hencode
        exact .create hphase hnone hencode
      · rename_i hencode
        exact .unencoded hphase hencode
    · cases h
  | mark c =>
    change s.mark c = some u at h
    simp only [State.mark] at h
    split at h <;> cases h
    rename_i hphase
    exact .mark hphase
  | post c reply =>
    change s.post c reply = some u at h
    simp only [State.post] at h
    split at h
    · rename_i hphase
      split at h <;> cases h <;> exact .post hphase rfl
    · cases h
  | write c =>
    change s.write c = some u at h
    simp only [State.write] at h
    split at h <;> cases h
    rename_i hphase
    exact .write hphase
  | record c raised =>
    change s.record c raised = some u at h
    simp only [State.record] at h
    split at h
    · rename_i t t0 success hphase
      split at h
      · split at h <;> cases h
        · rename_i hsuccess
          subst hsuccess
          exact .caught hphase
        · rename_i hfailure
          rw [Bool.not_eq_true] at hfailure
          subst hfailure
          exact .uncaught hphase
      · cases h
        exact .recorded hphase
    · cases h
  | reread c =>
    change s.reread c = some u at h
    simp only [State.reread] at h
    split at h <;> cases h
    rename_i hphase
    exact .reread hphase
  | push c =>
    change s.push c = some u at h
    simp only [State.push] at h
    split at h
    · rename_i hphase
      split at h
      · rename_i hreused
        cases h
        exact .skip hphase hreused
      · rename_i hnew
        split at h <;> cases h
        · rename_i hpush
          exact .push hphase (Bool.eq_false_iff.mpr hnew) hpush
        · rename_i hpush
          exact .refused hphase (Bool.eq_false_iff.mpr hnew) hpush
    · cases h
  | poll c =>
    change s.poll c = some u at h
    simp only [State.poll] at h
    split at h
    · rename_i hphase
      split at h
      · split at h
        · split at h <;> cases h
          · exact .poll hphase
          · exact .again hphase
        · cases h
          exact .poll hphase
      · cases h
        exact .poll hphase
    · cases h
  | pump w seat =>
    change s.pump w seat = some u at h
    simp only [State.pump] at h
    split at h <;> cases h
    rename_i hphase
    exact .pump hphase
  | zpopmin w id =>
    change s.zpopmin w id = some u at h
    simp only [State.zpopmin] at h
    split at h
    · rename_i hphase
      split at h <;> cases h
      rename_i hpop
      exact .zpopmin hphase hpop
    · cases h
  | endPump w =>
    change s.endPump w = some u at h
    simp only [State.endPump] at h
    split at h
    · rename_i hphase
      split at h <;> cases h
      exact .endPump hphase
    · cases h
  | put w =>
    change s.put w = some u at h
    simp only [State.put] at h
    split at h
    · rename_i hphase
      split at h
      · split at h <;> cases h
        rename_i hadd
        exact .putBack hphase hadd
      · rename_i hdue
        split at h <;> cases h
        rename_i hpush
        exact .putReady hphase (not_lt.mp hdue) hpush
    · cases h
  | brpop w =>
    change s.brpop w = some u at h
    simp only [State.brpop] at h
    split at h
    · rename_i hphase
      split at h <;> cases h
      rename_i hpop
      exact .brpop hphase hpop
    · cases h
  | giveUp w =>
    change s.giveUp w = some u at h
    simp only [State.giveUp] at h
    split at h
    · rename_i hphase
      split at h <;> cases h
      exact .giveUp hphase
    · cases h
  | load w =>
    change s.load w = some u at h
    simp only [State.load] at h
    split at h
    · rename_i hphase
      split at h <;> cases h
      · rename_i hget
        exact .load hphase hget
      · rename_i hnone
        exact .lose hphase hnone
    · cases h
  | begin w =>
    change s.begin w = some u at h
    simp only [State.begin] at h
    split at h
    · rename_i hphase
      split at h <;> cases h
      · rename_i hcancel
        exact .cancelled hphase hcancel
      · rename_i hcancel
        exact .begin hphase (Bool.eq_false_iff.mpr hcancel)
    · cases h
  | count w =>
    change s.count w = some u at h
    simp only [State.count] at h
    split at h <;> cases h
    rename_i hphase
    exact .count hphase
  | start w =>
    change s.start w = some u at h
    simp only [State.start] at h
    split at h <;> cases h
    rename_i hphase
    exact .start hphase
  | finish w outcome =>
    change s.finish w outcome = some u at h
    simp only [State.finish] at h
    split at h
    · rename_i hphase
      split at h <;> cases h
      rename_i hconclude
      exact .finish hphase hconclude
    · cases h
  | writeBack w =>
    change s.writeBack w = some u at h
    simp only [State.writeBack] at h
    split at h <;> cases h
    rename_i hphase
    exact .writeBack hphase
  | schedule w =>
    change s.schedule w = some u at h
    simp only [State.schedule] at h
    split at h
    · rename_i hphase
      split at h <;> cases h
      rename_i hadd
      exact .schedule hphase hadd
    · cases h

end SynQc.Agents
