import SynQc.Agents.Custody

/-! What `process_one` leaves of the job it took, also where it raises.

From the pop on the id is in a local variable only. Most of what can raise comes before the
first write of how the run ended: encoding the result, encoding the error, computing the
delay of a retry. The job is then left `running` and in no queue (`stranded`). It ends, or
goes back to the delayed set, exactly when what is stored can be encoded and a retry comes
no later than attempt 1024 (`not_stranded_iff`). Of the Redis commands only the `ZADD` of a
retry can fail, at a key that holds a list. -/
namespace SynQc.Agents

/-! ### Results -/

inductive PyKey where
  | str (s : PyStr)
  /-- A number, a Boolean or `None`, with the text of the key made from it. -/
  | scalar (text : String)
  | refused

/-- A value of a result. `refused` is what `json.dumps` raises at: an object it has no encoding
for, or an integer with too many digits. -/
inductive PyValue where
  | null
  | bool (value : Bool)
  | int (value : Int)
  | float (text : String)
  | str (s : PyStr)
  | list (items : List PyValue)
  | dict (entries : List (PyKey × PyValue))
  | refused

/-- One character of a JSON string: quote, backslash and control characters are escaped. -/
def escape (c : Char) : String :=
  if c.toNat = 34 then "\\\""
  else if c.toNat = 92 then "\\\\"
  else if c.toNat = 8 then "\\b"
  else if c.toNat = 9 then "\\t"
  else if c.toNat = 10 then "\\n"
  else if c.toNat = 12 then "\\f"
  else if c.toNat = 13 then "\\r"
  else if c.toNat < 32 then "\\u00" ++ String.ofList [Nat.digitChar (c.toNat / 16), Nat.digitChar (c.toNat % 16)]
  else c.toString

def quote (s : PyStr) : PyStr := ⟨"\"" ++ String.join (s.text.toList.map escape) ++ "\"", s.lone⟩

def PyStr.append (a b : PyStr) : PyStr := ⟨a.text ++ b.text, a.lone || b.lone⟩

/-- `open`, the items with commas between them, `close`. -/
def bracket (opening closing : String) (items : List PyStr) : PyStr :=
  ⟨opening ++ ",".intercalate (items.map PyStr.text) ++ closing, items.any PyStr.lone⟩

def PyKey.dumps : PyKey → Option PyStr
  | .str s => some (quote s)
  | .scalar text => some (quote ⟨text, false⟩)
  | .refused => none

mutual

/-- `_json_dumps`, or nothing where it raises. -/
def PyValue.dumps : PyValue → Option PyStr
  | .null => some ⟨"null", false⟩
  | .bool value => some ⟨if value then "true" else "false", false⟩
  | .int value => some ⟨toString value, false⟩
  | .float text => some ⟨text, false⟩
  | .str s => some (quote s)
  | .list items => (dumpsItems items).map (bracket "[" "]")
  | .dict entries => (dumpsEntries entries).map (bracket "\x7b" "\x7d")
  | .refused => none

def dumpsItems : List PyValue → Option (List PyStr)
  | [] => some []
  | item :: rest => do
    let text ← item.dumps
    let texts ← dumpsItems rest
    some (text :: texts)

def dumpsEntries : List (PyKey × PyValue) → Option (List PyStr)
  | [] => some []
  | (key, value) :: rest => do
    let name ← key.dumps
    let text ← value.dumps
    let texts ← dumpsEntries rest
    some ((name.append ⟨":", false⟩).append text :: texts)

end

def PyKey.plain : PyKey → Bool
  | .str s => !s.lone
  | .scalar _ => true
  | .refused => false

mutual

/-- Nothing in the value is refused or has a lone surrogate. -/
def PyValue.plain : PyValue → Bool
  | .null | .bool _ | .int _ | .float _ => true
  | .str s => !s.lone
  | .list items => plainItems items
  | .dict entries => plainEntries entries
  | .refused => false

def plainItems : List PyValue → Bool
  | [] => true
  | item :: rest => item.plain && plainItems rest

def plainEntries : List (PyKey × PyValue) → Bool
  | [] => true
  | (key, value) :: rest => key.plain && (value.plain && plainEntries rest)

end

theorem key_plain (key : PyKey) : (key.dumps.elim false fun t => !t.lone) = key.plain := by
  cases key <;> rfl

mutual

theorem dumps_plain : (v : PyValue) → (v.dumps.elim false fun t => !t.lone) = v.plain
  | .null | .bool _ | .int _ | .float _ | .str _ | .refused => rfl
  | .list items => by
    rw [PyValue.plain, ← dumpsItems_plain items, PyValue.dumps]
    cases dumpsItems items <;> rfl
  | .dict entries => by
    rw [PyValue.plain, ← dumpsEntries_plain entries, PyValue.dumps]
    cases dumpsEntries entries <;> rfl

theorem dumpsItems_plain : (items : List PyValue) →
    ((dumpsItems items).elim false fun ts => !ts.any PyStr.lone) = plainItems items
  | [] => rfl
  | item :: rest => by
    rw [plainItems, ← dumps_plain item, ← dumpsItems_plain rest, dumpsItems]
    cases item.dumps with
    | none => rfl
    | some text =>
      cases dumpsItems rest with
      | none => exact (Bool.and_false _).symm
      | some texts => exact Bool.not_or _ _

theorem dumpsEntries_plain : (entries : List (PyKey × PyValue)) →
    ((dumpsEntries entries).elim false fun ts => !ts.any PyStr.lone) = plainEntries entries
  | [] => rfl
  | (key, value) :: rest => by
    rw [plainEntries, ← key_plain key, ← dumps_plain value, ← dumpsEntries_plain rest, dumpsEntries]
    cases key.dumps with
    | none => rfl
    | some name =>
      cases value.dumps with
      | none => exact (Bool.and_false _).symm
      | some text =>
        cases dumpsEntries rest with
        | none => simp
        | some texts => simp [PyStr.append, Bool.and_assoc]

end

/-- A value can be stored exactly when it is plain. -/
theorem stored_iff (v : PyValue) : (∃ text, v.dumps.bind PyStr.encode = some text) ↔ v.plain = true := by
  rw [← dumps_plain]
  cases v.dumps with
  | none => exact ⟨nofun, nofun⟩
  | some t =>
    simp only [Option.bind_some, PyStr.encode, Option.elim_some]
    cases t.lone with
    | false => exact ⟨fun _ => rfl, fun _ => ⟨_, rfl⟩⟩
    | true => exact ⟨nofun, nofun⟩

/-! ### Outcomes -/

/-- What an agent returns. -/
structure AgentRunOutput where
  agent : PyStr
  ok : Bool := true
  kpis : List (PyStr × PyValue) := []
  data : List (PyStr × PyValue) := []
  warnings : List PyStr := []

/-- `model_dump` of a dictionary with names for keys. -/
def dumpFields (fields : List (PyStr × PyValue)) : PyValue :=
  .dict (fields.map fun field => (.str field.1, field.2))

def AgentRunOutput.modelDump (o : AgentRunOutput) : PyValue :=
  dumpFields [(⟨"agent", false⟩, .str o.agent), (⟨"ok", false⟩, .bool o.ok), (⟨"kpis", false⟩, dumpFields o.kpis),
    (⟨"data", false⟩, dumpFields o.data), (⟨"warnings", false⟩, .list (o.warnings.map .str))]

/-- How the agent's process ended, with what it put on the queue. -/
inductive AgentOutcome where
  | timedOut
  | silent
  | ok (output : AgentRunOutput)
  | error (errType message traceback : PyStr)

/-! ### `process_one` -/

/-- What stops `process_one`: a value that cannot be encoded, a delay that is no float, or a sorted
set's key that holds a list. -/
inductive Stopped where
  | encoding
  | overflow
  | wrongType

/-- A stretch of `process_one`: what it does to Redis stays done where it raises. -/
abbrev Run := ExceptT Stopped (StateM Redis)

/-- What a stretch leaves: how it ended, and Redis. -/
def Run.exec {α : Type} (x : Run α) (r : Redis) : Except Stopped α × Redis := (ExceptT.run x).run r

/-- The times `process_one` reads: as the run begins, as it ends, and as a retry is scheduled. -/
structure Clock where
  started : Time
  finished : Time
  scheduled : Time

def updateStatus (id : JobId) (status : JobStatus) (started finished : Bool) (now : Time) : Run Unit :=
  modify fun r => r.hset id ((Write.updateStatus status started finished).apply now)

def incrementAttempts (id : JobId) : Run Nat := do
  let r ← get
  set (r.hset id fun h => {h with attempts := h.attempts + 1})
  return r.nextAttempt id

/-- `set_result`. The text is encoded before the command is sent. -/
def setResult (id : JobId) (result : PyValue) (now : Time) : Run Unit :=
  match result.dumps.bind PyStr.encode with
  | some text => modify fun r => r.hset id ((Write.setResult text).apply now)
  | none => throw .encoding

/-- `set_error`. `lone` says whether a lone surrogate is in what it was given, which
`model_dump_json` does not encode. -/
def setError (id : JobId) (info : JobErrorInfo) (lone : Bool) (now : Time) : Run Unit :=
  if lone then throw .encoding else modify fun r => r.hset id ((Write.setError info).apply now)

/-- `min(60.0, float(2 ** (attempt - 1)))` -/
def delayOf (attempt : Nat) : Run Nat := if attempt ≤ 1024 then pure (retryDelay attempt) else throw .overflow

def scheduleDelayed (queue : QueueName) (id : JobId) (delay : Nat) (now : Time) : Run Unit := do
  let r ← get
  match r.zadd queue id (now + delay) with
  | some r' => set r'
  | none => throw .wrongType

/-- The end of `process_one`, from what the agent's process left. -/
def settleRun (seat : Seat) (clock : Clock) (id : JobId) (job : JobHash) (attempt : Nat) : AgentOutcome → Run Unit
  | .timedOut => do
    setError id (timeoutError seat.timeoutSeconds) false clock.finished
    updateStatus id .failed false true clock.finished
  | .silent => do
    setError id workerError false clock.finished
    updateStatus id .failed false true clock.finished
  | .ok output => do
    setResult id output.modelDump clock.finished
    updateStatus id .succeeded false true clock.finished
  | .error errType message traceback =>
    if attempt < maxAttempts job ∧ isTransientError errType.text message.text then do
      let delay ← delayOf attempt
      setError id (retryError attempt (maxAttempts job) errType.text message.text) (errType.lone || message.lone)
        clock.finished
      updateStatus id .queued false false clock.finished
      scheduleDelayed seat.queue id delay clock.scheduled
    else do
      setError id (agentFailed errType.text message.text traceback.text)
        (message.lone || (errType.lone || traceback.lone)) clock.finished
      updateStatus id .failed false true clock.finished

/-- `process_one` from the pop of the id on. -/
def processOne (seat : Seat) (clock : Clock) (id : JobId) (outcome : AgentOutcome) : Run Unit := do
  match (← get).jobs.get? id with
  | none => return
  | some job =>
    if job.cancelRequested then updateStatus id .cancelled false true clock.finished
    else do
      updateStatus id .running true false clock.started
      let attempt ← incrementAttempts id
      settleRun seat clock id job attempt outcome

/-! ### What it leaves -/

/-- The job has ended, or waits in the delayed set. -/
def Secured (queue : QueueName) (id : JobId) (r : Redis) : Prop :=
  (∃ h, r.jobs.get? id = some h ∧ h.status.terminal = true) ∨ ∃ due, (r.delayed queue).get? id = some due

/-- What `process_one` can bring to an end: results and errors it can encode, and a retry whose
delay is a float and whose `ZADD` finds no list. -/
def Settles (queue : QueueName) (r : Redis) (job : JobHash) (attempt : Nat) : AgentOutcome → Prop
  | .timedOut | .silent => True
  | .ok output => output.modelDump.plain = true
  | .error errType message traceback =>
    if attempt < maxAttempts job ∧ isTransientError errType.text message.text then
      attempt ≤ 1024 ∧ errType.lone = false ∧ message.lone = false ∧ (r.kept (delayedKey queue)).isList = false
    else errType.lone = false ∧ message.lone = false ∧ traceback.lone = false

section Exec
variable {α β : Type} {r : Redis} {id : JobId} {queue : QueueName} {now : Time}

theorem exec_bind (x : Run α) (f : α → Run β) (r : Redis) :
    (x >>= f).exec r = match x.exec r with
      | (.ok a, r') => (f a).exec r'
      | (.error e, r') => (.error e, r') := by
  show (ExceptT.run (x >>= f)).run r = _
  unfold Run.exec
  rw [ExceptT.run_bind]
  simp only [StateT.run_bind]
  show (match (ExceptT.run x).run r with | (a, r') => _) = _
  cases h : (ExceptT.run x).run r with
  | mk a r' => cases a <;> rfl

theorem updateStatus_exec (id : JobId) (status : JobStatus) (started finished : Bool) (now : Time) (r : Redis) :
    (updateStatus id status started finished now).exec r =
      (.ok (), r.hset id ((Write.updateStatus status started finished).apply now)) := rfl

theorem incrementAttempts_exec (id : JobId) (r : Redis) : (incrementAttempts id).exec r =
    (.ok (r.nextAttempt id), r.hset id fun h => {h with attempts := h.attempts + 1}) := rfl

theorem scheduleDelayed_exec {delay : Nat} {r' : Redis} (h : r.zadd queue id (now + delay) = some r') :
    (scheduleDelayed queue id delay now).exec r = (.ok (), r') := by
  have hcurrent : (get : Run Redis).exec r = (.ok r, r) := rfl
  simp only [scheduleDelayed, exec_bind, hcurrent, h]
  rfl

theorem scheduleDelayed_raises {delay : Nat} (h : r.zadd queue id (now + delay) = none) :
    (scheduleDelayed queue id delay now).exec r = (.error .wrongType, r) := by
  have hcurrent : (get : Run Redis).exec r = (.ok r, r) := rfl
  simp only [scheduleDelayed, exec_bind, hcurrent, h]
  rfl

theorem setError_exec (id : JobId) (info : JobErrorInfo) (now : Time) (r : Redis) :
    (setError id info false now).exec r = (.ok (), r.hset id ((Write.setError info).apply now)) := rfl

theorem setError_raises (id : JobId) (info : JobErrorInfo) (now : Time) (r : Redis) :
    (setError id info true now).exec r = (.error .encoding, r) := rfl

theorem setResult_exec {result : PyValue} (hplain : result.plain = true) (id : JobId) (now : Time) (r : Redis) :
    ∃ text, (setResult id result now).exec r = (.ok (), r.hset id ((Write.setResult text).apply now)) := by
  obtain ⟨text, htext⟩ := (stored_iff result).mpr hplain
  exact ⟨text, by simp only [setResult, htext]; rfl⟩

theorem setResult_raises {result : PyValue} (hrefused : ¬result.plain = true) (id : JobId) (now : Time) (r : Redis) :
    (setResult id result now).exec r = (.error .encoding, r) := by
  have hnone : result.dumps.bind PyStr.encode = none := by
    cases htext : result.dumps.bind PyStr.encode with
    | none => rfl
    | some text => exact absurd ((stored_iff result).mp ⟨text, htext⟩) hrefused
  simp only [setResult, hnone]
  rfl

theorem delayOf_exec {attempt : Nat} (h : attempt ≤ 1024) (r : Redis) :
    (delayOf attempt).exec r = (.ok (retryDelay attempt), r) := by
  simp only [delayOf, if_pos h]
  rfl

theorem delayOf_raises {attempt : Nat} (h : ¬attempt ≤ 1024) (r : Redis) :
    (delayOf attempt).exec r = (.error .overflow, r) := by
  simp only [delayOf, if_neg h]
  rfl

/-- The last write of a job that ends. -/
theorem secured_closed {status : JobStatus} {started finished : Bool} (hlive : ∃ h, r.jobs.get? id = some h)
    (hterminal : status.terminal = true) :
    Secured queue id (r.hset id ((Write.updateStatus status started finished).apply now)) := by
  obtain ⟨h, hget⟩ := hlive
  refine .inl ⟨(Write.updateStatus status started finished).apply now h, ?_, hterminal⟩
  rw [Redis.get?_hset, if_pos rfl, hget]
  rfl

/-- A `ZADD` that finds no list. -/
theorem scheduleDelayed_secured (id : JobId) {delay : Nat} (hzset : (r.kept (delayedKey queue)).isList = false) :
    ∃ r', (scheduleDelayed queue id delay now).exec r = (.ok (), r') ∧ Secured queue id r' := by
  obtain ⟨r', hadd⟩ : ∃ r', r.zadd queue id (now + delay) = some r' := by
    rw [Redis.zadd, hzset]
    exact ⟨_, rfl⟩
  obtain ⟨_, hr⟩ := Redis.zadd_some hadd
  refine ⟨r', scheduleDelayed_exec hadd, .inr ⟨now + delay, ?_⟩⟩
  rw [Redis.delayed, Redis.kept_set (congrArg Redis.queues hr), if_pos rfl]
  exact Dict.get?_set_self _ _ _

theorem kept_hset (r : Redis) (id : JobId) (f : JobHash → JobHash) (key : String) :
    (r.hset id f).kept key = r.kept key := by rw [Redis.kept, (Redis.hset_frame _ _ _).2, Redis.kept]

theorem live_hset (f : JobHash → JobHash) (hlive : ∃ h, r.jobs.get? id = some h) :
    ∃ h, (r.hset id f).jobs.get? id = some h := (Redis.known_hset r id id f).mpr hlive

end Exec

section Settle
variable {r : Redis} {id : JobId} {seat : Seat} {clock : Clock} {job : JobHash} {attempt : Nat} {outcome : AgentOutcome}

/-- What can be settled is: the job ends, or is back in the delayed set. -/
theorem settleRun_secured (hlive : ∃ h, r.jobs.get? id = some h) (h : Settles seat.queue r job attempt outcome) :
    ∃ r', (settleRun seat clock id job attempt outcome).exec r = (.ok (), r') ∧ Secured seat.queue id r' := by
  cases outcome with
  | timedOut =>
    simp only [settleRun, exec_bind, setError_exec, updateStatus_exec]
    exact ⟨_, rfl, secured_closed (live_hset _ hlive) rfl⟩
  | silent =>
    simp only [settleRun, exec_bind, setError_exec, updateStatus_exec]
    exact ⟨_, rfl, secured_closed (live_hset _ hlive) rfl⟩
  | ok output =>
    obtain ⟨text, hexec⟩ := setResult_exec h id clock.finished r
    simp only [settleRun, exec_bind, hexec, updateStatus_exec]
    exact ⟨_, rfl, secured_closed (live_hset _ hlive) rfl⟩
  | error errType message traceback =>
    simp only [Settles] at h
    simp only [settleRun]
    split at h
    · rename_i hretry
      obtain ⟨hearly, hname, htext, hzset⟩ := h
      rw [if_pos hretry, hname, htext]
      simp only [exec_bind, delayOf_exec hearly, Bool.or_self, setError_exec, updateStatus_exec]
      exact scheduleDelayed_secured id (by rw [kept_hset, kept_hset]; exact hzset)
    · rename_i hfinal
      obtain ⟨hname, htext, htrace⟩ := h
      rw [if_neg hfinal, hname, htext, htrace]
      simp only [exec_bind, Bool.or_self, setError_exec, updateStatus_exec]
      exact ⟨_, rfl, secured_closed (live_hset _ hlive) rfl⟩

/-- What cannot is stopped, with the job open and the queues as they were. -/
theorem settleRun_raises (hopen : ∀ h, r.jobs.get? id = some h → h.status.terminal = false)
    (h : ¬Settles seat.queue r job attempt outcome) :
    ∃ stopped r', (settleRun seat clock id job attempt outcome).exec r = (.error stopped, r') ∧
      r'.queues = r.queues ∧ ∀ h, r'.jobs.get? id = some h → h.status.terminal = false := by
  cases outcome with
  | timedOut | silent => exact absurd trivial h
  | ok output =>
    refine ⟨.encoding, r, ?_, rfl, hopen⟩
    simp only [settleRun, exec_bind, setResult_raises h]
  | error errType message traceback =>
    simp only [Settles] at h
    simp only [settleRun]
    split at h
    · rename_i hretry
      rw [if_pos hretry]
      by_cases hearly : attempt ≤ 1024
      · by_cases hlone : (errType.lone || message.lone) = true
        · refine ⟨.encoding, r, ?_, rfl, hopen⟩
          simp only [exec_bind, delayOf_exec hearly, hlone, setError_raises]
        · rw [Bool.not_eq_true, Bool.or_eq_false_iff] at hlone
          have hlist : (r.kept (delayedKey seat.queue)).isList = true := by
            rw [← Bool.not_eq_false]
            exact fun hzset => h ⟨hearly, hlone.1, hlone.2, hzset⟩
          rw [hlone.1, hlone.2]
          simp only [exec_bind, delayOf_exec hearly, Bool.or_self, setError_exec, updateStatus_exec]
          rw [scheduleDelayed_raises (by rw [Redis.zadd, kept_hset, kept_hset, hlist]; rfl)]
          refine ⟨.wrongType, _, rfl, (Redis.hset_frame _ _ _).2.trans (Redis.hset_frame _ _ _).2, fun h hget => ?_⟩
          rw [Redis.get?_hset, if_pos rfl] at hget
          obtain ⟨_, _, rfl⟩ := Option.map_eq_some_iff.mp hget
          rfl
      · exact ⟨.overflow, r, by simp only [exec_bind, delayOf_raises hearly], rfl, hopen⟩
    · rename_i hfinal
      have hlone : (message.lone || (errType.lone || traceback.lone)) = true := by
        rw [← Bool.not_eq_false, Bool.or_eq_false_iff, Bool.or_eq_false_iff]
        intro hplain
        obtain ⟨htext, hname, htrace⟩ := hplain
        exact h ⟨hname, htext, htrace⟩
      refine ⟨.encoding, r, ?_, rfl, hopen⟩
      rw [if_neg hfinal]
      simp only [exec_bind, hlone, setError_raises]

/-- Redis as the agent's process is started. -/
def afterCount (clock : Clock) (id : JobId) (r : Redis) : Redis :=
  (r.hset id ((Write.updateStatus .running true false).apply clock.started)).hset id
    fun h => {h with attempts := h.attempts + 1}

theorem afterCount_get (hget : r.jobs.get? id = some job) : (afterCount clock id r).jobs.get? id =
    some {job with status := .running, startedAt := some clock.started, attempts := job.attempts + 1} := by
  simp only [afterCount, Redis.get?_hset, if_true, hget, Option.map_some]
  rfl

/-- The attempt a job is at once it is running. -/
theorem nextAttempt_running {now : Time} (hget : r.jobs.get? id = some job) :
    (r.hset id ((Write.updateStatus .running true false).apply now)).nextAttempt id = job.attempts + 1 := by
  simp only [Redis.nextAttempt, Redis.get?_hset, if_true, hget, Option.map_some]
  rfl

theorem afterCount_queues : (afterCount clock id r).queues = r.queues :=
  (Redis.hset_frame _ _ _).2.trans (Redis.hset_frame _ _ _).2

theorem afterCount_kept (key : String) : (afterCount clock id r).kept key = r.kept key := by
  rw [Redis.kept, afterCount_queues, Redis.kept]

/-- What can be settled does not depend on the jobs. -/
theorem settles_afterCount {queue : QueueName} :
    Settles queue (afterCount clock id r) job attempt outcome ↔ Settles queue r job attempt outcome := by
  cases outcome with
  | error => simp only [Settles, afterCount_kept]
  | _ => exact Iff.rfl

/-- A run of a live job: it was cancelled, or the agent ran for the next attempt. -/
theorem processOne_exec (hget : r.jobs.get? id = some job) (outcome : AgentOutcome) :
    (processOne seat clock id outcome).exec r =
      if job.cancelRequested then (.ok (), r.hset id ((Write.updateStatus .cancelled false true).apply clock.finished))
      else (settleRun seat clock id job (job.attempts + 1) outcome).exec (afterCount clock id r) := by
  have hcurrent : (get : Run Redis).exec r = (.ok r, r) := rfl
  simp only [processOne, exec_bind, hcurrent, hget]
  split
  · rfl
  · simp only [exec_bind, updateStatus_exec, incrementAttempts_exec, nextAttempt_running hget]
    rfl

/-- **`process_one` leaves a live job ended or in the delayed set exactly when it was cancelled
before, or what the agent left can be encoded and a retry comes by attempt 1024 (and finds no
list at its key), or the job was in the delayed set all along.** -/
theorem not_stranded_iff (seat : Seat) (clock : Clock) (outcome : AgentOutcome) (hget : r.jobs.get? id = some job) :
    Secured seat.queue id ((processOne seat clock id outcome).exec r).2 ↔
      job.cancelRequested = true ∨ Settles seat.queue r job (job.attempts + 1) outcome ∨
        ∃ due, (r.delayed seat.queue).get? id = some due := by
  rw [processOne_exec hget]
  by_cases hcancel : job.cancelRequested = true
  · rw [if_pos hcancel]
    exact ⟨fun _ => .inl hcancel, fun _ => secured_closed ⟨job, hget⟩ rfl⟩
  · rw [if_neg hcancel]
    have hlive : (afterCount clock id r).jobs.get? id = some _ := afterCount_get hget
    by_cases hsettles : Settles seat.queue r job (job.attempts + 1) outcome
    · obtain ⟨r', hexec, hsecured⟩ : ∃ r', (settleRun seat clock id job (job.attempts + 1) outcome).exec
          (afterCount clock id r) = (.ok (), r') ∧ Secured seat.queue id r' :=
        settleRun_secured ⟨_, hlive⟩ (settles_afterCount.mpr hsettles)
      rw [hexec]
      exact ⟨fun _ => .inr (.inl hsettles), fun _ => hsecured⟩
    · have hopen : ∀ h, (afterCount clock id r).jobs.get? id = some h → h.status.terminal = false := by
        intro h hh
        cases hlive.symm.trans hh
        rfl
      obtain ⟨stopped, r', hexec, hqueues, hstill⟩ :
          ∃ stopped r', (settleRun seat clock id job (job.attempts + 1) outcome).exec (afterCount clock id r) =
            (.error stopped, r') ∧ r'.queues = (afterCount clock id r).queues ∧
            ∀ h, r'.jobs.get? id = some h → h.status.terminal = false :=
        settleRun_raises hopen (mt settles_afterCount.mp hsettles)
      have hdelayed : r'.delayed seat.queue = r.delayed seat.queue := by
        rw [Redis.delayed, Redis.kept, hqueues, afterCount_queues, Redis.delayed, Redis.kept]
      rw [hexec, Secured, hdelayed]
      constructor
      · rintro (⟨h, hh, hterminal⟩ | hdue)
        · cases (hstill h hh).symm.trans hterminal
        · exact .inr (.inr hdue)
      · rintro (hcancelled | hsettled | hdue)
        · exact absurd hcancelled hcancel
        · exact absurd hsettled hsettles
        · exact .inr hdue

end Settle

/-- A transient error at the first of three attempts puts the job in the delayed set. -/
theorem not_stranded_retry :
    Secured "default" 7 ((processOne ⟨"default", 60⟩ ⟨1, 2, 2⟩ 7 (.error ⟨"OSError", false⟩
      ⟨"connection reset", false⟩ ⟨"", false⟩)).exec
        {jobs := Dict.empty.set 7 { agent := "a", createdAt := 0, runInput := "\x7b\x7d" }}).2 := by
  have hget : (Dict.empty.set (7 : JobId) ({ agent := "a", createdAt := 0, runInput := "\x7b\x7d" } : JobHash)).get? 7 =
      some { agent := "a", createdAt := 0, runInput := "\x7b\x7d" } := rfl
  refine (not_stranded_iff _ _ _ hget).mpr (.inr (.inl ?_))
  simp only [Settles]
  rw [if_pos (by decide +kernel)]
  exact ⟨by decide, trivial, trivial, rfl⟩

/-- An agent that returns an object in its data: the job stays running and is in no queue. -/
theorem process_one_strands : ¬∀ (seat : Seat) (clock : Clock) (r : Redis) (id : JobId) (job : JobHash)
    (outcome : AgentOutcome), r.jobs.get? id = some job →
      Secured seat.queue id ((processOne seat clock id outcome).exec r).2 := by
  intro hclaim
  have hsecured := hclaim ⟨"default", 60⟩ ⟨1, 2, 2⟩
    {jobs := Dict.empty.set 7 { agent := "a", createdAt := 0, runInput := "\x7b\x7d" }} 7
    { agent := "a", createdAt := 0, runInput := "\x7b\x7d" }
    (.ok {agent := ⟨"a", false⟩, data := [(⟨"when", false⟩, .refused)]}) rfl
  rcases hsecured with ⟨h, hget, hterminal⟩ | ⟨due, hdue⟩
  · cases hget
    cases hterminal
  · cases hdue

/-! ### The worker of the service

Where nothing raises, `process_one` on its own goes as a worker of the service goes that no
other process comes between. -/

/-- What the service knows of an outcome that can be encoded. -/
def AgentOutcome.encoded : AgentOutcome → Option Outcome
  | .timedOut => some .timedOut
  | .silent => some .silent
  | .ok output => (output.modelDump.dumps.bind PyStr.encode).map .ok
  | .error errType message traceback =>
    if errType.lone || message.lone || traceback.lone then none
    else some (.error errType.text message.text traceback.text)

section Service
variable (cfg : Config) {s : State} {w : Nat} {seat : Seat} {id : JobId} {job : JobHash} {attempt : Nat}

theorem leads_step {cfg : Config} {u v : State} {e : Event} (h : (service cfg).step e s = some u)
    (hrest : (service cfg).Leads Transition.anything u v) : (service cfg).Leads Transition.anything s v :=
  .head ⟨e, trivial, h⟩ hrest

/-- The redis side of a worker's writes. -/
def written (now : Time) (id : JobId) (writes : List Write) (r : Redis) : Redis :=
  writes.foldl (fun r write => r.hset id (write.apply now)) r

/-- A worker that ends a job goes through its writes, and is idle. -/
theorem leads_writes (writes : List Write) (hwrites : writes ≠ [])
    (hphase : s.worker w = .writing seat id writes none) :
    ∃ u, (service cfg).Leads Transition.anything s u ∧ u.worker w = .idle ∧ u.redis = written s.now id writes s.redis := by
  induction writes generalizing s with
  | nil => exact absurd rfl hwrites
  | cons write rest ih =>
    by_cases hrest : rest = []
    · subst hrest
      refine ⟨(s.hset id write).setWorker w .idle, leads_step (e := .writeBack w) ?_ .refl, worker_setWorker _ _ _, rfl⟩
      show s.writeBack w = _
      simp only [State.writeBack, hphase, and_self, if_true]
    · have hstep : (service cfg).step (.writeBack w) s =
          some ((s.hset id write).setWorker w (.writing seat id rest none)) := by
        show s.writeBack w = _
        simp only [State.writeBack, hphase, hrest, false_and, if_false]
      obtain ⟨u, hleads, hidle, hredis⟩ := ih hrest (worker_setWorker _ _ _)
      exact ⟨u, leads_step hstep hleads, hidle, hredis⟩

/-- One that retries schedules the job after them. -/
theorem leads_retry (writes : List Write) {delay : Nat} {r' : Redis}
    (hphase : s.worker w = .writing seat id writes (some delay))
    (hadd : (written s.now id writes s.redis).zadd seat.queue id (s.now + delay) = some r') :
    ∃ u, (service cfg).Leads Transition.anything s u ∧ u.worker w = .idle ∧ u.redis = r' := by
  induction writes generalizing s with
  | nil =>
    have hstep : (service cfg).step (.schedule w) s = some (State.setWorker
        {s with redis := r', dues := s.dues.set id (s.now + delay)} w .idle) := by
      show s.schedule w = _
      replace hadd : s.redis.zadd seat.queue id (s.now + delay) = some r' := hadd
      simp only [State.schedule, hphase, hadd]
    exact ⟨_, leads_step hstep .refl, worker_setWorker _ _ _, rfl⟩
  | cons write rest ih =>
    have hstep : (service cfg).step (.writeBack w) s =
        some ((s.hset id write).setWorker w (.writing seat id rest (some delay))) := by
      show s.writeBack w = _
      simp only [State.writeBack, hphase, reduceCtorEq, and_false, if_false]
    obtain ⟨u, hleads, hidle, hredis⟩ :=
      ih (s := (s.hset id write).setWorker w (.writing seat id rest (some delay))) (worker_setWorker _ _ _) hadd
    exact ⟨u, leads_step hstep hleads, hidle, hredis⟩

theorem leads_finish {o : Outcome} {writes : List Write} {delay : Option Nat}
    (hphase : s.worker w = .running seat id job attempt)
    (hconclude : State.conclude seat job attempt o = some (writes, delay)) :
    (service cfg).step (.finish w o) s = some (s.setWorker w (.writing seat id writes delay)) := by
  show s.finish w o = _
  simp only [State.finish, hphase, hconclude]

theorem settleRun_service {outcome : AgentOutcome} {o : Outcome} (hphase : s.worker w = .running seat id job attempt)
    (hencoded : outcome.encoded = some o) {r' : Redis}
    (hexec : (settleRun seat ⟨s.now, s.now, s.now⟩ id job attempt outcome).exec s.redis = (.ok (), r')) :
    ∃ u, (service cfg).Leads Transition.anything s u ∧ u.worker w = .idle ∧ u.redis = r' := by
  have hended {writes : List Write} (hwrites : writes ≠ [])
      (hconclude : State.conclude seat job attempt o = some (writes, none))
      (hwritten : written s.now id writes s.redis = r') :
      ∃ u, (service cfg).Leads Transition.anything s u ∧ u.worker w = .idle ∧ u.redis = r' := by
    obtain ⟨u, hleads, hidle, hredis⟩ := leads_writes cfg writes hwrites (worker_setWorker s w _)
    exact ⟨u, leads_step (leads_finish cfg hphase hconclude) hleads, hidle, hredis.trans hwritten⟩
  cases outcome with
  | timedOut =>
    cases hencoded
    simp only [settleRun, exec_bind, setError_exec, updateStatus_exec] at hexec
    cases hexec
    exact hended (List.cons_ne_nil _ _) rfl rfl
  | silent =>
    cases hencoded
    simp only [settleRun, exec_bind, setError_exec, updateStatus_exec] at hexec
    cases hexec
    exact hended (List.cons_ne_nil _ _) rfl rfl
  | ok output =>
    obtain ⟨text, htext, rfl⟩ := Option.map_eq_some_iff.mp hencoded
    simp only [settleRun, setResult, htext] at hexec
    cases hexec
    exact hended (List.cons_ne_nil _ _) rfl rfl
  | error errType message traceback =>
    simp only [AgentOutcome.encoded] at hencoded
    split at hencoded
    · cases hencoded
    · rename_i hlone
      cases hencoded
      rw [Bool.not_eq_true, Bool.or_eq_false_iff, Bool.or_eq_false_iff] at hlone
      obtain ⟨⟨hname, htext⟩, htrace⟩ := hlone
      simp only [settleRun, hname, htext, htrace, Bool.or_self] at hexec
      split at hexec
      · rename_i hretry
        by_cases hearly : attempt ≤ 1024
        · simp only [exec_bind, delayOf_exec hearly, setError_exec, updateStatus_exec] at hexec
          have hconclude : State.conclude seat job attempt (.error errType.text message.text traceback.text) =
              some ([.setError (retryError attempt (maxAttempts job) errType.text message.text),
                .updateStatus .queued false false], some (retryDelay attempt)) := by
            simp only [State.conclude, if_pos hretry, if_pos hearly]
          cases hadd : (written s.now id [.setError (retryError attempt (maxAttempts job) errType.text message.text),
              .updateStatus .queued false false] s.redis).zadd seat.queue id (s.now + retryDelay attempt) with
          | none => cases (scheduleDelayed_raises hadd).symm.trans hexec
          | some added =>
            cases (scheduleDelayed_exec hadd).symm.trans hexec
            obtain ⟨u, hleads, hidle, hredis⟩ := leads_retry cfg _ (worker_setWorker s w _) hadd
            exact ⟨u, leads_step (leads_finish cfg hphase hconclude) hleads, hidle, hredis⟩
        · simp only [exec_bind, delayOf_raises hearly] at hexec
          cases hexec
      · rename_i hfinal
        simp only [exec_bind, setError_exec, updateStatus_exec] at hexec
        cases hexec
        have hconclude : State.conclude seat job attempt (.error errType.text message.text traceback.text) =
            some ([.setError (agentFailed errType.text message.text traceback.text),
              .updateStatus .failed false true], none) := by
          simp only [State.conclude, if_neg hfinal]
        exact hended (List.cons_ne_nil _ _) hconclude rfl

/-- From the first write on to the start of the agent. -/
theorem leads_running (hphase : s.worker w = .marked seat id job) :
    ∃ u, (service cfg).Leads Transition.anything s u ∧ u.now = s.now ∧
      u.worker w = .running seat id job (s.redis.nextAttempt id) ∧
      u.redis = s.redis.hset id fun h => {h with attempts := h.attempts + 1} := by
  have hcount : (service cfg).step (.count w) s =
      some (State.setWorker {s with redis := s.redis.hset id fun h => {h with attempts := h.attempts + 1}} w
        (.counted seat id job (s.redis.nextAttempt id))) := by
    show s.count w = _
    simp only [State.count, hphase]
  have hstart : ∀ m : State, m.worker w = .counted seat id job (s.redis.nextAttempt id) →
      (service cfg).step (.start w) m = some (State.setWorker {m with started := id :: m.started} w
        (.running seat id job (s.redis.nextAttempt id))) := by
    intro m hm
    show m.start w = _
    simp only [State.start, hm]
  exact ⟨_, leads_step hcount (leads_step (hstart _ (worker_setWorker _ _ _)) .refl), rfl, worker_setWorker _ _ _, rfl⟩

/-- **Where `process_one` returns, a worker of the service that holds the job can go through its
steps to the same Redis.** -/
theorem processOne_service {outcome : AgentOutcome} {o : Outcome} (hphase : s.worker w = .holding seat id)
    (hget : s.redis.jobs.get? id = some job) (hencoded : outcome.encoded = some o) {r' : Redis}
    (hexec : (processOne seat ⟨s.now, s.now, s.now⟩ id outcome).exec s.redis = (.ok (), r')) :
    ∃ u, (service cfg).Leads Transition.anything s u ∧ u.worker w = .idle ∧ u.redis = r' := by
  have hload : (service cfg).step (.load w) s = some (s.setWorker w (.loaded seat id job)) := by
    show s.load w = _
    simp only [State.load, hphase, hget]
  have hloaded := worker_setWorker s w (.loaded seat id job)
  rw [processOne_exec hget] at hexec
  split at hexec
  · rename_i hcancel
    cases hexec
    have hbegin : (service cfg).step (.begin w) (s.setWorker w (.loaded seat id job)) =
        some (((s.setWorker w (.loaded seat id job)).hset id (.updateStatus .cancelled false true)).setWorker w .idle) := by
      show State.begin w _ = _
      simp only [State.begin, hloaded, hcancel, if_true]
    exact ⟨_, leads_step hload (leads_step hbegin .refl), worker_setWorker _ _ _, rfl⟩
  · rename_i hcancel
    have hbegin : (service cfg).step (.begin w) (s.setWorker w (.loaded seat id job)) =
        some (((s.setWorker w (.loaded seat id job)).hset id (.updateStatus .running true false)).setWorker w
          (.marked seat id job)) := by
      show State.begin w _ = _
      simp only [State.begin, hloaded, hcancel]
      rfl
    obtain ⟨m, hleads, hnow, hrunning, hredis⟩ := leads_running cfg
      (worker_setWorker ((s.setWorker w (.loaded seat id job)).hset id (.updateStatus .running true false)) w _)
    replace hrunning : m.worker w = .running seat id job (job.attempts + 1) := by
      have hnext : (s.redis.hset id ((Write.updateStatus .running true false).apply s.now)).nextAttempt id =
          job.attempts + 1 := nextAttempt_running hget
      rw [← hnext]
      exact hrunning
    replace hexec : (settleRun seat ⟨m.now, m.now, m.now⟩ id job (job.attempts + 1) outcome).exec m.redis =
        (.ok (), r') := by
      rw [hnow, hredis]
      exact hexec
    obtain ⟨u, hrest, hidle, hu⟩ := settleRun_service cfg hrunning hencoded hexec
    exact ⟨u, leads_step hload (leads_step hbegin (hleads.trans hrest)), hidle, hu⟩

end Service

end SynQc.Agents
