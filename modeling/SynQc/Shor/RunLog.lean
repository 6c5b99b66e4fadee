import Mathlib.Data.List.DropRight
import SynQc.Library.Transition
import SynQc.Shor.Facade
import SynQc.Shor.KeyGeneration
import SynQc.Shor.Text

/-! The routes of the Shor panel with their run log: `api.py`, `run_store.py` and `estimate.py`.

A route that is on and has what it needs runs in a `try`, and however that ends, normally or with an
`Exception`, one record is made of it. The newest records are kept in memory behind a lock, and each may then
be appended to a file, which can fail and is not behind the lock. So the memory always holds the last records
in the order of the lock, a run can be looked up until as many others have been recorded as are kept, and a
record has at most one line in the file (`runLog_faithful`). -/
namespace SynQc.Shor.RunLog
open Transition

/-! ### Requests and their answers -/

/-- The settings of the feature. -/
structure Config where
  /-- `SYNQC_SHOR_ENABLE` -/
  enable : Bool := true
  allowText : Bool := true
  includeSteps : Bool := true
  /-- `SYNQC_SHOR_RUN_LOG_MAX` -/
  runLogMax : ℤ := 200
  /-- `SYNQC_SHOR_RUN_LOG_PATH` is set. -/
  logsToFile : Bool := false
  /-- How deep the calls of a route may still go under the interpreter's recursion limit. -/
  frames : ℕ
  env : Facade.Environment

inductive ShorRequest where
  | factor (N : ℤ) (method : String) (options : Facade.ShorOptions)
  | generate (bits e : ℤ)
  | encrypt (N e : ℤ) (plaintextInt : Option ℤ) (plaintextText : Option String)
  | decrypt (N e ciphertextInt : ℤ) (method : String) (options : Facade.ShorOptions)
  | estimate (N : ℤ)

/-- `kind` -/
def ShorRequest.kind : ShorRequest → String
  | .factor .. => "shor_factor"
  | .generate .. => "rsa_generate"
  | .encrypt .. => "rsa_encrypt"
  | .decrypt .. => "rsa_decrypt"
  | .estimate .. => "shor_estimate"

/-- `resp_payload`, without the notes of the estimate, which are constant. -/
inductive Answer where
  | factored (N p q : ℤ) (methodUsed : String) (steps : Option (List Facade.StepTiming))
  | generated (kp : RSAKeyPair)
  | encrypted (response : RSAEncryptResponse)
  | decrypted (plaintextInt : ℤ) (plaintextText : Option String) (p q d : ℤ) (methodUsed : String)
      (steps : Option (List Facade.StepTiming))
  | estimated (nBits maxBitsCap : ℤ) (qiskitAvailable : Bool) (logicalQubitsTextbook : ℤ)

/-- How the `try` of a route ends. Its handler lets through what is no `Exception`. -/
inductive Ended where
  | returned (answer : Answer)
  | raised (text : String)
  | escaped (e : Facade.Raised)

/-- The random numbers of a request, and how long classical factoring may take. -/
structure Luck where
  fuel : ℕ
  factoring : List (ℕ × ℕ)
  primes : List Draw

def Ended.of (e : Facade.Raised) : Ended := if e.isException then .raised e.text else .escaped e

/-- `est` -/
def estimateShorResources (c : Config) (N : ℤ) : Except String Answer :=
  if N ≤ 0 then .error "N must be positive"
  else .ok (.estimated N.toNat.size c.env.maxNBits c.env.isQiskitAvailable (3 * N.toNat.size))

/-- What `/rsa/decrypt` does with the factors. -/
def derive (c : Config) (N e ciphertextInt : ℤ) (fres : Facade.FactorResult) : Except String Answer := do
  let phi := (fres.p - 1) * (fres.q - 1)
  let d ← modinv c.frames e phi
  let m ← rsaDecryptInt ciphertextInt N d
  let steps := if c.includeSteps then some (fres.steps ++ [{ name := "derive_private_key+decrypt" }]) else none
  return .decrypted m (if c.allowText then intToText m else none) fres.p fres.q d fres.methodUsed steps

def Ended.ofExcept : Except String Answer → Ended
  | .ok answer => .returned answer
  | .error text => .raised text

/-- The body of a route's `try`; `none` while it is running. -/
def ShorRequest.body (c : Config) (luck : Luck) : ShorRequest → Option Ended
  | .factor N method options =>
    match Facade.factorN c.env options N (some method) luck.fuel luck.factoring with
    | .error e => some (.of e)
    | .ok none => none
    | .ok (some res) =>
      some (.returned (.factored res.N res.p res.q res.methodUsed (if c.includeSteps then some res.steps else none)))
  | .generate bits e =>
    match generateKeypair c.frames bits e luck.primes with
    | .error text => some (.raised text)
    | .ok none => none
    | .ok (some kp) => some (.returned (.generated kp))
  | .encrypt N e plaintextInt plaintextText =>
    some (.ofExcept ((rsaEncrypt c.allowText plaintextInt plaintextText N e).map .encrypted))
  | .decrypt N e ciphertextInt method options =>
    match Facade.factorN c.env options N (some method) luck.fuel luck.factoring with
    | .error e => some (.of e)
    | .ok none => none
    | .ok (some fres) => some (.ofExcept (derive c N e ciphertextInt fres))
  | .estimate N => some (.ofExcept (estimateShorResources c N))

/-! ### The store -/

structure RunRecord where
  runId : ℕ
  tsUtc : ℚ
  kind : String
  ok : Bool
  runtimeMs : ℚ
  request : ShorRequest
  response : Option Answer
  error : Option String

structure RunSummary where
  runId : ℕ
  tsUtc : ℚ
  kind : String
  ok : Bool
  runtimeMs : ℚ

def RunRecord.toPublicSummary (r : RunRecord) : RunSummary := ⟨r.runId, r.tsUtc, r.kind, r.ok, r.runtimeMs⟩

/-- `record_run` under its lock. -/
def keepRun (runLogMax : ℤ) (runs : List RunRecord) (rec : RunRecord) : List RunRecord :=
  let runs := runs ++ [rec]
  if runLogMax < runs.length then runs.drop (runs.length - runLogMax).toNat else runs

def listRuns (limit : ℤ) (runs : List RunRecord) : List RunSummary :=
  let limit := max 1 (min limit 500)
  (runs.rtake limit.toNat).reverse.map RunRecord.toPublicSummary

def getRun (runId : ℕ) (runs : List RunRecord) : Option RunRecord := runs.find? fun r => r.runId = runId

/-! ### Routes -/

inductive Reply where
  | disabled
  | badRequest (detail : String)
  | served (runId : ℕ) (answer : Answer)
  | escaped (e : Facade.Raised)

/-- The identifier, the clock and the run time of a record. -/
structure Stamp where
  runId : ℕ
  tsUtc : ℚ
  runtimeMs : ℚ

/-- What is refused before the `try`. -/
def refusal (c : Config) : ShorRequest → Option Reply
  | .encrypt _ _ none plaintextText =>
    if !c.enable then some .disabled
    else if plaintextText = none ∨ plaintextText = some "" then
      some (.badRequest "Provide plaintext_int or plaintext_text.")
    else none
  | _ => if !c.enable then some .disabled else none

def recordOf (request : ShorRequest) (stamp : Stamp) : Ended → Option RunRecord
  | .returned answer =>
    some ⟨stamp.runId, stamp.tsUtc, request.kind, true, stamp.runtimeMs, request, some answer, none⟩
  | .raised text =>
    some ⟨stamp.runId, stamp.tsUtc, request.kind, false, stamp.runtimeMs, request, none, some text⟩
  | .escaped _ => none

def replyOf (stamp : Stamp) : Ended → Reply
  | .returned answer => .served stamp.runId answer
  | .raised text => .badRequest text
  | .escaped e => .escaped e

/-- What a request is answered and the record that is made of it; `none` while it is running. -/
def serve (c : Config) (request : ShorRequest) (stamp : Stamp) (luck : Luck) : Option (Reply × Option RunRecord) :=
  match refusal c request with
  | some reply => some (reply, none)
  | none => (request.body c luck).map fun ended => (replyOf stamp ended, recordOf request stamp ended)

/-! ### The system -/

structure State where
  /-- `_RUNS` -/
  runs : List RunRecord
  /-- The lines of the file. -/
  file : List RunRecord
  /-- Recorded, by threads that have not come to the file yet. -/
  writing : List RunRecord
  /-- Every record there ever was, in the order of the lock. -/
  recorded : List RunRecord

inductive Event where
  /-- A request, up to its record. -/
  | request (request : ShorRequest) (stamp : Stamp) (luck : Luck)
  /-- A thread appends its line, or fails to. -/
  | line (thread : ℕ) (written : Bool)

def State.record (c : Config) (s : State) (rec : RunRecord) : State where
  runs := keepRun c.runLogMax s.runs rec
  file := s.file
  writing := if c.logsToFile then s.writing ++ [rec] else s.writing
  recorded := s.recorded ++ [rec]

/-- No two identifiers of records are the same, as `uuid4` has it. -/
def step (c : Config) : Event → State → Option State
  | .request request stamp luck, s =>
    (serve c request stamp luck).bind fun served =>
      match served.2 with
      | none => some s
      | some rec => if rec.runId ∈ s.recorded.map RunRecord.runId then none else some (s.record c rec)
  | .line thread written, s =>
    s.writing[thread]?.map fun rec =>
      { s with file := if written then s.file ++ [rec] else s.file, writing := s.writing.eraseIdx thread }

def panel (c : Config) : System State Event where
  init s := s = ⟨[], [], [], []⟩
  step := step c

/-! ### The ring buffer -/

section Store
variable {runs recorded : List RunRecord} {rec : RunRecord}

/-- The last records stay the last. -/
theorem keepRun_rtake (runLogMax : ℤ) (recorded : List RunRecord) (rec : RunRecord) :
    keepRun runLogMax (recorded.rtake runLogMax.toNat) rec = (recorded ++ [rec]).rtake runLogMax.toNat := by
  have hdrop : recorded.rtake runLogMax.toNat ++ [rec] =
    (recorded ++ [rec]).drop (recorded.length - runLogMax.toNat) := by
    rw [List.rtake, List.drop_append_of_le_length (by omega)]
  have hlength : (recorded ++ [rec]).length = recorded.length + 1 := List.length_append
  rw [keepRun, hdrop, List.drop_drop, List.rtake]
  simp only [List.length_drop, hlength]
  split
  · by_cases hmax : 0 ≤ runLogMax
    · congr 1
      omega
    · -- nothing is kept
      rw [List.drop_eq_nil_of_le (by omega), List.drop_eq_nil_of_le (by omega)]
  · congr 1
    omega

/-- A list shows the newest first. -/
theorem listRuns_rtake (limit : ℤ) (n : ℕ) (recorded : List RunRecord) :
    listRuns limit (recorded.rtake n) =
      (recorded.reverse.take (min (max 1 (min limit 500)).toNat n)).map RunRecord.toPublicSummary := by
  rw [listRuns, List.rtake_eq_reverse_take_reverse, List.rtake_eq_reverse_take_reverse, List.reverse_reverse,
    List.reverse_reverse, List.take_take]

/-- What is looked up is what is kept, under its identifier. -/
theorem getRun_iff (hnodup : (runs.map RunRecord.runId).Nodup) {runId : ℕ} :
    getRun runId runs = some rec ↔ rec ∈ runs ∧ rec.runId = runId := by
  have hfound : ∀ other, getRun runId runs = some other → other ∈ runs ∧ other.runId = runId := by
    intro other hother
    have hid := List.find?_some hother
    exact ⟨List.mem_of_find?_eq_some hother, of_decide_eq_true hid⟩
  constructor
  · exact hfound rec
  · intro h
    obtain ⟨hmem, hid⟩ := h
    cases hfind : getRun runId runs with
    | none => exact absurd (decide_eq_true hid) (List.find?_eq_none.mp hfind rec hmem)
    | some other =>
      obtain ⟨hother, hotherId⟩ := hfound other hfind
      rw [List.inj_on_of_nodup_map hnodup hother hmem (hotherId.trans hid.symm)]

end Store

/-! ### Runs -/

/-- The record of a request that ended. -/
def Made (c : Config) (rec : RunRecord) : Prop :=
  ∃ luck ended, refusal c rec.request = none ∧ rec.request.body c luck = some ended ∧
    recordOf rec.request ⟨rec.runId, rec.tsUtc, rec.runtimeMs⟩ ended = some rec

/-- What holds of the log. -/
structure Kept (c : Config) (s : State) : Prop where
  runs : s.runs = s.recorded.rtake c.runLogMax.toNat
  ids : (s.recorded.map RunRecord.runId).Nodup
  made : ∀ rec ∈ s.recorded, Made c rec
  /-- Each record has a line, is to get one, or has lost its own. -/
  lines : ∃ lost, (s.file ++ s.writing ++ lost).Perm (if c.logsToFile then s.recorded else [])

section Runs
variable {c : Config} {s t u : State} {request : ShorRequest} {stamp : Stamp} {luck : Luck} {reply : Reply} {rec : RunRecord}

/-- A record says what its request was answered. -/
theorem serve_record (h : serve c request stamp luck = some (reply, some rec)) :
    Made c rec ∧ rec.runId = stamp.runId ∧ rec.request = request ∧ rec.kind = request.kind ∧
      ((∃ answer, reply = .served stamp.runId answer ∧ rec.ok = true ∧ rec.response = some answer ∧ rec.error = none) ∨
        ∃ text, reply = .badRequest text ∧ rec.ok = false ∧ rec.response = none ∧ rec.error = some text) := by
  rw [serve] at h
  cases hrefusal : refusal c request with
  | some refused =>
    rw [hrefusal] at h
    cases h
  | none =>
    rw [hrefusal] at h
    obtain ⟨ended, hended, hpair⟩ := Option.map_eq_some_iff.mp h
    obtain ⟨hreply, hrec⟩ := Prod.mk.inj hpair
    cases ended with
    | returned answer =>
      obtain rfl := Option.some.inj hrec
      exact ⟨⟨luck, _, hrefusal, hended, rfl⟩, rfl, rfl, rfl, .inl ⟨answer, hreply.symm, rfl, rfl, rfl⟩⟩
    | raised text =>
      obtain rfl := Option.some.inj hrec
      exact ⟨⟨luck, _, hrefusal, hended, rfl⟩, rfl, rfl, rfl, .inr ⟨text, hreply.symm, rfl, rfl, rfl⟩⟩
    | escaped e => cases hrec

/-- What a request can do: leave the log, or add its record to it. -/
theorem step_request (h : step c (.request request stamp luck) s = some t) :
    ∃ reply made, serve c request stamp luck = some (reply, made) ∧
      (made = none ∧ t = s ∨
        ∃ rec, made = some rec ∧ rec.runId ∉ s.recorded.map RunRecord.runId ∧ t = s.record c rec) := by
  obtain ⟨served, hserved, h⟩ := Option.bind_eq_some_iff.mp h
  obtain ⟨reply, made⟩ := served
  refine ⟨reply, made, hserved, ?_⟩
  cases made with
  | none => exact .inl ⟨rfl, (Option.some.inj h).symm⟩
  | some rec =>
    dsimp only at h
    split at h
    · cases h
    · rename_i hfresh
      exact .inr ⟨rec, rfl, hfresh, (Option.some.inj h).symm⟩

/-- What a thread at the file can do. -/
theorem step_line {thread : ℕ} {written : Bool} (h : step c (.line thread written) s = some t) :
    ∃ hlt : thread < s.writing.length, t.runs = s.runs ∧ t.recorded = s.recorded ∧
      t.writing = s.writing.eraseIdx thread ∧
      t.file = if written then s.file ++ [s.writing[thread]] else s.file := by
  obtain ⟨rec, hrec, rfl⟩ := Option.map_eq_some_iff.mp h
  obtain ⟨hlt, rfl⟩ := List.getElem?_eq_some_iff.mp hrec
  exact ⟨hlt, rfl, rfl, rfl, rfl⟩

theorem kept_record (hs : Kept c s) (hmade : Made c rec) (hfresh : rec.runId ∉ s.recorded.map RunRecord.runId) :
    Kept c (s.record c rec) where
  runs := by
    rw [State.record]
    dsimp only
    rw [hs.runs, keepRun_rtake]
  ids := by
    rw [State.record]
    dsimp only
    rw [List.map_append, List.map_singleton]
    exact List.nodup_append.mpr ⟨hs.ids, List.nodup_singleton _, by
      intro a ha b hb heq
      rw [List.mem_singleton.mp hb] at heq
      exact hfresh (heq ▸ ha)⟩
  made other hother := by
    obtain hother | hother := List.mem_append.mp hother
    · exact hs.made other hother
    · rw [List.mem_singleton.mp hother]
      exact hmade
  lines := by
    obtain ⟨lost, hlost⟩ := hs.lines
    refine ⟨lost, ?_⟩
    rw [State.record]
    dsimp only
    split
    · rename_i hlogs
      rw [if_pos hlogs] at hlost
      have hlast : (s.file ++ (s.writing ++ [rec]) ++ lost).Perm (s.file ++ s.writing ++ lost ++ [rec]) := by
        rw [← List.append_assoc, List.append_assoc _ [rec], List.append_assoc _ lost]
        exact List.perm_append_comm.append_left _
      exact hlast.trans (hlost.append_right [rec])
    · rename_i hlogs
      rwa [if_neg hlogs] at hlost

theorem kept_line {thread : ℕ} {written : Bool} (hs : Kept c s) (h : step c (.line thread written) s = some t) :
    Kept c t := by
  obtain ⟨hlt, hruns, hrecorded, hwriting, hfile⟩ := step_line h
  obtain ⟨lost, hlost⟩ := hs.lines
  have hperm : (s.writing[thread] :: s.writing.eraseIdx thread).Perm s.writing := List.getElem_cons_eraseIdx_perm hlt
  have hsame : ∃ lost', (t.file ++ t.writing ++ lost').Perm (s.file ++ s.writing ++ lost) := by
    rw [hfile, hwriting]
    cases written with
    | true =>
      refine ⟨lost, ?_⟩
      rw [if_pos rfl, List.append_assoc s.file [_]]
      exact (hperm.append_left s.file).append_right lost
    | false =>
      refine ⟨s.writing[thread] :: lost, ?_⟩
      rw [if_neg Bool.false_ne_true, List.append_assoc, List.append_assoc]
      exact (List.perm_middle.trans (hperm.append_right lost)).append_left s.file
  refine ⟨by rw [hruns, hrecorded, hs.runs], by rw [hrecorded]; exact hs.ids, by rw [hrecorded]; exact hs.made, ?_⟩
  obtain ⟨lost', hlost'⟩ := hsame
  rw [hrecorded]
  exact ⟨lost', hlost'.trans hlost⟩

theorem kept_step (hs : Kept c s) {e : Event} (h : step c e s = some t) : Kept c t := by
  cases e with
  | request request stamp luck =>
    obtain ⟨reply, made, hserve, hcases⟩ := step_request h
    obtain ⟨-, rfl⟩ | ⟨rec, rfl, hfresh, rfl⟩ := hcases
    · exact hs
    · exact kept_record hs (serve_record hserve).1 hfresh
  | line thread written => exact kept_line hs h

theorem kept_reachable (hs : (panel c).Reachable anything s) : Kept c s := by
  refine System.reachable_invariant (I := Kept c) ?_ (fun _ _ _ hs _ h => kept_step hs h) hs
  intro s hinit
  obtain rfl : s = ⟨[], [], [], []⟩ := hinit
  exact ⟨by rw [List.rtake_nil], List.nodup_nil, by simp, [], by simp⟩

/-- Nothing that was recorded is undone. -/
theorem recorded_extends (hl : (panel c).Leads anything s t) : s.recorded <+: t.recorded := by
  refine System.leads_relation (I := fun _ => True) (R := fun s t => s.recorded <+: t.recorded)
    (fun _ _ _ _ _ _ => trivial)
    (fun _ => List.prefix_rfl) (fun _ _ _ => List.IsPrefix.trans) ?_ hl trivial
  intro e s t _ _ h
  cases e with
  | request request stamp luck =>
    obtain ⟨reply, made, -, hcases⟩ := step_request h
    obtain ⟨-, rfl⟩ | ⟨rec, rfl, -, rfl⟩ := hcases
    · exact List.prefix_rfl
    · exact List.prefix_append _ _
  | line thread written =>
    obtain ⟨-, -, hrecorded, -⟩ := step_line (c := c) h
    rw [hrecorded]

/-- **The log is faithful.** Over every interleaving of the requests and of the threads at the file, the memory holds
the last records in the order of the lock, a listing shows the newest of them and a look-up finds just them; a record
has at most one line. What a request was answered can be looked up until as many others have been recorded as are
kept. -/
theorem runLog_faithful (hs : (panel c).Reachable anything s) :
    s.runs = s.recorded.rtake c.runLogMax.toNat ∧
      (∀ limit, listRuns limit s.runs =
        (s.recorded.reverse.take (min (max 1 (min limit 500)).toNat c.runLogMax.toNat)).map RunRecord.toPublicSummary) ∧
      (∀ runId rec, getRun runId s.runs = some rec ↔
        rec ∈ s.recorded.reverse.take c.runLogMax.toNat ∧ rec.runId = runId) ∧
      (∃ lost, (s.file ++ s.writing ++ lost).Perm (if c.logsToFile then s.recorded else [])) ∧
      ∀ request stamp luck reply rec t u, serve c request stamp luck = some (reply, some rec) →
        (panel c).step (.request request stamp luck) s = some t → (panel c).Leads anything t u →
        u.recorded.length ≤ s.recorded.length + c.runLogMax.toNat →
        getRun stamp.runId u.runs = some rec ∧ rec.request = request ∧
          ((∃ answer, reply = .served stamp.runId answer ∧ rec.ok = true ∧ rec.response = some answer) ∨
            ∃ text, reply = .badRequest text ∧ rec.ok = false ∧ rec.error = some text) := by
  have hkept := kept_reachable hs
  have hget : ∀ {v : State}, (panel c).Reachable anything v → ∀ runId rec, getRun runId v.runs = some rec ↔
      rec ∈ v.recorded.reverse.take c.runLogMax.toNat ∧ rec.runId = runId := by
    intro v hv runId rec
    have hkept := kept_reachable hv
    have hsuffix : v.runs <:+ v.recorded := by
      rw [hkept.runs]
      exact List.drop_suffix _ _
    rw [getRun_iff (hkept.ids.sublist (hsuffix.sublist.map _)), hkept.runs, List.rtake_eq_reverse_take_reverse,
      List.mem_reverse]
  refine ⟨hkept.runs, fun limit => by rw [hkept.runs, listRuns_rtake], hget hs, hkept.lines, ?_⟩
  intro request stamp luck reply rec t u hserve hstep hl hlength
  obtain ⟨-, hid, hrequest, -, hanswer⟩ := serve_record hserve
  obtain ⟨reply', made, hserve', hcases⟩ := step_request hstep
  obtain ⟨-, rfl⟩ := Prod.mk.inj (Option.some.inj (hserve.symm.trans hserve'))
  obtain ⟨hnone, -⟩ | ⟨rec', hsome, -, rfl⟩ := hcases
  · cases hnone
  · obtain rfl := Option.some.inj hsome
    obtain ⟨later, hlater⟩ := recorded_extends hl
    have hrecorded : u.recorded = s.recorded ++ [rec] ++ later := hlater.symm
    have hmem : rec ∈ u.recorded.reverse.take c.runLogMax.toNat := by
      rw [hrecorded, List.length_append, List.length_append, List.length_singleton] at hlength
      rw [hrecorded, List.reverse_append, List.reverse_append, List.reverse_singleton]
      refine List.mem_of_getElem? (i := later.length) ?_
      rw [List.getElem?_take_of_lt (by omega), List.getElem?_append_right (by rw [List.length_reverse]),
        List.length_reverse, Nat.sub_self]
      rfl
    refine ⟨(hget ((hs.next trivial hstep).trans hl) _ _).mpr ⟨hmem, hid⟩, hrequest, ?_⟩
    obtain ⟨answer, hreply, hok, hresponse, -⟩ | ⟨text, hreply, hok, -, herror⟩ := hanswer
    · exact .inl ⟨answer, hreply, hok, hresponse⟩
    · exact .inr ⟨text, hreply, hok, herror⟩

end Runs

/-- A panel that keeps two records and writes a file. -/
def keepsTwo : Config where
  runLogMax := 2
  logsToFile := true
  frames := 900
  env := Facade.samplerWith (.ok (Facade.pairResult 3 5))

/-- Two estimates, of which the first has come to the file; the second is refused. -/
def twoEstimates : List Event :=
  [.request (.estimate 15) ⟨7, 0, 1⟩ ⟨0, [], []⟩, .request (.estimate 0) ⟨8, 1, 1⟩ ⟨0, [], []⟩, .line 0 true]

/-- After a third estimate the first is in the file alone, and the third is still there when the next line is. -/
theorem runLog_faithful_keepsTwo : ∃ s t u rec,
    (panel keepsTwo).run ⟨[], [], [], []⟩ twoEstimates = some s ∧
      (panel keepsTwo).step (.request (.estimate 21) ⟨9, 2, 1⟩ ⟨0, [], []⟩) s = some t ∧
      (panel keepsTwo).step (.line 0 true) t = some u ∧
      u.file.map RunRecord.runId = [7, 8] ∧ u.recorded.map RunRecord.runId = [7, 8, 9] ∧
      s.runs = s.recorded.rtake 2 ∧ getRun 7 u.runs = none ∧
      getRun 9 u.runs = some rec ∧ rec.request = .estimate 21 := by
  have hrun : (panel keepsTwo).run ⟨[], [], [], []⟩ twoEstimates = some _ := rfl
  obtain ⟨hkept, -, -, -, hlog⟩ := runLog_faithful (System.run_reachable rfl hrun)
  obtain ⟨hget, hrequest, -⟩ := hlog (.estimate 21) ⟨9, 2, 1⟩ ⟨0, [], []⟩ _ _ _ _ rfl rfl
    (.single ⟨.line 0 true, trivial, rfl⟩) (by decide)
  exact ⟨_, _, _, _, rfl, rfl, rfl, rfl, rfl, hkept, rfl, hget, hrequest⟩

end SynQc.Shor.RunLog
