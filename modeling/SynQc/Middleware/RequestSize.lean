import Mathlib.Data.List.TakeDrop
import SynQc.Library.Spool

/-! The cap on request bodies.

A request that declares a length over the cap is answered at once. One that declares a
length within it, under most of the usual content types, is passed on as it comes and never
counted; every other body is counted into a file, and the application is given the file's
pages. The file is closed when the application starts its response.

A counted body is capped, and its pages are the body in order (`pages_replay`). A body that
is passed on is the application's whole, but only its declared length was compared with the
cap (`body_capped_iff`). -/
namespace SynQc.Middleware

abbrev Bytes := List UInt8

/-! ### Requests -/

/-- A message of the body: `http.request`. -/
structure Message where
  body : Bytes
  moreBody : Bool
  deriving DecidableEq, Repr

/-- A request: its headers, with names in lower case, and the bodies of the messages the server delivers. -/
structure Request where
  headers : List (String × String)
  chunks : List Bytes

/-- The original bytes. -/
def Request.body (request : Request) : Bytes := request.chunks.flatten

/-- The messages the server delivers: all but the last have more to come. -/
def messages : List Bytes → List Message
  | [] => [⟨[], false⟩]
  | [chunk] => [⟨chunk, false⟩]
  | chunk :: next :: rest => ⟨chunk, true⟩ :: messages (next :: rest)

/-- `request.stream()`: the chunks with something in them, and an empty one at the end. -/
def Request.stream (request : Request) : List Bytes := request.chunks.filter (· ≠ []) ++ [[]]

/-! ### Headers -/

/-- The space that `int` skips. -/
def isIntSpace (c : Char) : Bool := c == ' ' || ('\t' ≤ c && c ≤ '\r') || c == '\x85' || c == '\xa0'

/-- `c.isspace()` of a header's character, which is one of Latin-1. -/
def isSpace (c : Char) : Bool := isIntSpace c || ('\x1c' ≤ c && c ≤ '\x1f')

def strip (space : Char → Bool) (text : List Char) : List Char :=
  ((text.dropWhile space).reverse.dropWhile space).reverse

/-- Decimal digits in groups that single underscores separate, at most 4300 of them. -/
def digits (text : List Char) : Option Nat :=
  let groups := text.splitOn '_'
  if groups.all (fun group => group ≠ [] && group.all Char.isDigit) && groups.flatten.length ≤ 4300 then
    some (groups.flatten.foldl (fun n c => 10 * n + (c.toNat - '0'.toNat)) 0)
  else none

/-- `int(text)`, where none is the `ValueError`. -/
def int (text : String) : Option Int :=
  match strip isIntSpace text.toList with
  | '-' :: rest => (digits rest).map fun n => -(n : Int)
  | '+' :: rest => (digits rest).map fun n => (n : Int)
  | rest => (digits rest).map fun n => (n : Int)

/-- The content length, where the header has any text. -/
def Request.contentLength (request : Request) : Option String :=
  (request.headers.lookup "content-length").filter (· ≠ "")

def Request.contentType (request : Request) : String :=
  String.ofList (strip isSpace (((request.headers.lookup "content-type").getD "").toList.takeWhile (· ≠ ';')))

def safeContentTypes : List String :=
  ["application/json", "application/x-www-form-urlencoded", "multipart/form-data", "text/plain"]

/-- The content types whose bodies are not spooled when a length was declared. -/
def Request.isSafe (request : Request) : Bool :=
  request.contentType ∈ safeContentTypes && request.contentType ≠ "multipart/form-data"

/-! ### The middleware -/

/-- An answer of the middleware: the status, and the code of the error in its content. -/
structure JSONResponse where
  statusCode : Nat
  code : String
  deriving DecidableEq, Repr

def tooLarge : JSONResponse := ⟨413, "too_large"⟩
def invalidContentLength : JSONResponse := ⟨400, "invalid_content_length"⟩

/-- What becomes of a request: it is answered here, or the application is called and receives some messages. -/
inductive Outcome where
  | answered (response : JSONResponse)
  | called (received : List Message)
  deriving DecidableEq, Repr

structure MaxRequestSizeMiddleware where
  maxSize : Nat

def receiveChunkSize : Nat := 64 * 1024

/-- The loop over the stream, with the total so far; none is the 413. -/
def MaxRequestSizeMiddleware.spool (m : MaxRequestSizeMiddleware) :
    Nat → Spool.File UInt8 → List Bytes → Option (Spool.File UInt8)
  | _, spooledBody, [] => some spooledBody
  | total, spooledBody, chunk :: rest =>
    let total := total + chunk.length
    if total > m.maxSize then none else m.spool total (spooledBody.write chunk) rest

/-- One message from the spooled body. -/
def receive (spooledBody : Spool.File UInt8) : Message × Spool.File UInt8 :=
  let (data, spooledBody) := spooledBody.read receiveChunkSize
  if data ≠ [] then (⟨data, true⟩, spooledBody) else (⟨[], false⟩, spooledBody)

/-- What an application receives of the spooled body: it asks until there is no more, at most `readsFirst` times
before it starts its response. -/
def replay : Nat → Spool.File UInt8 → List Message
  -- The call returns when the response starts, and the spooled body is closed: `receive` raises from then on.
  | 0, _ => []
  | readsFirst + 1, spooledBody =>
    let (message, spooledBody) := receive spooledBody
    message :: if message.moreBody then replay readsFirst spooledBody else []

/-- The rest of `dispatch`, for an application that can ask `readsFirst` times for a message before it starts its
response: the body is counted into a file, and the application is called on the file. -/
def MaxRequestSizeMiddleware.spooled (m : MaxRequestSizeMiddleware) (readsFirst : Nat) (request : Request) : Outcome :=
  match m.spool 0 .empty request.stream with
  | none => .answered tooLarge
  | some spooledBody => .called (replay readsFirst spooledBody.rewind)

def MaxRequestSizeMiddleware.dispatch (m : MaxRequestSizeMiddleware) (readsFirst : Nat) (request : Request) : Outcome :=
  match request.contentLength with
  | none => m.spooled readsFirst request
  | some text =>
    match int text with
    | none => .answered invalidContentLength
    | some n =>
      if n > m.maxSize then .answered tooLarge
      else if request.isSafe then .called (messages request.chunks)
      else m.spooled readsFirst request

/-! ### Messages and pages -/

/-- The bytes of some messages. -/
def bytes (received : List Message) : Bytes := received.flatMap Message.body

@[simp] theorem bytes_nil : bytes [] = [] := rfl
@[simp] theorem bytes_cons (message : Message) (rest : List Message) :
    bytes (message :: rest) = message.body ++ bytes rest := rfl

theorem bytes_messages (chunks : List Bytes) : bytes (messages chunks) = chunks.flatten := by
  induction chunks with
  | nil => rfl
  | cons chunk rest ih =>
    cases rest with
    | nil => rfl
    | cons next rest => rw [messages, bytes_cons, ih, List.flatten_cons, List.flatten_cons, List.flatten_cons]

theorem flatten_stream (request : Request) : request.stream.flatten = request.body := by
  have hfilter : ∀ chunks : List Bytes, (chunks.filter (· ≠ [])).flatten = chunks.flatten := by
    intro chunks
    induction chunks with
    | nil => rfl
    | cons chunk rest ih =>
      cases chunk with
      | nil => exact ih
      | cons b chunk => exact congrArg (b :: chunk ++ ·) ih
  rw [Request.stream, List.flatten_append, hfilter, List.flatten_singleton, List.append_nil]
  rfl

/-- What the loop over the stream leaves: the file with all of it, or none where it is over the cap. -/
theorem spool_spec (m : MaxRequestSizeMiddleware) (chunks : List Bytes) {total : Nat} {file : Spool.File UInt8}
    (hend : file.rest = []) (htotal : total ≤ m.maxSize) :
    (m.spool total file chunks).map Spool.File.data =
      if total + chunks.flatten.length ≤ m.maxSize then some (file.data ++ chunks.flatten) else none := by
  induction chunks generalizing total file with
  | nil => simp [MaxRequestSizeMiddleware.spool, htotal]
  | cons chunk rest ih =>
    rw [MaxRequestSizeMiddleware.spool, List.flatten_cons, List.length_append, ← Nat.add_assoc]
    by_cases hover : total + chunk.length > m.maxSize
    · rw [if_pos hover, if_neg (by omega), Option.map_none]
    · rw [if_neg hover, ih (Spool.File.rest_write hend chunk) (by omega), Spool.File.write_data hend,
        List.append_assoc]

theorem read_eq_nil {file : Spool.File UInt8} : (file.read receiveChunkSize).1 = [] ↔ file.rest = [] := by
  rw [Spool.File.read, List.take_eq_nil_iff]
  exact or_iff_right (by decide)

/-- Behind the last byte the application is told so. -/
theorem replay_end {file : Spool.File UInt8} (h : file.rest = []) (readsFirst : Nat) :
    replay (readsFirst + 1) file = [⟨[], false⟩] := by
  have hreceive : receive file = (⟨[], false⟩, (file.read receiveChunkSize).2) :=
    if_neg (not_not.mpr (read_eq_nil.mpr h))
  rw [replay, hreceive]
  rfl

/-- Before it, the application gets a page. -/
theorem replay_page {file : Spool.File UInt8} (h : file.rest ≠ []) (readsFirst : Nat) :
    replay (readsFirst + 1) file =
      ⟨file.rest.take receiveChunkSize, true⟩ :: replay readsFirst (file.read receiveChunkSize).2 := by
  have hreceive : receive file = (⟨file.rest.take receiveChunkSize, true⟩, (file.read receiveChunkSize).2) :=
    if_pos (mt read_eq_nil.mp h)
  rw [replay, hreceive]
  rfl

/-- **The pages of a file are its bytes in order**, up to those the application had no time to ask for. -/
theorem bytes_replay (readsFirst : Nat) (file : Spool.File UInt8) :
    bytes (replay readsFirst file) = file.rest.take (readsFirst * receiveChunkSize) := by
  induction readsFirst generalizing file with
  | zero => rw [replay, Nat.zero_mul, List.take_zero, bytes_nil]
  | succ readsFirst ih =>
    by_cases hrest : file.rest = []
    · rw [replay_end hrest, hrest, List.take_nil]
      rfl
    · rw [replay_page hrest, bytes_cons, ih, Spool.File.rest_read, Nat.succ_mul, Nat.add_comm, List.take_add]

/-- An application with time enough is told where the body ends. -/
theorem replay_told {readsFirst : Nat} {file : Spool.File UInt8}
    (h : file.rest.length ≤ readsFirst * receiveChunkSize) :
    ∃ pages, replay (readsFirst + 1) file = pages ++ [⟨[], false⟩] := by
  induction readsFirst generalizing file with
  | zero => exact ⟨[], replay_end (List.length_eq_zero_iff.mp (by omega)) 0⟩
  | succ readsFirst ih =>
    by_cases hrest : file.rest = []
    · exact ⟨[], replay_end hrest _⟩
    · have hbehind : (file.read receiveChunkSize).2.rest.length ≤ readsFirst * receiveChunkSize := by
        rw [Spool.File.rest_read, List.length_drop]
        rw [Nat.succ_mul] at h
        omega
      obtain ⟨pages, hpages⟩ := ih hbehind
      exact ⟨_ :: pages, by rw [replay_page hrest, hpages, List.cons_append]⟩

/-! ### The cap -/

/-- The body is capped and delivered intact: the request is answered with 413 or 400, or what the application receives
are the original bytes, within the cap. -/
def MaxRequestSizeMiddleware.Capped (m : MaxRequestSizeMiddleware) (request : Request) : Outcome → Prop
  | .answered response => response.statusCode = 413 ∨ response.statusCode = 400
  | .called received => bytes received = request.body ∧ (bytes received).length ≤ m.maxSize

/-- The header has a length within the cap. -/
def MaxRequestSizeMiddleware.Declared (m : MaxRequestSizeMiddleware) (request : Request) : Prop :=
  ∃ text n, request.contentLength = some text ∧ int text = some n ∧ n ≤ m.maxSize

/-- The body is passed on. -/
def MaxRequestSizeMiddleware.Passes (m : MaxRequestSizeMiddleware) (request : Request) : Prop :=
  m.Declared request ∧ request.isSafe = true

/-- The body is spooled. -/
def MaxRequestSizeMiddleware.Spools (m : MaxRequestSizeMiddleware) (request : Request) : Prop :=
  request.contentLength = none ∨ m.Declared request ∧ request.isSafe = false

theorem MaxRequestSizeMiddleware.Passes.not_spools {m : MaxRequestSizeMiddleware} {request : Request}
    (h : m.Passes request) : ¬m.Spools request := by
  obtain ⟨⟨text, n, htext, -⟩, hsafe⟩ := h
  rintro (hnone | ⟨-, hunsafe⟩)
  · rw [htext] at hnone
    cases hnone
  · rw [hsafe] at hunsafe
    cases hunsafe

/-- What the cap rests on. -/
structure MaxRequestSizeMiddleware.Honest (m : MaxRequestSizeMiddleware) (readsFirst : Nat) (request : Request) :
    Prop where
  /-- A body that is passed on is within the cap, as it was declared to be. -/
  declared : m.Passes request → request.body.length ≤ m.maxSize
  /-- One that is spooled and within the cap is read before the response starts. -/
  spooled : m.Spools request → request.body.length ≤ m.maxSize → request.body.length ≤ readsFirst * receiveChunkSize

/-- A spooled body is capped, and the application has what it had the time to ask for. -/
theorem capped_spooled_iff (m : MaxRequestSizeMiddleware) (readsFirst : Nat) (request : Request) :
    m.Capped request (m.spooled readsFirst request) ↔
      (request.body.length ≤ m.maxSize → request.body.length ≤ readsFirst * receiveChunkSize) := by
  have hspool := spool_spec m request.stream Spool.File.rest_empty (Nat.zero_le m.maxSize)
  rw [flatten_stream, Nat.zero_add, Spool.File.empty_data, List.nil_append] at hspool
  rw [MaxRequestSizeMiddleware.spooled]
  cases hfile : m.spool 0 .empty request.stream with
  | none =>
    have hover : ¬request.body.length ≤ m.maxSize := by
      intro hle
      rw [hfile, if_pos hle] at hspool
      cases hspool
    exact iff_of_true (Or.inl rfl) fun hle => absurd hle hover
  | some file =>
    have hle : request.body.length ≤ m.maxSize := by
      by_contra hover
      rw [hfile, if_neg hover] at hspool
      cases hspool
    rw [hfile, if_pos hle] at hspool
    have hbytes : bytes (replay readsFirst file.rewind) = request.body.take (readsFirst * receiveChunkSize) := by
      rw [bytes_replay, Spool.File.rest_rewind, Option.some.inj hspool]
    show bytes (replay readsFirst file.rewind) = request.body ∧ _ ↔ _
    rw [hbytes, List.take_eq_self_iff]
    constructor
    · rintro ⟨hall, -⟩ _
      exact hall
    · intro hall
      exact ⟨hall hle, (List.length_take_le' _ _).trans hle⟩

/-- A body that is passed on is the application's, however long it is. -/
theorem capped_passed_iff (m : MaxRequestSizeMiddleware) (request : Request) :
    m.Capped request (.called (messages request.chunks)) ↔ request.body.length ≤ m.maxSize := by
  show bytes (messages request.chunks) = request.chunks.flatten ∧ _ ↔ _
  rw [bytes_messages]
  exact and_iff_right rfl

/-- The three ways of `dispatch`: a bad length is answered, a safe body of a length within the cap is passed on, and
all others are spooled. -/
theorem dispatch_cases (m : MaxRequestSizeMiddleware) (readsFirst : Nat) (request : Request) :
    ((∃ response : JSONResponse, (response.statusCode = 413 ∨ response.statusCode = 400) ∧
        m.dispatch readsFirst request = .answered response) ∧ ¬m.Passes request ∧ ¬m.Spools request) ∨
    (m.dispatch readsFirst request = .called (messages request.chunks) ∧ m.Passes request) ∨
    (m.dispatch readsFirst request = m.spooled readsFirst request ∧ m.Spools request) := by
  rw [MaxRequestSizeMiddleware.dispatch]
  cases hlength : request.contentLength with
  | none => exact .inr (.inr ⟨rfl, .inl hlength⟩)
  | some text =>
    have hdeclared : m.Declared request ↔ ∃ n, int text = some n ∧ n ≤ m.maxSize := by
      simp only [MaxRequestSizeMiddleware.Declared, hlength, Option.some.injEq, exists_and_left, exists_eq_left']
    have hrefused (h : ¬m.Declared request) : ¬m.Passes request ∧ ¬m.Spools request := by
      refine ⟨fun hpasses => h hpasses.1, ?_⟩
      rintro (hnone | ⟨hin, -⟩)
      · rw [hlength] at hnone
        cases hnone
      · exact h hin
    dsimp only
    cases hint : int text with
    | none =>
      refine .inl ⟨⟨invalidContentLength, .inr rfl, rfl⟩, hrefused ?_⟩
      rw [hdeclared, hint]
      rintro ⟨n, hn, -⟩
      cases hn
    | some n =>
      simp only [hint, Option.some.injEq, exists_eq_left'] at hdeclared
      by_cases hover : n > m.maxSize
      · refine .inl ⟨⟨tooLarge, .inl rfl, if_pos hover⟩, hrefused ?_⟩
        rw [hdeclared]
        omega
      · have hwithin : m.Declared request := hdeclared.mpr (by omega)
        dsimp only
        rw [if_neg hover]
        cases hsafe : request.isSafe with
        | true => exact .inr (.inl ⟨rfl, hwithin, hsafe⟩)
        | false => exact .inr (.inr ⟨rfl, .inr ⟨hwithin, hsafe⟩⟩)

/-- **Bodies are capped and delivered intact exactly where a body that is passed on is within the cap**, as it was
declared to be, and one that is spooled is read before the response starts. -/
theorem body_capped_iff (m : MaxRequestSizeMiddleware) (readsFirst : Nat) (request : Request) :
    m.Capped request (m.dispatch readsFirst request) ↔ m.Honest readsFirst request := by
  obtain ⟨⟨response, hstatus, hanswered⟩, hpasses, hspools⟩ | ⟨hcalled, hpasses⟩ | ⟨hspooled, hspools⟩ :=
    dispatch_cases m readsFirst request
  · rw [hanswered]
    exact iff_of_true hstatus ⟨fun h => absurd h hpasses, fun h => absurd h hspools⟩
  · rw [hcalled, capped_passed_iff]
    exact ⟨fun h => ⟨fun _ => h, fun hspools => absurd hspools hpasses.not_spools⟩, fun h => h.declared hpasses⟩
  · rw [hspooled, capped_spooled_iff]
    exact ⟨fun h => ⟨fun hpasses => absurd hspools hpasses.not_spools, fun _ => h⟩, fun h => h.spooled hspools⟩

/-- A chunked request of 50 bytes that declares 5, under a cap of 10: the application receives all 50. -/
theorem body_over_cap : ¬∀ (m : MaxRequestSizeMiddleware) (readsFirst : Nat) (request : Request),
    m.Capped request (m.dispatch readsFirst request) := by
  let request : Request :=
    ⟨[("transfer-encoding", "chunked"), ("content-length", "5"), ("content-type", "application/json")],
      [List.replicate 50 120]⟩
  have hpassed : MaxRequestSizeMiddleware.dispatch ⟨10⟩ 2 request = .called [⟨List.replicate 50 120, false⟩] := by
    decide +kernel
  simp only [not_forall]
  refine ⟨⟨10⟩, 2, request, ?_⟩
  rw [hpassed]
  rintro ⟨-, hle⟩
  exact absurd hle (by decide)

end SynQc.Middleware
