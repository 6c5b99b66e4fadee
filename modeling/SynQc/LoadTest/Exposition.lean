import Mathlib.Algebra.Order.Field.Rat
import Mathlib.Data.List.Infix

/-! Metrics as text: the exposition that a load test reads.

Prometheus metrics are served as lines: comments, and samples with a name, a label set and a value. The
client library writes the labels in order, escapes three characters in their values, and writes a finite
value as a decimal, with an exponent where it is large or small (from a million on as in `1e+06`). -/
namespace SynQc.LoadTest

/-! ### Numbers -/

/-- A finite value as it is written: digits, perhaps a point with digits after it, and perhaps an exponent
with its sign. -/
structure Number where
  neg : Bool := false
  whole : List (Fin 10)
  frac : List (Fin 10) := []
  /-- Whether the exponent is negative, and its digits. -/
  exponent : Option (Bool × List (Fin 10)) := none
  whole_ne : whole ≠ []
  exponent_ne : ∀ e ∈ exponent, e.2 ≠ []

def digitChars (digits : List (Fin 10)) : List Char := digits.map fun d : Fin 10 => Nat.digitChar d.val

def natOf (digits : List (Fin 10)) : Nat := digits.foldl (fun n (d : Fin 10) => 10 * n + d.val) 0

namespace Number

def mantissaChars (x : Number) : List Char :=
  (if x.neg then ['-'] else []) ++ digitChars x.whole ++ (if x.frac = [] then [] else '.' :: digitChars x.frac)

def chars (x : Number) : List Char :=
  match x.exponent with
  | none => x.mantissaChars
  | some (neg, digits) => x.mantissaChars ++ 'e' :: (if neg then '-' else '+') :: digitChars digits

def mantissa (x : Number) : ℚ := (if x.neg then -1 else 1) * (natOf (x.whole ++ x.frac) / 10 ^ x.frac.length)

def exponentValue (neg : Bool) (digits : List (Fin 10)) : ℤ := if neg then -natOf digits else natOf digits

def value (x : Number) : ℚ :=
  match x.exponent with
  | none => x.mantissa
  | some (neg, digits) => x.mantissa * 10 ^ exponentValue neg digits

end Number

/-! ### Samples -/

/-- `[a-zA-Z_:][a-zA-Z0-9_:]*` -/
def IsMetricName (name : List Char) : Prop :=
  name ≠ [] ∧ (∀ c ∈ name, c.isAlphanum ∨ c = '_' ∨ c = ':') ∧ ∀ c ∈ name.head?, ¬c.isDigit

instance (name : List Char) : Decidable (IsMetricName name) :=
  @instDecidableAnd _ _ inferInstance
    (@instDecidableAnd _ _ (List.decidableBAll (fun c => c.isAlphanum ∨ c = '_' ∨ c = ':') name)
      (Option.decidableForallMem name.head?))

structure Sample where
  name : String
  /-- The label set, in the order of its names. -/
  labels : List (String × String)
  value : Number
  name_valid : IsMetricName name.toList
  labels_sorted : labels.Pairwise fun a b => a.1 < b.1

def escapeChar : Char → List Char
  | '\\' => ['\\', '\\']
  | '\n' => ['\\', 'n']
  | '"' => ['\\', '"']
  | c => [c]

def escape (value : String) : List Char := value.toList.flatMap escapeChar

namespace Sample

def labelChars (label : String × String) : List Char := label.1.toList ++ '=' :: '"' :: escape label.2 ++ ['"']

def line (s : Sample) : List Char :=
  s.name.toList ++
    (if s.labels = [] then [] else '{' :: [','].intercalate (s.labels.map labelChars) ++ ['}']) ++ ' ' :: s.value.chars

/-- The metric is exactly `name` and the label set has `labels`. -/
def Matches (s : Sample) (name : String) (labels : List (String × String)) : Prop :=
  s.name = name ∧ ∀ label ∈ labels, label ∈ s.labels

instance (s : Sample) (name : String) (labels : List (String × String)) : Decidable (s.Matches name labels) :=
  @instDecidableAnd _ _ inferInstance (List.decidableBAll (fun label => label ∈ s.labels) labels)

end Sample

/-- A help or type line after its `#`, or a sample. -/
inductive Entry where
  | comment (text : String) (one_line : '\n' ∉ text.toList)
  | sample (s : Sample)

def Entry.line : Entry → List Char
  | .comment text _ => '#' :: text.toList
  | .sample s => s.line

def Entry.sample? : Entry → Option Sample
  | .comment _ _ => none
  | .sample s => some s

def exposition (entries : List Entry) : String := String.ofList (entries.flatMap fun e => e.line ++ ['\n'])

/-- The value of the first sample that matches. -/
def firstMatching (entries : List Entry) (name : String) (labels : List (String × String)) : Option ℚ :=
  ((entries.filterMap Entry.sample?).find? fun s => s.Matches name labels).map fun s => s.value.value

end SynQc.LoadTest
