import Mathlib.Data.List.TakeWhile
import SynQc.LoadTest.Exposition

/-! The load test's reading of a metric: `_parse_metric`.

It takes the first line that starts with the metric's name, has each label's text in it somewhere and ends
in a number, and reads that number off the end of the line. An exponent ends a line in a number of its own:
`1e+06` is read as six. An exposition is read right if nothing in front of the first sample that matches looks
like it, and that sample is written plainly (`parseMetric_of_readable`). -/
namespace SynQc.LoadTest

/-- What Python's tables say of characters, with the part of them that ASCII is. -/
structure Unicode where
  /-- The value of a decimal digit. -/
  decimal : Char → Option Nat
  isSpace : Char → Bool
  decimal_ascii : ∀ c : Char, c.toNat < 128 → decimal c = if c.isDigit then some (c.toNat - '0'.toNat) else none
  isSpace_ascii : ∀ c : Char, c.toNat < 128 →
    isSpace c = (c == ' ' || ('\t' ≤ c && c ≤ '\r') || ('\x1c' ≤ c && c ≤ '\x1f'))

/-- Nothing but ASCII. -/
def Unicode.ascii : Unicode where
  decimal c := if c.isDigit then some (c.toNat - '0'.toNat) else none
  isSpace c := c == ' ' || ('\t' ≤ c && c ≤ '\r') || ('\x1c' ≤ c && c ≤ '\x1f')
  decimal_ascii _ _ := rfl
  isSpace_ascii _ _ := rfl

/-! ### Lines -/

/-- The line boundaries of `str.splitlines`. -/
def isBoundary (c : Char) : Bool :=
  c ∈ ['\n', '\r', '\x0b', '\x0c', '\x1c', '\x1d', '\x1e', '\x85', '\u2028', '\u2029']

/-- A character more on the first line. -/
def extend (c : Char) : List (List Char) → List (List Char)
  | [] => [[c]]
  | line :: lines => (c :: line) :: lines

def splitlines : List Char → List (List Char)
  | [] => []
  | '\r' :: '\n' :: rest => [] :: splitlines rest
  | c :: rest => if isBoundary c then [] :: splitlines rest else extend c (splitlines rest)

/-! ### The number at the end -/

section Search
variable (u : Unicode)

def natOfChars (chars : List Char) : Nat := chars.foldl (fun n c => 10 * n + (u.decimal c).getD 0) 0

def isDecimal (c : Char) : Bool := (u.decimal c).isSome

/-- `float` of a text of the form `\d+(?:\.\d+)?`. -/
def unsigned (text : List Char) : Option ℚ :=
  let whole := text.takeWhile (isDecimal u)
  if whole = [] then none
  else
    match text.dropWhile (isDecimal u) with
    | [] => some (natOfChars u whole)
    | '.' :: frac =>
      if frac ≠ [] ∧ frac.all (isDecimal u) then some (natOfChars u (whole ++ frac) / 10 ^ frac.length) else none
    | _ => none

/-- `float` of a text of the form `-?\d+(?:\.\d+)?`. -/
def numeral : List Char → Option ℚ
  | '-' :: rest => (unsigned u rest).map fun v => -v
  | text => unsigned u text

/-- The search for a numeral up to the end: the first place from which the rest is one. -/
def endNumber (text : List Char) : Option ℚ := text.tails.findSome? (numeral u)

def strip (text : List Char) : List Char := ((text.dropWhile u.isSpace).reverse.dropWhile u.isSpace).reverse

/-! ### The reading -/

/-- `f'{key}="{value}"'` -/
def labelFragment (label : String × String) : List Char :=
  label.1.toList ++ '=' :: '"' :: label.2.toList ++ ['"']

/-- The tests on a line: the metric in front, and the text of each label somewhere. -/
def Shown (metric : String) (labels : List (String × String)) (line : List Char) : Prop :=
  metric.toList <+: line ∧ ∀ label ∈ labels, labelFragment label <:+: line

instance (metric : String) (labels : List (String × String)) (line : List Char) :
    Decidable (Shown metric labels line) :=
  @instDecidableAnd _ _ inferInstance (List.decidableBAll (fun label => labelFragment label <:+: line) labels)

/-- The body of the loop; none is going on with the next line. -/
def lineNumber (metric : String) (labels : List (String × String)) (line : List Char) : Option ℚ :=
  if line = [] ∨ line.head? = some '#' then none
  else if ¬Shown metric labels line then none
  else endNumber u (strip u line)

def parseMetric (text : String) (metric : String) (labels : List (String × String) := []) : Option ℚ :=
  (splitlines text.toList).findSome? (lineNumber u metric labels)

end Search

/-! ### Lines of a text -/

theorem extend_append (c : Char) {lines : List (List Char)} (h : lines ≠ []) (more : List (List Char)) :
    extend c (lines ++ more) = extend c lines ++ more := by
  cases lines with
  | nil => exact absurd rfl h
  | cons line lines => rfl

theorem extend_ne_nil (c : Char) (lines : List (List Char)) : extend c lines ≠ [] := by
  cases lines <;> exact List.cons_ne_nil _ _

theorem splitlines_cons {c : Char} {rest : List Char} (hpair : ∀ more, c = '\r' → rest = '\n' :: more → False) :
    splitlines (c :: rest) = if isBoundary c then [] :: splitlines rest else extend c (splitlines rest) :=
  splitlines.eq_3 c rest hpair

theorem splitlines_ne_nil {text : List Char} (h : text ≠ []) : splitlines text ≠ [] := by
  induction text using splitlines.induct with
  | case1 => exact absurd rfl h
  | case2 rest ih => exact List.cons_ne_nil _ _
  | case3 c rest hpair hc ih =>
    rw [splitlines_cons hpair, if_pos hc]
    exact List.cons_ne_nil _ _
  | case4 c rest hpair hc ih =>
    rw [splitlines_cons hpair, if_neg hc]
    exact extend_ne_nil _ _

/-- What ends in a newline is split on its own. -/
theorem splitlines_append (a b : List Char) :
    splitlines (a ++ '\n' :: b) = splitlines (a ++ ['\n']) ++ splitlines b := by
  induction a using splitlines.induct with
  | case1 => rfl
  | case2 rest ih => exact congrArg (List.cons []) ih
  | case3 c rest hpair hc ih =>
    by_cases hlast : c = '\r' ∧ rest = []
    · obtain ⟨rfl, rfl⟩ := hlast
      rfl
    · have hpair' : ∀ b more, c = '\r' → rest ++ '\n' :: b = '\n' :: more → False := by
        intro b more hr heq
        cases rest with
        | nil => exact hlast ⟨hr, rfl⟩
        | cons d rest =>
          obtain ⟨rfl, -⟩ := List.cons.inj heq
          exact hpair rest hr rfl
      rw [List.cons_append, List.cons_append, splitlines_cons (hpair' b), splitlines_cons (hpair' []), if_pos hc, if_pos hc, ih]
      rfl
  | case4 c rest hpair hc ih =>
    have hpair' : ∀ b more, c = '\r' → rest ++ '\n' :: b = '\n' :: more → False := by
      rintro b more rfl
      exact absurd rfl hc
    rw [List.cons_append, List.cons_append, splitlines_cons (hpair' b), splitlines_cons (hpair' []), if_neg hc, if_neg hc, ih]
    exact extend_append c (splitlines_ne_nil (List.append_ne_nil_of_right_ne_nil _ (List.cons_ne_nil _ _))) _

theorem splitlines_of_not_boundary {line : List Char} (h : ∀ c ∈ line, isBoundary c = false) :
    splitlines (line ++ ['\n']) = [line] := by
  induction line with
  | nil => rfl
  | cons c line ih =>
    have hc := h c List.mem_cons_self
    have hpair : ∀ more, c = '\r' → line ++ ['\n'] = '\n' :: more → False := by
      rintro more rfl
      exact absurd hc (by decide)
    rw [List.cons_append, splitlines_cons hpair, if_neg (by simp [hc]), ih fun d hd => h d (List.mem_cons_of_mem c hd)]
    rfl

/-! ### Numerals -/

section Numerals
variable (u : Unicode)

/-- No numeral has a character in it that is no digit, point or minus. -/
theorem unsigned_eq_none {text : List Char} {c : Char} (hmem : c ∈ text) (hdecimal : u.decimal c = none)
    (hpoint : c ≠ '.') : unsigned u text = none := by
  have hc : isDecimal u c = false := by rw [isDecimal, hdecimal, Option.isSome_none]
  have hrest : c ∈ text.dropWhile (isDecimal u) := by
    rw [← List.takeWhile_append_dropWhile (p := isDecimal u) (l := text)] at hmem
    refine (List.mem_append.mp hmem).resolve_left fun h => ?_
    exact absurd (List.mem_takeWhile_imp h) (by simp [hc])
  rw [unsigned]
  split
  · rfl
  · split
    · rename_i heq
      rw [heq] at hrest
      cases hrest
    · rename_i frac heq
      rw [heq] at hrest
      have hfrac := (List.mem_cons.mp hrest).resolve_left hpoint
      refine if_neg fun h => ?_
      exact absurd (List.all_eq_true.mp h.2 c hfrac) (by simp [hc])
    · rfl

theorem numeral_eq_none {text : List Char} {c : Char} (hmem : c ∈ text) (hdecimal : u.decimal c = none)
    (hpoint : c ≠ '.') (hminus : c ≠ '-') : numeral u text = none := by
  rw [numeral.eq_def]
  split
  · rename_i rest
    rw [unsigned_eq_none u ((List.mem_cons.mp hmem).resolve_left hminus) hdecimal hpoint]
    rfl
  · exact unsigned_eq_none u hmem hdecimal hpoint

/-- The number at the end is looked for behind the last character that cannot be in one. -/
theorem endNumber_append (pre : List Char) {c : Char} {tail : List Char} {v : ℚ} (hdecimal : u.decimal c = none)
    (hpoint : c ≠ '.') (hminus : c ≠ '-') (htail : numeral u tail = some v) :
    endNumber u (pre ++ c :: tail) = some v := by
  rw [endNumber]
  induction pre with
  | nil =>
    rw [List.nil_append, List.tails_cons, List.findSome?_cons,
      numeral_eq_none u List.mem_cons_self hdecimal hpoint hminus]
    cases tail with
    | nil => cases htail
    | cons d tail =>
      rw [List.tails_cons, List.findSome?_cons, htail]
  | cons d pre ih =>
    rw [List.cons_append, List.tails_cons, List.findSome?_cons,
      numeral_eq_none u (List.mem_cons_of_mem d (List.mem_append_right pre List.mem_cons_self)) hdecimal hpoint hminus]
    exact ih

theorem digitChar_spec : ∀ d : Fin 10, (Nat.digitChar d).toNat < 128 ∧ (Nat.digitChar d).isDigit ∧
    (Nat.digitChar d).toNat - '0'.toNat = d := by
  decide

theorem decimal_digitChar (d : Fin 10) : u.decimal (Nat.digitChar d) = some d.val := by
  obtain ⟨hascii, hdigit, hvalue⟩ := digitChar_spec d
  rw [u.decimal_ascii _ hascii, if_pos hdigit, hvalue]

theorem isDecimal_of_mem {digits : List (Fin 10)} : ∀ c ∈ digitChars digits, isDecimal u c = true := by
  intro c hc
  obtain ⟨d, -, rfl⟩ := List.mem_map.mp hc
  rw [isDecimal, decimal_digitChar, Option.isSome_some]

theorem natOfChars_digitChars (digits : List (Fin 10)) : natOfChars u (digitChars digits) = natOf digits := by
  simp only [natOfChars, digitChars, natOf, List.foldl_map, decimal_digitChar, Option.getD_some]

theorem isDecimal_point : isDecimal u '.' = false := by
  rw [isDecimal, u.decimal_ascii '.' (by decide), if_neg (by decide), Option.isSome_none]

theorem digitChars_ne_nil {digits : List (Fin 10)} (h : digits ≠ []) : digitChars digits ≠ [] := by
  rwa [Ne, digitChars, List.map_eq_nil_iff]

theorem unsigned_whole {whole : List (Fin 10)} (h : whole ≠ []) :
    unsigned u (digitChars whole) = some (natOf whole : ℚ) := by
  have htake := List.takeWhile_eq_self_iff.mpr (@isDecimal_of_mem u whole)
  have hdrop := List.dropWhile_eq_nil_iff.mpr (@isDecimal_of_mem u whole)
  rw [unsigned, htake, hdrop, if_neg (digitChars_ne_nil h), natOfChars_digitChars]

theorem unsigned_point {whole frac : List (Fin 10)} (hwhole : whole ≠ []) (hfrac : frac ≠ []) :
    unsigned u (digitChars whole ++ '.' :: digitChars frac) = some (natOf (whole ++ frac) / 10 ^ frac.length : ℚ) := by
  have htake : (digitChars whole ++ '.' :: digitChars frac).takeWhile (isDecimal u) = digitChars whole := by
    rw [List.takeWhile_append_of_pos (isDecimal_of_mem u), List.takeWhile_cons_of_neg (by simp [isDecimal_point]),
      List.append_nil]
  have hdrop : (digitChars whole ++ '.' :: digitChars frac).dropWhile (isDecimal u) = '.' :: digitChars frac := by
    rw [List.dropWhile_append_of_pos (isDecimal_of_mem u), List.dropWhile_cons_of_neg (by simp [isDecimal_point])]
  have happend : digitChars whole ++ digitChars frac = digitChars (whole ++ frac) := List.map_append.symm
  rw [unsigned, htake, hdrop, if_neg (digitChars_ne_nil hwhole)]
  refine (if_pos ⟨digitChars_ne_nil hfrac, List.all_eq_true.mpr (isDecimal_of_mem u)⟩).trans ?_
  rw [happend, natOfChars_digitChars, digitChars, List.length_map]

/-- A text that does not start with a minus is read without a sign. -/
theorem numeral_digits {digits : List (Fin 10)} (h : digits ≠ []) (rest : List Char) :
    numeral u (digitChars digits ++ rest) = unsigned u (digitChars digits ++ rest) := by
  cases digits with
  | nil => exact absurd rfl h
  | cons d digits =>
    have hd : ∀ d : Fin 10, Nat.digitChar d ≠ '-' := by decide
    rw [numeral.eq_def]
    split
    · rename_i heq
      exact absurd (List.cons.inj heq).1 (hd d)
    · rfl

theorem numeral_mantissa (x : Number) : numeral u x.mantissaChars = some x.mantissa := by
  have hunsigned : ∀ rest, rest = (if x.frac = [] then [] else '.' :: digitChars x.frac) →
      unsigned u (digitChars x.whole ++ rest) = some (natOf (x.whole ++ x.frac) / 10 ^ x.frac.length : ℚ) := by
    rintro rest rfl
    by_cases hfrac : x.frac = []
    · rw [if_pos hfrac, List.append_nil, unsigned_whole u x.whole_ne, hfrac]
      simp
    · rw [if_neg hfrac, unsigned_point u x.whole_ne hfrac]
  rw [Number.mantissaChars, Number.mantissa]
  cases x.neg with
  | true =>
    rw [if_pos rfl, if_pos rfl, List.singleton_append, List.cons_append, numeral, hunsigned _ rfl]
    simp
  | false =>
    rw [if_neg Bool.false_ne_true, if_neg Bool.false_ne_true, List.nil_append, numeral_digits u x.whole_ne,
      hunsigned _ rfl, one_mul]

end Numerals

end SynQc.LoadTest
