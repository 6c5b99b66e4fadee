import SynQc.LoadTest.ParseMetric

/-! When the load test reads a metric right.

Every entry of an exposition is read by itself (`parseMetric_exposition`). A sample on one line is taken if
its line is shown, whatever its name and labels are, and the number read is its value only if that is
written without an exponent. So what decides is the text up to the first sample that matches
(`parseMetric_of_readable`); with plain label values and numbers, and no names that extend the metric's, all of
it is readable (`readable_of_plain`). -/
namespace SynQc.LoadTest

/-! ### What an entry shows -/

/-- The number at the end of a written value: all of it, or an exponent by itself. -/
def Number.written (x : Number) : ℚ :=
  match x.exponent with
  | none => x.mantissa
  | some (neg, digits) => Number.exponentValue neg digits

theorem Number.written_eq_value {x : Number} (h : x.exponent = none) : x.written = x.value := by
  rw [Number.written, Number.value, h]

/-- No character of the entry ends a line before its newline does. -/
def Entry.OneLine (e : Entry) : Prop := ∀ c ∈ e.line, isBoundary c = false

instance (e : Entry) : Decidable e.OneLine := List.decidableBAll (fun c => isBoundary c = false) e.line

/-- What an entry on one line shows for a metric: the number of a sample whose line passes the tests. -/
def Entry.lineShows (metric : String) (labels : List (String × String)) : Entry → Option ℚ
  | .comment _ _ => none
  | .sample s => if Shown metric labels s.line then some s.value.written else none

/-- The number that an entry shows; one that is cut shows the first number of its pieces. -/
def Entry.shownNumber (u : Unicode) (metric : String) (labels : List (String × String)) (e : Entry) : Option ℚ :=
  if e.OneLine then e.lineShows metric labels
  else (splitlines (e.line ++ ['\n'])).findSome? (lineNumber u metric labels)

/-! ### A sample's line -/

section Line
variable (u : Unicode)

theorem strip_eq_self {text : List Char} (hhead : ∀ c ∈ text.head?, u.isSpace c = false)
    (hlast : ∀ c ∈ text.getLast?, u.isSpace c = false) : strip u text = text := by
  have hdrop : ∀ chars : List Char, (∀ c ∈ chars.head?, u.isSpace c = false) → chars.dropWhile u.isSpace = chars := by
    intro chars h
    cases chars with
    | nil => rfl
    | cons c chars => exact List.dropWhile_cons_of_neg (by simp [h c rfl])
  rw [strip, hdrop text hhead, hdrop text.reverse (by rwa [List.head?_reverse]), List.reverse_reverse]

theorem nameChar_spec (c : Char) (h : c.isAlphanum ∨ c = '_' ∨ c = ':') : u.isSpace c = false ∧ c ≠ '#' := by
  have hascii : c.toNat < 128 := by
    rcases h with h | rfl | rfl
    · change ((decide ('A'.val ≤ c.val ∧ c.val ≤ 'Z'.val) || (decide ('a'.val ≤ c.val) && decide (c.val ≤ 'z'.val))) ||
        (decide ('0'.val ≤ c.val) && decide (c.val ≤ '9'.val))) = true at h
      simp only [Bool.or_eq_true, Bool.and_eq_true, decide_eq_true_eq, UInt32.le_iff_toNat_le] at h
      have hle : c.val.toNat ≤ 122 := by
        rcases h with (⟨-, h⟩ | ⟨-, h⟩) | ⟨-, h⟩ <;> exact h.trans (by decide)
      exact hle.trans_lt (by decide)
    · decide
    · decide
  have htable : ∀ n < 128, ((Char.ofNat n).isAlphanum ∨ Char.ofNat n = '_' ∨ Char.ofNat n = ':') →
      (Char.ofNat n == ' ' || ('\t' ≤ Char.ofNat n && Char.ofNat n ≤ '\r') ||
        ('\x1c' ≤ Char.ofNat n && Char.ofNat n ≤ '\x1f')) = false ∧ Char.ofNat n ≠ '#' := by
    decide
  have := htable c.toNat hascii
  rw [Char.ofNat_toNat] at this
  rw [u.isSpace_ascii c hascii]
  exact this h

theorem isSpace_digitChar (d : Fin 10) : u.isSpace (Nat.digitChar d) = false := by
  have h : ∀ d : Fin 10, (Nat.digitChar d).isAlphanum := by decide
  exact (nameChar_spec u _ (.inl (h d))).1

/-- A value ends in a digit. -/
theorem exists_chars_eq (x : Number) : ∃ init : List Char, ∃ d : Fin 10, x.chars = init ++ [Nat.digitChar d] := by
  have hdigits : ∀ (pre : List Char) {digits : List (Fin 10)}, digits ≠ [] →
      ∃ init : List Char, ∃ d : Fin 10, pre ++ digitChars digits = init ++ [Nat.digitChar d] := by
    intro pre digits h
    refine ⟨pre ++ digitChars digits.dropLast, digits.getLast h, ?_⟩
    conv_lhs => rw [← List.dropLast_append_getLast h]
    rw [digitChars, List.map_append, List.append_assoc]
    rfl
  rw [Number.chars]
  cases hexp : x.exponent with
  | none =>
    simp only [Number.mantissaChars]
    by_cases hfrac : x.frac = []
    · rw [if_pos hfrac, List.append_nil]
      exact hdigits _ x.whole_ne
    · rw [if_neg hfrac, List.append_cons]
      exact hdigits _ hfrac
  | some e =>
    obtain ⟨neg, digits⟩ := e
    simp only
    rw [List.append_cons, List.append_cons]
    exact hdigits _ (x.exponent_ne _ hexp)

theorem numeral_whole {digits : List (Fin 10)} (h : digits ≠ []) :
    numeral u (digitChars digits) = some (natOf digits : ℚ) := by
  have := numeral_digits u h []
  rwa [List.append_nil, unsigned_whole u h] at this

/-- The number at the end of a line that ends in a value. -/
theorem endNumber_chars (pre : List Char) (x : Number) : endNumber u (pre ++ ' ' :: x.chars) = some x.written := by
  have hnone : ∀ c : Char, c.toNat < 128 → c.isDigit = false → u.decimal c = none := by
    intro c hascii hdigit
    rw [u.decimal_ascii c hascii, if_neg (by simp [hdigit])]
  rw [Number.chars, Number.written]
  cases hexp : x.exponent with
  | none =>
    exact endNumber_append u pre (hnone ' ' (by decide) rfl) (by decide) (by decide) (numeral_mantissa u x)
  | some e =>
    obtain ⟨neg, digits⟩ := e
    have hdigits := numeral_whole u (x.exponent_ne _ hexp)
    cases neg with
    | false =>
      have := endNumber_append u (pre ++ ' ' :: x.mantissaChars ++ ['e']) (hnone '+' (by decide) rfl) (by decide)
        (by decide) hdigits
      simpa [Number.exponentValue] using this
    | true =>
      have htail : numeral u ('-' :: digitChars digits) = some (-(natOf digits : ℚ)) := by
        rw [numeral, unsigned_whole u (x.exponent_ne _ hexp)]
        rfl
      have := endNumber_append u (pre ++ ' ' :: x.mantissaChars) (hnone 'e' (by decide) rfl) (by decide)
        (by decide) htail
      simpa [Number.exponentValue] using this

/-- A sample's line is its name and more, and ends in its value. -/
theorem Sample.line_eq (s : Sample) :
    (∃ c rest, (c.isAlphanum ∨ c = '_' ∨ c = ':') ∧ s.line = c :: rest) ∧
      ∃ pre, s.line = pre ++ ' ' :: s.value.chars := by
  obtain ⟨hne, hchars, -⟩ := s.name_valid
  obtain ⟨c, rest, hname⟩ := List.exists_cons_of_ne_nil hne
  have hc := hchars c (hname ▸ List.mem_cons_self)
  have hline : ∃ more, s.line = c :: more := by
    rw [Sample.line, hname, List.cons_append, List.cons_append]
    exact ⟨_, rfl⟩
  obtain ⟨more, hline⟩ := hline
  exact ⟨⟨c, more, hc, hline⟩, _, rfl⟩

theorem lineNumber_sample (metric : String) (labels : List (String × String)) (s : Sample) :
    lineNumber u metric labels s.line = if Shown metric labels s.line then some s.value.written else none := by
  obtain ⟨⟨c, rest, hc, hcons⟩, pre, hvalue⟩ := s.line_eq
  obtain ⟨hspace, hhash⟩ := nameChar_spec u c hc
  obtain ⟨init, d, hdigit⟩ := exists_chars_eq s.value
  have hstrip : strip u s.line = s.line := by
    refine strip_eq_self u ?_ ?_
    · rw [hcons]
      rintro _ ⟨⟩
      exact hspace
    · rw [hvalue, hdigit, ← List.cons_append, ← List.append_assoc, List.getLast?_concat]
      rintro _ ⟨⟩
      exact isSpace_digitChar u d
  have hstart : ¬(s.line = [] ∨ s.line.head? = some '#') := by
    rw [hcons]
    rintro (h | h)
    · cases h
    · exact hhash (Option.some.inj h)
  rw [lineNumber, if_neg hstart, hstrip]
  by_cases hshown : Shown metric labels s.line
  · rw [if_neg (not_not_intro hshown), if_pos hshown, hvalue, endNumber_chars]
  · rw [if_pos hshown, if_neg hshown]

end Line

/-! ### The whole text -/

section Text
variable (u : Unicode) (metric : String) (labels : List (String × String))

theorem findSome?_pieces (e : Entry) :
    (splitlines (e.line ++ ['\n'])).findSome? (lineNumber u metric labels) = e.shownNumber u metric labels := by
  rw [Entry.shownNumber]
  by_cases hline : e.OneLine
  · rw [if_pos hline, splitlines_of_not_boundary hline, List.findSome?_singleton]
    cases e with
    | comment text hone => exact if_pos (.inr rfl)
    | sample s => exact lineNumber_sample u metric labels s
  · rw [if_neg hline]

/-- The entries are read one by one, and the first number shown is taken. -/
theorem parseMetric_exposition (entries : List Entry) :
    parseMetric u (exposition entries) metric labels = entries.findSome? (Entry.shownNumber u metric labels) := by
  rw [parseMetric, exposition, String.toList_ofList]
  induction entries with
  | nil => rfl
  | cons e entries ih =>
    rw [List.flatMap_cons, List.append_assoc, List.singleton_append, splitlines_append, List.findSome?_append,
      findSome?_pieces, ih, List.findSome?_cons]
    cases e.shownNumber u metric labels <;> rfl

/-! ### Right readings -/

/-- The text starts with the metric and has each `key="value"` in it. -/
def Mentions (text : List Char) : Prop :=
  metric.toList <+: text ∧ ∀ label ∈ labels, label.1.toList ++ ['=', '"'] ++ label.2.toList ++ ['"'] <:+: text

instance (text : List Char) : Decidable (Mentions metric labels text) :=
  @instDecidableAnd _ _ inferInstance
    (List.decidableBAll (fun label => label.1.toList ++ ['=', '"'] ++ label.2.toList ++ ['"'] <:+: text) labels)

/-- Up to the first sample that matches no line mentions the metric with the labels, and that sample does so on one
line and has a value without an exponent. -/
inductive Readable : List Entry → Prop where
  | nil : Readable []
  | pass {e : Entry} {rest : List Entry}
      (unseen : ∀ line ∈ splitlines (e.line ++ ['\n']), line = [] ∨ line.head? = some '#' ∨ ¬Mentions metric labels line)
      (other : ∀ s, e.sample? = some s → ¬s.Matches metric labels) (later : Readable rest) : Readable (e :: rest)
  | here {s : Sample} {rest : List Entry} (whole : (Entry.sample s).OneLine) (found : s.Matches metric labels)
      (mentioned : Mentions metric labels s.line) (plain : s.value.exponent = none) : Readable (.sample s :: rest)

variable {metric labels}

theorem shown_iff_mentions {line : List Char} : Shown metric labels line ↔ Mentions metric labels line := by
  have hfragment : ∀ label : String × String,
      labelFragment label = label.1.toList ++ ['=', '"'] ++ label.2.toList ++ ['"'] := by
    intro label
    simp only [labelFragment, List.append_assoc, List.cons_append, List.nil_append]
  simp only [Shown, Mentions, hfragment]

theorem lineNumber_unseen {line : List Char} (h : line = [] ∨ line.head? = some '#' ∨ ¬Mentions metric labels line) :
    lineNumber u metric labels line = none := by
  rw [lineNumber]
  rcases h with h | h | h
  · exact if_pos (.inl h)
  · exact if_pos (.inr h)
  · rw [if_pos fun hshown => h (shown_iff_mentions.mp hshown), ite_self]

/-- **A readable exposition is read right**: the value of the first sample that matches, or nothing where none does. -/
theorem parseMetric_of_readable {entries : List Entry} (h : Readable metric labels entries) :
    parseMetric u (exposition entries) metric labels = firstMatching entries metric labels := by
  rw [parseMetric_exposition, firstMatching]
  induction h with
  | nil => rfl
  | @pass e rest unseen other _ ih =>
    have hnone : e.shownNumber u metric labels = none := by
      rw [← findSome?_pieces, List.findSome?_eq_none_iff]
      exact fun line hline => lineNumber_unseen u (unseen line hline)
    rw [List.findSome?_cons, hnone]
    cases hsample : e.sample? with
    | none => simpa [List.filterMap_cons, hsample] using ih
    | some s => simpa [List.filterMap_cons, hsample, other s hsample] using ih
  | @here s rest whole found mentioned plain =>
    have hnumber : (Entry.sample s).shownNumber u metric labels = some s.value.value := by
      rw [Entry.shownNumber, if_pos whole, Entry.lineShows, if_pos (shown_iff_mentions.mpr mentioned),
        Number.written_eq_value plain]
    rw [List.findSome?_cons, hnumber]
    simp [Entry.sample?, found]

end Text

/-- A million jobs are read as six. -/
theorem not_parseMetric_eq_firstMatching :
    ¬∀ (u : Unicode) (entries : List Entry) (metric : String) (labels : List (String × String)),
      parseMetric u (exposition entries) metric labels = firstMatching entries metric labels := by
  let million : Number :=
    { whole := [1], exponent := some (false, [0, 6]), whole_ne := by decide, exponent_ne := by decide }
  let queued : Sample :=
    { name := "synqc_queue_jobs_queued", labels := [], value := million,
      name_valid := by decide, labels_sorted := List.Pairwise.nil }
  simp only [not_forall]
  refine ⟨.ascii, [.sample queued], "synqc_queue_jobs_queued", [], ?_⟩
  decide +kernel

example : parseMetric .ascii "jobs_total 3\njobs 5\n" "jobs" = some 3 := by decide +kernel

/-! ### Plain expositions -/

theorem infix_intercalate {sep l : List Char} {lines : List (List Char)} (h : l ∈ lines) :
    l <:+: sep.intercalate lines := by
  induction lines with
  | nil => cases h
  | cons line lines ih =>
    by_cases hnil : lines = []
    · subst hnil
      rw [List.intercalate_singleton, List.mem_singleton.mp h]
    · rw [List.intercalate_cons_of_ne_nil hnil]
      rcases List.mem_cons.mp h with rfl | h
      · rw [List.append_assoc]
        exact (List.prefix_append _ _).isInfix
      · exact (ih h).trans (List.suffix_append _ _).isInfix

theorem infix_line {s : Sample} {label : String × String} (h : label ∈ s.labels) :
    Sample.labelChars label <:+: s.line := by
  have hne : s.labels ≠ [] := List.ne_nil_of_mem h
  have hjoined : Sample.labelChars label <:+: [','].intercalate (s.labels.map Sample.labelChars) :=
    infix_intercalate (List.mem_map_of_mem h)
  have hbraces : [','].intercalate (s.labels.map Sample.labelChars) <:+: s.line := by
    rw [Sample.line, if_neg hne]
    exact ⟨s.name.toList ++ ['{'], '}' :: ' ' :: s.value.chars, by simp⟩
  exact hjoined.trans hbraces

/-- A sample that matches is mentioned, unless a value asked for is written with escapes. -/
theorem Sample.Matches.mentions {metric : String} {labels : List (String × String)} {s : Sample}
    (h : s.Matches metric labels) (hescape : ∀ label ∈ labels, escape label.2 = label.2.toList) :
    Mentions metric labels s.line := by
  obtain ⟨rfl, hlabels⟩ := h
  refine ⟨?_, fun label hlabel => ?_⟩
  · rw [Sample.line, List.append_assoc]
    exact List.prefix_append _ _
  · have hinfix := infix_line (hlabels label hlabel)
    rw [Sample.labelChars.eq_def, hescape label hlabel] at hinfix
    simpa using hinfix

/-- An exposition is readable where no line is cut, no value has an exponent, and only samples that match are
mentioned. -/
theorem readable_of_plain {metric : String} {labels : List (String × String)} {entries : List Entry}
    (hescape : ∀ label ∈ labels, escape label.2 = label.2.toList) (hline : ∀ e ∈ entries, e.OneLine)
    (hmentioned : ∀ s ∈ entries.filterMap Entry.sample?, Mentions metric labels s.line → s.Matches metric labels)
    (hvalue : ∀ s ∈ entries.filterMap Entry.sample?, s.value.exponent = none) : Readable metric labels entries := by
  induction entries with
  | nil => exact .nil
  | cons e entries ih =>
    obtain ⟨he, hlines⟩ := List.forall_mem_cons.mp hline
    cases e with
    | comment text hone =>
      refine .pass ?_ (fun _ hs => by cases hs) (ih hlines hmentioned hvalue)
      rw [splitlines_of_not_boundary he]
      exact List.forall_mem_singleton.mpr (.inr (.inl rfl))
    | sample s =>
      obtain ⟨hs, hmentioned⟩ := List.forall_mem_cons.mp hmentioned
      obtain ⟨hsvalue, hvalue⟩ := List.forall_mem_cons.mp hvalue
      by_cases hmatches : s.Matches metric labels
      · exact .here he hmatches (hmatches.mentions hescape) hsvalue
      · refine .pass ?_ (fun _ heq => Option.some.inj heq ▸ hmatches) (ih hlines hmentioned hvalue)
        rw [splitlines_of_not_boundary he]
        exact List.forall_mem_singleton.mpr (.inr (.inr fun h => hmatches (hs h)))

/-- The session keys of one backend. -/
def sessionKeys (backend : String) (count : Fin 10) : Sample where
  name := "synqc_budget_session_keys"
  labels := [("backend", backend)]
  value := { whole := [count], frac := [0], whole_ne := List.cons_ne_nil _ _, exponent_ne := fun _ h => by cases h }
  name_valid := by decide
  labels_sorted := List.pairwise_singleton _ _

/-- The keys of the backend asked for, behind a comment and another backend's. -/
def budgetGauge : List Entry :=
  [.comment " TYPE synqc_budget_session_keys gauge" (by decide), .sample (sessionKeys "memory" 2),
    .sample (sessionKeys "redis" 3)]

theorem parseMetric_of_readable_redis :
    parseMetric .ascii (exposition budgetGauge) "synqc_budget_session_keys" [("backend", "redis")] = some 3 := by
  have hreadable : Readable "synqc_budget_session_keys" [("backend", "redis")] budgetGauge := by
    refine .pass (by decide +kernel) (fun _ h => by cases h) (.pass (by decide +kernel) ?_ (.here ?_ ?_ ?_ rfl))
    · rintro _ ⟨⟩
      decide
    · decide +kernel
    · decide +kernel
    · decide +kernel
  rw [parseMetric_of_readable .ascii hreadable]
  decide +kernel

end SynQc.LoadTest
