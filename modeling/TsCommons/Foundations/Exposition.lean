import TsCommons.Foundations.Text
import Mathlib.Algebra.BigOperators.Group.List.Basic
import Mathlib.Algebra.Order.BigOperators.Group.List
import Mathlib.Algebra.Order.Ring.Nat
import Mathlib.Data.List.Forall2

/-!
# The Prometheus exposition format

A body consists of lines, of which empty ones are ignored.  A line gives the
type of a metric or a sample of it with its labels, where a backslash, a quote
and a line feed in the value of a label are escaped.  Reading is the inverse
of writing.
-/

namespace TsCommons.Foundations.Exposition

/-- Numbers as text that is read back. -/
structure NumberText (N : Type) where
  text : N → Text
  read : Text → Option N
  read_text : ∀ value, read (text value) = some value
  text_ne_nil : ∀ value, text value ≠ []
  plain : ∀ value, ∀ char ∈ text value, char ≠ ' ' ∧ char ≠ '\n'

inductive Kind
  | counter
  | gauge
  | summary
deriving DecidableEq

def Kind.text : Kind → Text
  | .counter => "counter".toList
  | .gauge => "gauge".toList
  | .summary => "summary".toList

structure Sample (N : Type) where
  name : Text
  labels : List (Text × Text)
  value : N
deriving DecidableEq

inductive Item (N : Type)
  | type (name : Text) (kind : Kind)
  | sample (sample : Sample N)
deriving DecidableEq

/-! ## Names -/

def isNameChar (char : Char) : Bool := char.isAlphanum || char = '_'

def isMetricChar (char : Char) : Bool := isNameChar char || char = ':'

/-- Some of the characters, the first of which is no digit. -/
def isName (allowed : Char → Bool) (name : Text) : Bool :=
  name.all allowed && name.head?.any fun char => !char.isDigit

def IsLabelName (name : Text) : Prop := isName isNameChar name = true

def IsMetricName (name : Text) : Prop := isName isMetricChar name = true

/-! ## Writing -/

def isSpecial (char : Char) : Bool :=
  char = '\\' || char = '"' || char = '\n'

def escapeChar (char : Char) : Text :=
  if char = '\\' then ['\\', '\\']
  else if char = '"' then ['\\', '"']
  else if char = '\n' then ['\\', 'n']
  else [char]

def escape (value : Text) : Text := value.flatMap escapeChar

/-- A label with the text of its value. -/
def labelText (label : Text × Text) : Text :=
  label.1 ++ '=' :: '"' :: (label.2 ++ ['"'])

def labelsText (labels : List (Text × Text)) : Text :=
  [','].intercalate (labels.map labelText)

def braces (labels : List (Text × Text)) : Text :=
  if labels = [] then [] else '\x7b' :: (labelsText labels ++ ['\x7d'])

def sampleText (name : Text) (labels : List (Text × Text)) (number : Text) :
    Text :=
  name ++ (braces labels ++ ' ' :: number)

def typeMark : Text := "# TYPE ".toList

def typeText (name : Text) (kind : Kind) : Text :=
  typeMark ++ (name ++ ' ' :: kind.text)

def escaped (labels : List (Text × Text)) : List (Text × Text) :=
  labels.map fun label => (label.1, escape label.2)

/-! ## Reading -/

/-- The character that is written as the letter after a backslash. -/
def unescape (letter : Char) : Option Char :=
  if letter = '\\' then some '\\'
  else if letter = '"' then some '"'
  else if letter = 'n' then some '\n'
  else none

/-- The value of a label after its opening quote, and what follows it. -/
def parseValue : Text → Option (Text × Text)
  | [] => none
  | '\\' :: letter :: rest =>
      (unescape letter).bind fun char =>
        (parseValue rest).map fun found => (char :: found.1, found.2)
  | char :: rest =>
      if char = '"' then some ([], rest)
      else if char = '\n' ∨ char = '\\' then none
      else (parseValue rest).map fun found => (char :: found.1, found.2)

/-- The labels after the opening brace, and what follows them. -/
def parseLabels : ℕ → Text → Option (List (Text × Text) × Text)
  | 0, _ => none
  | fuel + 1, text =>
      let name := text.takeWhile isNameChar
      if isName isNameChar name then
        match text.dropWhile isNameChar with
        | '=' :: '"' :: rest =>
            match parseValue rest with
            | some (value, '\x7d' :: rest) => some ([(name, value)], rest)
            | some (value, ',' :: rest) =>
                (parseLabels fuel rest).map fun found =>
                  ((name, value) :: found.1, found.2)
            | _ => none
        | _ => none
      else none

def parseBraces : Text → Option (List (Text × Text) × Text)
  | '\x7b' :: rest => parseLabels rest.length rest
  | rest => some ([], rest)

variable {N : Type}

def parseSample (format : NumberText N) (line : Text) : Option (Sample N) :=
  let name := line.takeWhile isMetricChar
  if isName isMetricChar name then
    match parseBraces (line.dropWhile isMetricChar) with
    | some (labels, ' ' :: number) =>
        if ' ' ∈ number then none
        else (format.read number).map fun value => ⟨name, labels, value⟩
    | _ => none
  else none

def kindOf (text : Text) : Option Kind :=
  [Kind.counter, .gauge, .summary].find? fun kind => kind.text = text

def parseType (line : Text) : Option (Text × Kind) :=
  if typeMark.isPrefixOf line then
    let text := line.drop typeMark.length
    let name := text.takeWhile isMetricChar
    if isName isMetricChar name then
      match text.dropWhile isMetricChar with
      | ' ' :: kind => (kindOf kind).map fun kind => (name, kind)
      | _ => none
    else none
  else none

def parseLine (format : NumberText N) (line : Text) : Option (Item N) :=
  if line.head? = some '#' then
    (parseType line).map fun found => .type found.1 found.2
  else (parseSample format line).map .sample

/-- The lines that are not empty. -/
def contentLines (text : Text) : List Text :=
  (text.splitOn '\n').filter (· ≠ [])

def parse (format : NumberText N) (text : Text) : Option (List (Item N)) :=
  (contentLines text).mapM (parseLine format)

/-! ## Values -/

variable {value text rest : Text} {char : Char}
  {labels : List (Text × Text)}

theorem parseValue_plain (hplain : isSpecial char = false) (rest : Text) :
    parseValue (char :: rest) =
      (parseValue rest).map fun found => (char :: found.1, found.2) := by
  simp only [isSpecial, Bool.or_eq_false_iff, decide_eq_false_iff_not]
    at hplain
  obtain ⟨⟨hbackslash, hquote⟩, hfeed⟩ := hplain
  rw [parseValue, if_neg hquote,
    if_neg (not_or.mpr ⟨hfeed, hbackslash⟩)]
  exact fun _ _ heq => absurd heq hbackslash

theorem escapeChar_cases (char : Char) :
    (∃ letter, escapeChar char = ['\\', letter] ∧
      unescape letter = some char ∧ isSpecial char = true) ∨
    (escapeChar char = [char] ∧ isSpecial char = false) := by
  by_cases hbackslash : char = '\\'
  · subst hbackslash
    exact Or.inl ⟨'\\', rfl, rfl, rfl⟩
  by_cases hquote : char = '"'
  · subst hquote
    exact Or.inl ⟨'"', rfl, rfl, rfl⟩
  by_cases hfeed : char = '\n'
  · subst hfeed
    exact Or.inl ⟨'n', rfl, rfl, rfl⟩
  right
  constructor
  · rw [escapeChar, if_neg hbackslash, if_neg hquote, if_neg hfeed]
  · simp [isSpecial, hbackslash, hquote, hfeed]

theorem escapeChar_of_unescape {letter : Char}
    (hletter : unescape letter = some char) :
    escapeChar char = ['\\', letter] := by
  unfold unescape at hletter
  split at hletter
  next heq =>
    cases hletter
    rw [heq]
    rfl
  split at hletter
  next heq =>
    cases hletter
    rw [heq]
    rfl
  split at hletter
  next heq =>
    cases hletter
    rw [heq]
    rfl
  next => cases hletter

theorem escape_cons (char : Char) (value : Text) :
    escape (char :: value) = escapeChar char ++ escape value :=
  List.flatMap_cons

theorem parseValue_escape (value rest : Text) :
    parseValue (escape value ++ '"' :: rest) = some (value, rest) := by
  induction value with
  | nil => rfl
  | cons char value ih =>
      rw [escape_cons, List.append_assoc]
      rcases escapeChar_cases char with
        ⟨letter, hescape, hletter, -⟩ | ⟨hescape, hplain⟩
      · rw [hescape, List.cons_append, List.singleton_append, parseValue,
          hletter, ih]
        rfl
      · rw [hescape, List.singleton_append, parseValue_plain hplain, ih]
        rfl

theorem eq_of_parseValue (hparse : parseValue text = some (value, rest)) :
    text = escape value ++ '"' :: rest := by
  induction text using parseValue.induct generalizing value with
  | case1 => cases hparse
  | case2 letter tail ih =>
      rw [parseValue, Option.bind_eq_some_iff] at hparse
      obtain ⟨char, hletter, hrest⟩ := hparse
      rw [Option.map_eq_some_iff] at hrest
      obtain ⟨⟨found, after⟩, hfound, heq⟩ := hrest
      cases heq
      rw [escape_cons, escapeChar_of_unescape hletter, ih hfound]
      rfl
  | case3 tail hnot =>
      rw [parseValue, if_pos rfl] at hparse
      · cases hparse
        rfl
      · exact hnot
  | case4 char tail hnot hquote hbreak =>
      rw [parseValue, if_neg hquote, if_pos hbreak] at hparse
      · cases hparse
      · exact hnot
  | case5 char tail hnot hquote hplain ih =>
      rw [parseValue, if_neg hquote, if_neg hplain] at hparse
      · rw [Option.map_eq_some_iff] at hparse
        obtain ⟨⟨found, after⟩, hfound, heq⟩ := hparse
        cases heq
        obtain ⟨hfeed, hbackslash⟩ := not_or.mp hplain
        rw [escape_cons, escapeChar, if_neg hbackslash, if_neg hquote,
          if_neg hfeed, ih hfound]
        rfl
      · exact hnot

/-! ## Names and labels -/

theorem isName_iff {allowed : Char → Bool} {name : Text} :
    isName allowed name = true ↔ (∀ char ∈ name, allowed char = true) ∧
      ∃ first ∈ name.head?, first.isDigit = false := by
  rw [isName, Bool.and_eq_true, List.all_eq_true]
  apply and_congr_right
  intro _
  cases name with
  | nil => simp
  | cons first rest => simp

theorem takeWhile_name {allowed : Char → Bool} {name : Text}
    (hname : isName allowed name = true) (rest : Text)
    (hrest : rest.head?.any allowed = false) :
    (name ++ rest).takeWhile allowed = name ∧
      (name ++ rest).dropWhile allowed = rest := by
  have hall := (isName_iff.mp hname).1
  have htake : rest.takeWhile allowed = [] ∧ rest.dropWhile allowed = rest := by
    cases rest with
    | nil => exact ⟨rfl, rfl⟩
    | cons first tail =>
        have hfirst : allowed first = false := by simpa using hrest
        exact ⟨List.takeWhile_cons_of_neg (by simp [hfirst]),
          List.dropWhile_cons_of_neg (by simp [hfirst])⟩
  rw [List.takeWhile_append_of_pos hall, List.dropWhile_append_of_pos hall,
    htake.1, htake.2, List.append_nil]
  exact ⟨rfl, rfl⟩

theorem labelsText_cons_cons (first second : Text × Text)
    (labels : List (Text × Text)) :
    labelsText (first :: second :: labels) =
      labelText first ++ ',' :: labelsText (second :: labels) := by
  rw [labelsText, List.map_cons, List.map_cons, List.intercalate_cons_cons,
    List.append_assoc]
  rfl

theorem labelsText_escaped_cons_cons (first second : Text × Text)
    (labels : List (Text × Text)) :
    labelsText (escaped (first :: second :: labels)) =
      labelText (first.1, escape first.2) ++
        ',' :: labelsText (escaped (second :: labels)) :=
  labelsText_cons_cons _ _ _

theorem labelsText_singleton (label : Text × Text) :
    labelsText [label] = labelText label :=
  List.intercalate_singleton

theorem labelsText_concat (label : Text × Text) (hne : labels ≠ []) :
    labelsText (labels ++ [label]) =
      labelsText labels ++ ',' :: labelText label := by
  induction labels with
  | nil => exact absurd rfl hne
  | cons first labels ih =>
      cases labels with
      | nil =>
          rw [List.singleton_append, labelsText_cons_cons,
            labelsText_singleton, labelsText_singleton]
      | cons second others =>
          have hothers := ih (List.cons_ne_nil _ _)
          rw [List.cons_append] at hothers
          rw [List.cons_append, List.cons_append, labelsText_cons_cons,
            hothers, labelsText_cons_cons, List.append_assoc,
            List.cons_append]

/-- A label is read from its text. -/
theorem parse_labelText {label : Text × Text}
    (hname : IsLabelName label.1) (rest : Text) :
    (labelText (label.1, escape label.2) ++ rest).takeWhile isNameChar =
        label.1 ∧
      ∃ after, (labelText (label.1, escape label.2) ++ rest).dropWhile
          isNameChar = '=' :: '"' :: after ∧
        parseValue after = some (label.2, rest) := by
  have hsplit : labelText (label.1, escape label.2) ++ rest =
      label.1 ++ ('=' :: '"' :: (escape label.2 ++ '"' :: rest)) := by
    simp [labelText]
  obtain ⟨htake, hdrop⟩ := takeWhile_name hname
    ('=' :: '"' :: (escape label.2 ++ '"' :: rest)) rfl
  rw [hsplit, htake, hdrop]
  exact ⟨rfl, _, rfl, parseValue_escape label.2 rest⟩

theorem parseLabels_labelsText {label : Text × Text}
    (hnames : ∀ other ∈ label :: labels, IsLabelName other.1) {fuel : ℕ}
    (hfuel : labels.length < fuel) (rest : Text) :
    parseLabels fuel
        (labelsText (escaped (label :: labels)) ++ '\x7d' :: rest) =
      some (label :: labels, rest) := by
  induction labels generalizing label fuel with
  | nil =>
      obtain ⟨fuel, rfl⟩ :=
        Nat.exists_eq_succ_of_ne_zero (Nat.ne_zero_of_lt hfuel)
      have hname := hnames label List.mem_cons_self
      obtain ⟨htake, after, hdrop, hvalue⟩ :=
        parse_labelText hname ('\x7d' :: rest)
      rw [escaped, List.map_singleton, labelsText_singleton, parseLabels]
      simp only [htake, hdrop, hvalue]
      exact if_pos hname
  | cons second labels ih =>
      obtain ⟨fuel, rfl⟩ :=
        Nat.exists_eq_succ_of_ne_zero (Nat.ne_zero_of_lt hfuel)
      have hname := hnames label List.mem_cons_self
      have hrest : ∀ other ∈ second :: labels, IsLabelName other.1 :=
        fun other hother => hnames other (List.mem_cons_of_mem label hother)
      obtain ⟨htake, after, hdrop, hvalue⟩ := parse_labelText hname
        (',' :: (labelsText (escaped (second :: labels)) ++ '\x7d' :: rest))
      have hothers := ih hrest (Nat.lt_of_succ_lt_succ hfuel)
      rw [labelsText_escaped_cons_cons, List.append_assoc, List.cons_append,
        parseLabels]
      simp only [htake, hdrop, hvalue, hothers]
      exact if_pos hname

theorem eq_of_parseLabels {fuel : ℕ}
    (hparse : parseLabels fuel text = some (labels, rest)) :
    labels ≠ [] ∧ text = labelsText (escaped labels) ++ '\x7d' :: rest := by
  induction fuel generalizing text labels with
  | zero => cases hparse
  | succ fuel ih =>
      have hsplit : text.takeWhile isNameChar ++ text.dropWhile isNameChar =
          text := List.takeWhile_append_dropWhile
      simp only [parseLabels] at hparse
      split at hparse
      next hname =>
        split at hparse
        next after hdrop =>
          rw [← hsplit, hdrop]
          split at hparse
          next value tail hvalue =>
            cases hparse
            refine ⟨List.cons_ne_nil _ _, ?_⟩
            rw [eq_of_parseValue hvalue, escaped, List.map_singleton,
              labelsText_singleton]
            simp [labelText]
          next value tail hvalue =>
            rw [Option.map_eq_some_iff] at hparse
            obtain ⟨⟨found, last⟩, hfound, heq⟩ := hparse
            cases heq
            obtain ⟨hne, htail⟩ := ih hfound
            obtain ⟨second, others, rfl⟩ := List.exists_cons_of_ne_nil hne
            refine ⟨List.cons_ne_nil _ _, ?_⟩
            rw [eq_of_parseValue hvalue, htail, labelsText_escaped_cons_cons]
            simp [labelText]
          next => cases hparse
        next => cases hparse
      next => cases hparse

/-! ## Lines -/

section Lines

variable {format : NumberText N} {sample : Sample N} {line name : Text}

theorem not_mem_text (format : NumberText N) (value : N) :
    ' ' ∉ format.text value :=
  fun hmem => (format.plain value ' ' hmem).1 rfl

theorem braces_of_ne_nil (hne : labels ≠ []) :
    braces labels = '\x7b' :: (labelsText labels ++ ['\x7d']) :=
  if_neg hne

theorem escaped_ne_nil (hne : labels ≠ []) : escaped labels ≠ [] :=
  fun hnil => hne (List.map_eq_nil_iff.mp hnil)

theorem length_le_labelsText (labels : List (Text × Text)) :
    labels.length ≤ (labelsText labels).length := by
  induction labels with
  | nil => exact Nat.zero_le _
  | cons first labels ih =>
      cases labels with
      | nil =>
          rw [labelsText_singleton]
          simp only [labelText, List.length_append, List.length_cons,
            List.length_nil]
          omega
      | cons second others =>
          rw [labelsText_cons_cons]
          simp only [List.length_append, List.length_cons] at ih ⊢
          omega

theorem parseBraces_braces (hlabels : ∀ label ∈ labels, IsLabelName label.1)
    (rest : Text) :
    parseBraces (braces (escaped labels) ++ ' ' :: rest) =
      some (labels, ' ' :: rest) := by
  cases labels with
  | nil => rfl
  | cons first others =>
      have hbraces : braces (escaped (first :: others)) ++ ' ' :: rest =
          '\x7b' :: (labelsText (escaped (first :: others)) ++
            '\x7d' :: ' ' :: rest) := by
        rw [braces_of_ne_nil (escaped_ne_nil (List.cons_ne_nil _ _))]
        simp
      have hlength := length_le_labelsText (escaped (first :: others))
      rw [escaped, List.length_map, ← escaped, List.length_cons] at hlength
      rw [hbraces, parseBraces]
      refine parseLabels_labelsText hlabels ?_ (' ' :: rest)
      rw [List.length_append, List.length_cons]
      omega

theorem head?_braces (labels : List (Text × Text)) (rest : Text) :
    (braces labels ++ ' ' :: rest).head?.any isMetricChar = false := by
  unfold braces
  split
  · rfl
  · rfl

/-- A sample is read from its line. -/
theorem parseSample_sampleText (hname : IsMetricName sample.name)
    (hlabels : ∀ label ∈ sample.labels, IsLabelName label.1) :
    parseSample format (sampleText sample.name (escaped sample.labels)
      (format.text sample.value)) = some sample := by
  obtain ⟨htake, hdrop⟩ := takeWhile_name hname
    (braces (escaped sample.labels) ++ ' ' :: format.text sample.value)
    (head?_braces _ _)
  simp only [parseSample, sampleText, htake, hdrop,
    parseBraces_braces hlabels, if_neg (not_mem_text format sample.value),
    format.read_text]
  exact if_pos hname

theorem eq_of_parseBraces (hparse : parseBraces text = some (labels, rest)) :
    text = braces (escaped labels) ++ rest := by
  unfold parseBraces at hparse
  split at hparse
  next tail =>
    obtain ⟨hne, htail⟩ := eq_of_parseLabels hparse
    rw [htail, braces_of_ne_nil (escaped_ne_nil hne)]
    simp
  next =>
    cases hparse
    rfl

/-- A line that is read is that of the sample, but for the spelling of the
number. -/
theorem eq_of_parseSample (hparse : parseSample format line = some sample) :
    ∃ number, ' ' ∉ number ∧
      line = sampleText sample.name (escaped sample.labels) number := by
  have hsplit : line.takeWhile isMetricChar ++ line.dropWhile isMetricChar =
      line := List.takeWhile_append_dropWhile
  simp only [parseSample] at hparse
  split at hparse
  next hname =>
    split at hparse
    next labels number hbraces =>
      split at hparse
      next => cases hparse
      next hspace =>
        rw [Option.map_eq_some_iff] at hparse
        obtain ⟨value, -, rfl⟩ := hparse
        refine ⟨number, hspace, ?_⟩
        rw [sampleText, ← eq_of_parseBraces hbraces, hsplit]
    next => cases hparse
  next => cases hparse

theorem head?_name {rest : Text} (hname : IsMetricName name) :
    (name ++ rest).head? ≠ some '#' := by
  obtain ⟨hall, first, hfirst, -⟩ := isName_iff.mp hname
  rw [Option.mem_def] at hfirst
  rw [List.head?_append, hfirst, Option.some_or]
  rintro ⟨⟩
  exact absurd (hall '#' (List.mem_of_mem_head? hfirst)) (by decide)

theorem parseLine_name {rest : Text} (hname : IsMetricName name) :
    parseLine format (name ++ rest) =
      (parseSample format (name ++ rest)).map .sample :=
  if_neg (head?_name hname)

theorem kindOf_text (kind : Kind) : kindOf kind.text = some kind := by
  cases kind with
  | counter => decide +kernel
  | gauge => decide +kernel
  | summary => decide +kernel

theorem parseLine_typeText (hname : IsMetricName name) (kind : Kind) :
    parseLine format (typeText name kind) = some (.type name kind) := by
  have hhead : (typeText name kind).head? = some '#' := rfl
  have hmark : typeMark.isPrefixOf (typeText name kind) = true :=
    List.isPrefixOf_iff_prefix.mpr (List.prefix_append _ _)
  have hdropMark : (typeText name kind).drop typeMark.length =
      name ++ ' ' :: kind.text := List.drop_left
  obtain ⟨htake, hdrop⟩ := takeWhile_name hname (' ' :: kind.text) rfl
  have hparse : parseType (typeText name kind) = some (name, kind) := by
    simp only [parseType, hmark, hdropMark, htake, hdrop, kindOf_text]
    exact if_pos hname
  rw [parseLine, if_pos hhead, hparse]
  rfl

end Lines

/-! ## Labels that need no escape -/

/-- The number of characters that are escaped in the values. -/
def specials (labels : List (Text × Text)) : ℕ :=
  (labels.map fun label => label.2.countP isSpecial).sum

theorem length_escape (value : Text) :
    (escape value).length = value.length + value.countP isSpecial := by
  induction value with
  | nil => rfl
  | cons char value ih =>
      rw [escape_cons, List.length_append, ih, List.length_cons]
      rcases escapeChar_cases char with
        ⟨letter, hescape, -, hspecial⟩ | ⟨hescape, hplain⟩
      · rw [hescape, List.countP_cons_of_pos hspecial]
        simp only [List.length_cons, List.length_nil]
        omega
      · rw [hescape, List.countP_cons_of_neg (by simp [hplain])]
        simp only [List.length_cons, List.length_nil]
        omega

theorem length_labelText_escape (label : Text × Text) :
    (labelText (label.1, escape label.2)).length =
      (labelText label).length + label.2.countP isSpecial := by
  simp only [labelText, List.length_append, List.length_cons, length_escape]
  omega

theorem length_labelsText_escaped (labels : List (Text × Text)) :
    (labelsText (escaped labels)).length =
      (labelsText labels).length + specials labels := by
  induction labels with
  | nil => rfl
  | cons first labels ih =>
      cases labels with
      | nil =>
          rw [escaped, List.map_singleton, labelsText_singleton,
            labelsText_singleton, length_labelText_escape]
          rfl
      | cons second others =>
          have hspecials : specials (first :: second :: others) =
              first.2.countP isSpecial + specials (second :: others) :=
            List.sum_cons
          rw [labelsText_escaped_cons_cons, labelsText_cons_cons,
            List.length_append, List.length_append, List.length_cons,
            List.length_cons, ih, length_labelText_escape, hspecials]
          omega

/-- Nothing is escaped in the values. -/
def PlainLabels (labels : List (Text × Text)) : Prop :=
  ∀ label ∈ labels, ∀ char ∈ label.2, isSpecial char = false

instance PlainLabels.decidable (labels : List (Text × Text)) :
    Decidable (PlainLabels labels) :=
  have (label : Text × Text) :
      Decidable (∀ char ∈ label.2, isSpecial char = false) :=
    List.decidableBAll _ label.2
  List.decidableBAll _ labels

theorem plainLabels_of_specials (hnone : specials labels = 0) :
    PlainLabels labels := by
  intro label hlabel char hchar
  have hcount : label.2.countP isSpecial = 0 :=
    List.sum_eq_zero_iff.mp hnone _ (List.mem_map_of_mem hlabel)
  exact Bool.eq_false_iff.mpr (List.countP_eq_zero.mp hcount char hchar)

theorem escape_of_plain (hplain : ∀ char ∈ value, isSpecial char = false) :
    escape value = value := by
  induction value with
  | nil => rfl
  | cons char value ih =>
      obtain ⟨hchar, hrest⟩ := List.forall_mem_cons.mp hplain
      rcases escapeChar_cases char with ⟨-, -, -, hspecial⟩ | ⟨hescape, -⟩
      · rw [hchar] at hspecial
        cases hspecial
      · rw [escape_cons, hescape, ih hrest, List.singleton_append]

theorem PlainLabels.escaped_eq (hplain : PlainLabels labels) :
    escaped labels = labels := by
  refine (List.map_congr_left fun label hlabel => ?_).trans (List.map_id _)
  rw [escape_of_plain (hplain label hlabel)]
  rfl

/-- A line without escapes is that of the sample only if it needs none. -/
theorem plainLabels_of_sampleText {name number number' : Text}
    (heq : sampleText name labels number =
      sampleText name (escaped labels) number')
    (hnumber : ' ' ∉ number) (hnumber' : ' ' ∉ number') :
    PlainLabels labels := by
  have hbraces : braces labels = braces (escaped labels) :=
    (Text.append_cons_inj_right hnumber hnumber'
      (List.append_cancel_left heq)).1
  apply plainLabels_of_specials
  cases labels with
  | nil => rfl
  | cons first others =>
      have hlength := congrArg List.length hbraces
      rw [braces_of_ne_nil (List.cons_ne_nil _ _),
        braces_of_ne_nil (escaped_ne_nil (List.cons_ne_nil _ _)),
        List.length_cons, List.length_cons, List.length_append,
        List.length_append, length_labelsText_escaped] at hlength
      omega

/-! ## Bodies -/

theorem contentLines_append (before after : Text) :
    contentLines (before ++ '\n' :: after) =
      contentLines before ++ contentLines after := by
  rw [contentLines, List.splitOn_append_cons_self, List.filter_append]
  rfl

theorem contentLines_of_not_mem {line : Text} (hnone : '\n' ∉ line)
    (hne : line ≠ []) : contentLines line = [line] := by
  rw [contentLines, List.splitOn_eq_singleton hnone]
  simp [hne]

theorem contentLines_ne_nil (hmem : char ∈ text) (hne : char ≠ '\n') :
    contentLines text ≠ [] := by
  intro hnil
  have hempty : ∀ line ∈ text.splitOn '\n', line = [] := by
    intro line hline
    by_contra hnot
    refine List.ne_nil_of_mem (List.mem_filter.mpr ⟨hline, ?_⟩) hnil
    exact decide_eq_true hnot
  have hjoin : Text.joinLines (text.splitOn '\n') = text :=
    List.intercalate_splitOn '\n'
  rw [← hjoin] at hmem
  rcases Text.mem_joinLines hmem with heq | ⟨line, hline, hchar⟩
  · exact hne heq
  · rw [hempty line hline] at hchar
    cases hchar

/-- Neither the first nor the last character is a line feed. -/
structure Bordered (line : Text) : Prop where
  first : ∃ char ∈ line.head?, char ≠ '\n'
  last : ∃ char ∈ line.getLast?, char ≠ '\n'

theorem Bordered.contentLines_cases {line : Text} (hline : Bordered line) :
    '\n' ∉ line ∧ contentLines line = [line] ∨
      2 ≤ (contentLines line).length := by
  obtain ⟨⟨first, hfirst, hfirstNe⟩, last, hlast, hlastNe⟩ := hline
  rw [Option.mem_def] at hfirst hlast
  by_cases hfeed : '\n' ∈ line
  · right
    obtain ⟨before, after, rfl⟩ := List.append_of_mem hfeed
    have hbefore : first ∈ before := by
      cases before with
      | nil => exact absurd (Option.some.inj hfirst).symm hfirstNe
      | cons char before =>
          rw [← Option.some.inj hfirst]
          exact List.mem_cons_self
    have hafter : last ∈ after := by
      rcases List.eq_nil_or_concat after with rfl | ⟨middle, char, rfl⟩
      · rw [List.getLast?_concat] at hlast
        exact absurd (Option.some.inj hlast).symm hlastNe
      · rw [List.concat_eq_append, ← List.cons_append, ← List.append_assoc,
          List.getLast?_concat] at hlast
        rw [← Option.some.inj hlast]
        simp
    rw [contentLines_append, List.length_append]
    have hone := List.length_pos_iff.mpr (contentLines_ne_nil hbefore hfirstNe)
    have htwo := List.length_pos_iff.mpr (contentLines_ne_nil hafter hlastNe)
    omega
  · refine Or.inl ⟨hfeed, contentLines_of_not_mem hfeed ?_⟩
    rintro rfl
    cases hfirst

theorem Bordered.one_le {line : Text} (hline : Bordered line) :
    1 ≤ (contentLines line).length := by
  rcases hline.contentLines_cases with ⟨-, heq⟩ | htwo
  · rw [heq]
    rfl
  · omega

/-- Parts that are joined by line feeds keep their lines. -/
theorem contentLines_intercalate {separator : Text}
    (hseparator : separator = ['\n'] ∨ separator = ['\n', '\n'])
    (parts : List Text) :
    contentLines (separator.intercalate parts) =
      parts.flatMap contentLines := by
  have happend (before after : Text) :
      contentLines (before ++ separator ++ after) =
        contentLines before ++ contentLines after := by
    rcases hseparator with rfl | rfl
    · rw [List.append_assoc]
      exact contentLines_append before after
    · rw [List.append_assoc]
      exact (contentLines_append before ('\n' :: after)).trans
        (congrArg (contentLines before ++ ·) (contentLines_append [] after))
  induction parts with
  | nil => rfl
  | cons first parts ih =>
      cases parts with
      | nil =>
          rw [List.intercalate_singleton, List.flatMap_singleton]
      | cons second others =>
          rw [List.intercalate_cons_cons, happend, ih]
          exact List.flatMap_cons.symm

section Bodies

variable {α β : Type*} {format : NumberText N} {written items : List (Item N)}
  {item : Item N}

theorem mapM_eq_some_iff {f : α → Option β} {xs : List α} {ys : List β} :
    xs.mapM f = some ys ↔ List.Forall₂ (fun x y => f x = some y) xs ys := by
  induction xs generalizing ys with
  | nil =>
      rw [List.mapM_nil, List.forall₂_nil_left_iff]
      exact ⟨fun heq => (Option.some.inj heq).symm, fun heq => heq ▸ rfl⟩
  | cons x xs ih =>
      rw [List.mapM_cons, List.forall₂_cons_left_iff]
      constructor
      · intro heq
        obtain ⟨y, hy, hrest⟩ := Option.bind_eq_some_iff.mp heq
        obtain ⟨rest, hxs, hlast⟩ := Option.bind_eq_some_iff.mp hrest
        exact ⟨y, rest, hy, ih.mp hxs, (Option.some.inj hlast).symm⟩
      · rintro ⟨y, rest, hy, hrest, rfl⟩
        refine Option.bind_eq_some_iff.mpr ⟨y, hy, ?_⟩
        exact Option.bind_eq_some_iff.mpr ⟨rest, ih.mpr hrest, rfl⟩

/-- The line of an item in which nothing is escaped. -/
def Item.unescaped (format : NumberText N) : Item N → Text
  | .type name kind => typeText name kind
  | .sample taken =>
      sampleText taken.name taken.labels (format.text taken.value)

def Item.Valid : Item N → Prop
  | .type name _ => IsMetricName name
  | .sample taken => IsMetricName taken.name ∧
      ∀ label ∈ taken.labels, IsLabelName label.1

/-- Nothing is escaped in the line of the item. -/
def Item.Plain : Item N → Prop
  | .type _ _ => True
  | .sample taken => PlainLabels taken.labels

def Item.sample? : Item N → Option (Sample N)
  | .type _ _ => none
  | .sample taken => some taken

def Item.type? : Item N → Option (Text × Kind)
  | .type name kind => some (name, kind)
  | .sample _ => none

def samplesOf (items : List (Item N)) : List (Sample N) :=
  items.filterMap Item.sample?

def typesOf (items : List (Item N)) : List (Text × Kind) :=
  items.filterMap Item.type?

theorem length_eq_samplesOf_add_typesOf (items : List (Item N)) :
    items.length = (samplesOf items).length + (typesOf items).length := by
  induction items with
  | nil => rfl
  | cons item items ih =>
      cases item with
      | type name kind =>
          have hsamples : samplesOf (.type name kind :: items) =
              samplesOf items := rfl
          have htypes : typesOf (.type name kind :: items) =
              (name, kind) :: typesOf items := rfl
          rw [hsamples, htypes, List.length_cons, List.length_cons, ih]
          omega
      | sample sample =>
          have hsamples : samplesOf (.sample sample :: items) =
              sample :: samplesOf items := rfl
          have htypes : typesOf (.sample sample :: items) =
              typesOf items := rfl
          rw [hsamples, htypes, List.length_cons, List.length_cons, ih]
          omega

theorem bordered_of_head {name rest : Text} (hname : IsMetricName name)
    (hlast : ∃ char ∈ rest.getLast?, char ≠ '\n') :
    Bordered (name ++ rest) := by
  obtain ⟨hall, first, hfirst, -⟩ := isName_iff.mp hname
  obtain ⟨last, hlast, hlastNe⟩ := hlast
  rw [Option.mem_def] at hfirst hlast
  refine ⟨⟨first, ?_, ?_⟩, last, ?_, hlastNe⟩
  · rw [Option.mem_def, List.head?_append, hfirst, Option.some_or]
  · rintro rfl
    exact absurd (hall '\n' (List.mem_of_mem_head? hfirst)) (by decide)
  · rw [Option.mem_def, List.getLast?_append, hlast, Option.some_or]

theorem Item.Valid.bordered (hitem : item.Valid) (format : NumberText N) :
    Bordered (item.unescaped format) := by
  cases item with
  | type name kind =>
      refine ⟨⟨'#', rfl, by decide⟩, ?_⟩
      have hlast : ∃ char ∈ kind.text.getLast?, char ≠ '\n' := by
        cases kind with
        | counter => exact ⟨'r', by decide +kernel, by decide⟩
        | gauge => exact ⟨'e', by decide +kernel, by decide⟩
        | summary => exact ⟨'y', by decide +kernel, by decide⟩
      obtain ⟨char, hchar, hne⟩ := hlast
      have hsplit : typeText name kind =
          typeMark ++ (name ++ [' ']) ++ kind.text := by
        simp [typeText]
      refine ⟨char, ?_, hne⟩
      rw [Option.mem_def] at hchar ⊢
      rw [Item.unescaped, hsplit, List.getLast?_append, hchar,
        Option.some_or]
  | sample taken =>
      refine bordered_of_head hitem.1 ?_
      have hne := format.text_ne_nil taken.value
      refine ⟨(format.text taken.value).getLast hne, ?_,
        (format.plain _ _ (List.getLast_mem hne)).2⟩
      rw [Option.mem_def, List.getLast?_append, List.getLast?_cons,
        List.getLast?_eq_some_getLast hne]
      rfl

/-- What is read from the line of an item is of the same sort. -/
theorem Item.Valid.parsed_cases {written : Item N} (hwritten : written.Valid)
    (hparse : parseLine format (written.unescaped format) = some item) :
    (∃ name kind, written = .type name kind ∧ item = .type name kind) ∨
      ∃ taken read, written = .sample taken ∧ item = .sample read ∧
        parseSample format (written.unescaped format) = some read := by
  cases written with
  | type name kind =>
      rw [Item.unescaped, parseLine_typeText hwritten] at hparse
      exact Or.inl ⟨name, kind, rfl, (Option.some.inj hparse).symm⟩
  | sample taken =>
      rw [Item.unescaped, sampleText, parseLine_name hwritten.1,
        Option.map_eq_some_iff] at hparse
      obtain ⟨read, hread, rfl⟩ := hparse
      exact Or.inr ⟨taken, read, rfl, rfl, hread⟩

/-- An item that is read from its line without escapes needs none. -/
theorem Item.Valid.plain_of_parsed (hitem : item.Valid)
    (hparse : parseLine format (item.unescaped format) = some item) :
    item.Plain := by
  rcases hitem.parsed_cases hparse with
    ⟨name, kind, rfl, -⟩ | ⟨taken, read, rfl, heq, hread⟩
  · trivial
  · cases heq
    obtain ⟨number, hnumber, hline⟩ := eq_of_parseSample hread
    exact plainLabels_of_sampleText hline (not_mem_text format taken.value)
      hnumber

theorem Item.Plain.parsed (hplain : item.Plain) (hitem : item.Valid) :
    parseLine format (item.unescaped format) = some item := by
  cases item with
  | type name kind => exact parseLine_typeText hitem kind
  | sample taken =>
      have hparse : parseSample format (sampleText taken.name
          (escaped taken.labels) (format.text taken.value)) = some taken :=
        parseSample_sampleText hitem.1 hitem.2
      rw [PlainLabels.escaped_eq hplain] at hparse
      rw [Item.unescaped, sampleText, parseLine_name hitem.1, ← sampleText,
        hparse]
      rfl

/-- With the same samples in the end, the items are the same. -/
theorem eq_of_samplesOf (hwritten : ∀ item ∈ written, item.Valid)
    (hparse : List.Forall₂
      (fun item read => parseLine format (item.unescaped format) = some read)
      written items)
    (hsamples : samplesOf items = samplesOf written) : items = written := by
  induction hparse with
  | nil => rfl
  | cons hread _ ih =>
      obtain ⟨hitem, hrest⟩ := List.forall_mem_cons.mp hwritten
      rcases hitem.parsed_cases hread with
        ⟨name, kind, rfl, rfl⟩ | ⟨taken, read, rfl, rfl, -⟩
      · rw [ih hrest hsamples]
      · obtain ⟨htaken, hothers⟩ := List.cons.inj hsamples
        rw [ih hrest hothers, htaken]

theorem length_le_flatMap (format : NumberText N)
    (hwritten : ∀ item ∈ written, item.Valid) :
    written.length ≤ (written.flatMap fun item =>
      contentLines (item.unescaped format)).length := by
  induction written with
  | nil => exact le_rfl
  | cons item written ih =>
      obtain ⟨hitem, hrest⟩ := List.forall_mem_cons.mp hwritten
      have hone := (hitem.bordered format).one_le
      have hothers := ih hrest
      rw [List.flatMap_cons, List.length_append, List.length_cons]
      omega

/-- With no more lines than items each item has one line. -/
theorem flatMap_eq_map (hwritten : ∀ item ∈ written, item.Valid)
    (hlength : (written.flatMap fun item =>
      contentLines (item.unescaped format)).length ≤ written.length) :
    (written.flatMap fun item => contentLines (item.unescaped format)) =
      written.map fun item => item.unescaped format := by
  induction written with
  | nil => rfl
  | cons item written ih =>
      obtain ⟨hitem, hrest⟩ := List.forall_mem_cons.mp hwritten
      have hothers := length_le_flatMap format hrest
      rw [List.flatMap_cons, List.length_append, List.length_cons] at hlength
      rcases (hitem.bordered format).contentLines_cases with
        ⟨-, heq⟩ | htwo
      · rw [heq, List.length_singleton] at hlength
        rw [List.flatMap_cons, heq, ih hrest (by omega)]
        rfl
      · omega

/-- A body that is written without escapes is read as the samples that it was
written for, with no more types, only if nothing needed to be escaped. -/
theorem eq_of_parse_unescaped (hwritten : ∀ item ∈ written, item.Valid)
    (hlines : contentLines text =
      written.flatMap fun item => contentLines (item.unescaped format))
    (hparse : parse format text = some items)
    (hsamples : samplesOf items = samplesOf written)
    (htypes : (typesOf items).length ≤ (typesOf written).length) :
    items = written ∧ ∀ item ∈ written, item.Plain := by
  have hall := mapM_eq_some_iff.mp hparse
  have hlength : (contentLines text).length ≤ written.length := by
    rw [hall.length_eq, length_eq_samplesOf_add_typesOf items, hsamples,
      length_eq_samplesOf_add_typesOf written]
    exact Nat.add_le_add_left htypes _
  have hmap : contentLines text =
      written.map fun item => item.unescaped format := by
    rw [hlines] at hlength ⊢
    exact flatMap_eq_map hwritten hlength
  have hread : List.Forall₂
      (fun item read => parseLine format (item.unescaped format) = some read)
      written items := by
    rwa [hmap, List.forall₂_map_left_iff] at hall
  have heq := eq_of_samplesOf hwritten hread hsamples
  refine ⟨heq, fun item hitem => ?_⟩
  rw [heq, List.forall₂_same] at hread
  exact (hwritten item hitem).plain_of_parsed (hread item hitem)

theorem not_mem_of_isName {allowed : Char → Bool} {name : Text}
    (hname : isName allowed name = true) (hfeed : allowed '\n' = false) :
    '\n' ∉ name := by
  intro hmem
  rw [(isName_iff.mp hname).1 '\n' hmem] at hfeed
  cases hfeed

theorem not_mem_labelsText (hnames : ∀ label ∈ labels, IsLabelName label.1)
    (hplain : PlainLabels labels) : '\n' ∉ labelsText labels := by
  have hlabel : ∀ label ∈ labels, '\n' ∉ labelText label := by
    intro label hmem hfeed
    have hname : '\n' ∉ label.1 := not_mem_of_isName (hnames label hmem) rfl
    have hvalue : '\n' ∉ label.2 := fun hchar =>
      absurd (hplain label hmem '\n' hchar) (by decide)
    simp [labelText, hname, hvalue] at hfeed
  induction labels with
  | nil => exact List.not_mem_nil
  | cons first labels ih =>
      obtain ⟨hfirst, hrest⟩ := List.forall_mem_cons.mp hlabel
      cases labels with
      | nil => rwa [labelsText_singleton]
      | cons second others =>
          have hothers := ih (List.forall_mem_cons.mp hnames).2
            (List.forall_mem_cons.mp hplain).2 hrest
          rw [labelsText_cons_cons]
          simp [hfirst, hothers]

theorem Item.Plain.not_mem (hplain : item.Plain) (hitem : item.Valid) :
    '\n' ∉ item.unescaped format := by
  cases item with
  | type name kind =>
      have hname : '\n' ∉ name := not_mem_of_isName hitem rfl
      have hmark : '\n' ∉ typeMark := by decide +kernel
      have hkind : '\n' ∉ kind.text := by
        cases kind with
        | counter => decide +kernel
        | gauge => decide +kernel
        | summary => decide +kernel
      simp [Item.unescaped, typeText, hmark, hname, hkind]
  | sample taken =>
      have hname : '\n' ∉ taken.name := not_mem_of_isName hitem.1 rfl
      have hlabels := not_mem_labelsText hitem.2 hplain
      have hbraces : '\n' ∉ braces taken.labels := by
        unfold braces
        split
        · exact List.not_mem_nil
        · simp [hlabels]
      have hnumber : '\n' ∉ format.text taken.value := fun hmem =>
        (format.plain taken.value '\n' hmem).2 rfl
      simp [Item.unescaped, sampleText, hname, hbraces, hnumber]

/-- A body in which nothing needs to be escaped is read as it was written. -/
theorem parse_unescaped (hwritten : ∀ item ∈ written, item.Valid)
    (hlines : contentLines text =
      written.flatMap fun item => contentLines (item.unescaped format))
    (hplain : ∀ item ∈ written, item.Plain) :
    parse format text = some written := by
  have hmap : contentLines text =
      written.map fun item => item.unescaped format := by
    rw [hlines, List.map_eq_flatMap]
    refine List.flatMap_congr fun item hitem => ?_
    have hone := (hwritten item hitem).bordered format
    refine contentLines_of_not_mem
      ((hplain item hitem).not_mem (hwritten item hitem)) ?_
    obtain ⟨⟨first, hfirst, -⟩, -⟩ := hone
    exact List.ne_nil_of_mem (List.mem_of_mem_head? hfirst)
  rw [parse, mapM_eq_some_iff, hmap, List.forall₂_map_left_iff,
    List.forall₂_same]
  exact fun item hitem =>
    (hplain item hitem).parsed (hwritten item hitem)

end Bodies

end TsCommons.Foundations.Exposition
