import TsCommons.Foundations.JsonRoundTrip

/-!
# The format of server-sent events

An event is written as one line for each of its fields and a blank line.  The
values of `id` and `event` are written as they are, so the lines are those of
the fields, and are read back as the event, as long as these values hold no
line ends and have no white space at their ends.
-/

namespace TsCommons.Web

open Foundations

structure SseEvent (N : Type) where
  id : Option Text
  event : Option Text
  data : Json N
  retry : Option N

/-- `Partial<SseEvent>`. -/
structure PartialEvent (N : Type) where
  id : Option Text
  event : Option Text
  data : Option (Json N)
  retry : Option N

/-- `Object.keys(result).length` is 0. -/
def PartialEvent.isEmpty {N : Type} (result : PartialEvent N) : Bool :=
  result.id.isNone && result.event.isNone && result.data.isNone &&
    result.retry.isNone

namespace SseFormatter

variable {N : Type} (numbers : Json.NumberFormat N)

def idField : Text := ['i', 'd']

def eventField : Text := ['e', 'v', 'e', 'n', 't']

def dataField : Text := ['d', 'a', 't', 'a']

def retryField : Text := ['r', 'e', 't', 'r', 'y']

def fieldLine (field value : Text) : Text := field ++ ':' :: ' ' :: value

def lines (event : SseEvent N) : List Text :=
  (event.id.map (fieldLine idField)).toList ++
    (event.event.map (fieldLine eventField)).toList ++
    [fieldLine dataField (Json.stringify numbers event.data)] ++
    (event.retry.map fun retry =>
      fieldLine retryField (numbers.text retry)).toList

def format (event : SseEvent N) : Text :=
  Text.joinLines (lines numbers event) ++ ['\n', '\n']

def formatComment (comment : Text) : Text :=
  ':' :: ' ' :: (comment ++ ['\n', '\n'])

def parseJson (value : Text) : Json N :=
  (Json.parse numbers value).getD (.string value)

def readField (result : PartialEvent N) (field value : Text) :
    PartialEvent N :=
  if field = dataField then
    { result with data := some (parseJson numbers value) }
  else if field = idField then { result with id := some value }
  else if field = eventField then { result with event := some value }
  else if field = retryField then
    match numbers.number value with
    | some retry => { result with retry := some retry }
    | none => result
  else result

def readLine (result : PartialEvent N) (line : Text) : PartialEvent N :=
  if line.head? = some ':' then result
  else if ':' ∈ line then
    let colonIdx := line.idxOf ':'
    readField numbers result (Text.trim (line.take colonIdx))
      (Text.trim (line.drop (colonIdx + 1)))
  else result

def parse (raw : Text) : Option (PartialEvent N) :=
  let lines := (raw.splitOn '\n').filter fun line => Text.trim line ≠ []
  let result := lines.foldl (readLine numbers) ⟨none, none, none, none⟩
  if result.isEmpty then none else some result

end SseFormatter

def SseEvent.toPartial {N : Type} (event : SseEvent N) : PartialEvent N :=
  ⟨event.id, event.event, some event.data, event.retry⟩

/-- The lines of the block are those of the fields and a blank one, no other
line is blank, and the block is read as the event. -/
structure WireLaw {N : Type} (numbers : Json.NumberFormat N)
    (event : SseEvent N) : Prop where
  lines : Text.wireLines (SseFormatter.format numbers event) =
    SseFormatter.lines numbers event ++ [[]]
  blank : ∀ line ∈ (Text.wireLines
    (SseFormatter.format numbers event)).dropLast, line ≠ []
  roundTrip : SseFormatter.parse numbers (SseFormatter.format numbers event) =
    some event.toPartial

/-- A value stays within its line, and is not changed by trimming. -/
def StaysInLine (value : Text) : Prop :=
  Text.NoLineEnd value ∧ Text.Trimmed value

instance StaysInLine.decidable (value : Text) :
    Decidable (StaysInLine value) :=
  inferInstanceAs (Decidable (Text.NoLineEnd value ∧ Text.Trimmed value))

variable {N : Type} {numbers : Json.NumberFormat N} {event : SseEvent N}

namespace SseFormatter

/-! ## The lines of a block -/

theorem format_eq_joinLines (event : SseEvent N) :
    format numbers event =
      Text.joinLines (lines numbers event ++ [[]] ++ [[]]) := by
  have hlines : lines numbers event ≠ [] := by simp [lines]
  rw [Text.joinLines_concat_nil (by simp), Text.joinLines_concat_nil hlines,
    List.append_assoc]
  rfl

theorem mem_lines {line : Text} (hline : line ∈ lines numbers event) :
    (∃ id ∈ event.id, line = fieldLine idField id) ∨
      (∃ name ∈ event.event, line = fieldLine eventField name) ∨
      line = fieldLine dataField (Json.stringify numbers event.data) ∨
      ∃ retry ∈ event.retry,
        line = fieldLine retryField (numbers.text retry) := by
  simp only [lines, List.mem_append, Option.mem_toList,
    Option.map_eq_some_iff, List.mem_singleton] at hline
  rcases hline with ((⟨id, hid, rfl⟩ | ⟨name, hname, rfl⟩) | rfl) |
    ⟨retry, hretry, rfl⟩
  · exact .inl ⟨id, hid, rfl⟩
  · exact .inr (.inl ⟨name, hname, rfl⟩)
  · exact .inr (.inr (.inl rfl))
  · exact .inr (.inr (.inr ⟨retry, hretry, rfl⟩))

theorem noLineEnd_fieldLine {field value : Text}
    (hfield : Text.NoLineEnd field) :
    Text.NoLineEnd (fieldLine field value) ↔ Text.NoLineEnd value := by
  obtain ⟨hfeed, hreturn⟩ := hfield
  simp [Text.NoLineEnd, fieldLine, hfeed, hreturn]

theorem noLineEnd_of_mem_lines
    (hretry : ∀ retry ∈ event.retry, numbers.finite retry = true)
    (hid : ∀ id ∈ event.id, Text.NoLineEnd id)
    (hevent : ∀ name ∈ event.event, Text.NoLineEnd name) {line : Text}
    (hline : line ∈ lines numbers event) : Text.NoLineEnd line := by
  rcases mem_lines hline with ⟨id, hmem, rfl⟩ | ⟨name, hmem, rfl⟩ | rfl |
    ⟨retry, hmem, rfl⟩
  · exact (noLineEnd_fieldLine (by decide)).mpr (hid id hmem)
  · exact (noLineEnd_fieldLine (by decide)).mpr (hevent name hmem)
  · exact (noLineEnd_fieldLine (by decide)).mpr
      (Json.printable_stringify event.data).noLineEnd
  · exact (noLineEnd_fieldLine (by decide)).mpr
      (Json.printable_text (hretry retry hmem)).noLineEnd

theorem ne_nil_of_mem_lines {line : Text}
    (hline : line ∈ lines numbers event) : line ≠ [] := by
  rintro rfl
  rcases mem_lines hline with ⟨id, -, heq⟩ | ⟨name, -, heq⟩ | heq |
    ⟨retry, -, heq⟩
  all_goals simp [fieldLine] at heq

/-! ## What is read from them -/

theorem trim_ne_nil {first : Char} {rest : Text}
    (hfirst : Text.isWhiteSpace first = false) :
    Text.trim (first :: rest) ≠ [] := by
  rw [Text.trim, List.dropWhile_cons_of_neg (by simp [hfirst]), ne_eq,
    List.rdropWhile_eq_nil_iff]
  intro hall
  have hspace := hall first List.mem_cons_self
  rw [hfirst] at hspace
  cases hspace

theorem trim_line_ne_nil {line : Text}
    (hline : line ∈ lines numbers event) : Text.trim line ≠ [] := by
  rcases mem_lines hline with ⟨id, -, rfl⟩ | ⟨name, -, rfl⟩ | rfl |
    ⟨retry, -, rfl⟩
  all_goals exact trim_ne_nil (by decide)

theorem readLine_fieldLine {result : PartialEvent N} {field value : Text}
    (hcolon : ':' ∉ field) (hne : field ≠ [])
    (htrimmed : Text.Trimmed field) :
    readLine numbers result (fieldLine field value) =
      readField numbers result field (Text.trim value) := by
  have hhead : (fieldLine field value).head? ≠ some ':' := by
    intro hhead
    cases field with
    | nil => exact hne rfl
    | cons first rest =>
        rw [fieldLine, List.cons_append, List.head?_cons,
          Option.some.injEq] at hhead
        rw [hhead] at hcolon
        exact hcolon List.mem_cons_self
  have hidx : (fieldLine field value).idxOf ':' = field.length := by
    rw [fieldLine, List.idxOf_append_of_notMem hcolon, List.idxOf_cons_self]
    rfl
  have hmem : ':' ∈ fieldLine field value := by simp [fieldLine]
  have htake : (fieldLine field value).take field.length = field := by
    simp [fieldLine]
  have hdrop : (fieldLine field value).drop (field.length + 1) =
      ' ' :: value := by
    simp [fieldLine, List.drop_append]
  rw [readLine, if_neg hhead, if_pos hmem]
  simp only [hidx, htake, hdrop]
  rw [htrimmed, Text.trim_cons_of_isWhiteSpace (by decide)]

theorem readLine_data (result : PartialEvent N) {data : Json N}
    (hdata : Json.WellFormed numbers data) :
    readLine numbers result
        (fieldLine dataField (Json.stringify numbers data)) =
      { result with data := some data } := by
  rw [readLine_fieldLine (by decide) (by decide) (by decide),
    Json.trimmed_stringify, readField, if_pos rfl, parseJson,
    Json.parse_stringify hdata]
  rfl

theorem readLine_id (numbers : Json.NumberFormat N) (result : PartialEvent N)
    (id : Text) :
    readLine numbers result (fieldLine idField id) =
      { result with id := some (Text.trim id) } := by
  rw [readLine_fieldLine (by decide) (by decide) (by decide), readField,
    if_neg (by decide), if_pos rfl]

theorem readLine_event (numbers : Json.NumberFormat N)
    (result : PartialEvent N) (name : Text) :
    readLine numbers result (fieldLine eventField name) =
      { result with event := some (Text.trim name) } := by
  rw [readLine_fieldLine (by decide) (by decide) (by decide), readField,
    if_neg (by decide), if_neg (by decide), if_pos rfl]

theorem trimmed_text {retry : N} (hfinite : numbers.finite retry = true) :
    Text.Trimmed (numbers.text retry) := by
  apply Text.trimmed_of_forall
  intro char hchar
  exact Json.isWhiteSpace_of_isNumberChar
    (Json.isNumberChar_of_text hfinite hchar)

theorem readLine_retry (result : PartialEvent N) {retry : N}
    (hfinite : numbers.finite retry = true) :
    readLine numbers result (fieldLine retryField (numbers.text retry)) =
      { result with retry := some retry } := by
  rw [readLine_fieldLine (by decide) (by decide) (by decide),
    trimmed_text hfinite, readField, if_neg (by decide), if_neg (by decide),
    if_neg (by decide), if_pos rfl, numbers.number_text retry hfinite]

theorem foldl_id (result : PartialEvent N) (id : Option Text)
    (hnone : result.id = none) :
    (id.map (fieldLine idField)).toList.foldl (readLine numbers) result =
      { result with id := id.map Text.trim } := by
  obtain ⟨_, _, _, _⟩ := result
  subst hnone
  cases id with
  | none => rfl
  | some id => exact readLine_id numbers _ id

theorem foldl_event (result : PartialEvent N) (name : Option Text)
    (hnone : result.event = none) :
    (name.map (fieldLine eventField)).toList.foldl (readLine numbers) result =
      { result with event := name.map Text.trim } := by
  obtain ⟨_, _, _, _⟩ := result
  subst hnone
  cases name with
  | none => rfl
  | some name => exact readLine_event numbers _ name

theorem foldl_retry {retry : Option N}
    (hfinite : ∀ value ∈ retry, numbers.finite value = true)
    (result : PartialEvent N) (hnone : result.retry = none) :
    (retry.map fun value =>
        fieldLine retryField (numbers.text value)).toList.foldl
          (readLine numbers) result =
      { result with retry := retry } := by
  obtain ⟨_, _, _, _⟩ := result
  subst hnone
  cases retry with
  | none => rfl
  | some value => exact readLine_retry _ (hfinite value rfl)

theorem map_trim_of_trimmed {value : Option Text}
    (htrimmed : ∀ text ∈ value, Text.Trimmed text) :
    value.map Text.trim = value := by
  cases value with
  | none => rfl
  | some text => exact congrArg some (htrimmed text rfl)

/-- If no value breaks its line, what is read is the event with the values of
`id` and `event` trimmed. -/
theorem parse_format (hdata : Json.WellFormed numbers event.data)
    (hretry : ∀ retry ∈ event.retry, numbers.finite retry = true)
    (hlines : ∀ line ∈ lines numbers event, '\n' ∉ line) :
    parse numbers (format numbers event) =
      some ⟨event.id.map Text.trim, event.event.map Text.trim,
        some event.data, event.retry⟩ := by
  have hsplit : (format numbers event).splitOn '\n' =
      lines numbers event ++ [[]] ++ [[]] := by
    rw [format_eq_joinLines, Text.joinLines, List.splitOn_intercalate]
    · simpa [or_imp, forall_and] using hlines
    · simp
  have hfilter : (lines numbers event ++ [[]] ++ [[]]).filter
      (fun line => Text.trim line ≠ []) = lines numbers event := by
    rw [List.filter_append, List.filter_append, List.filter_eq_self.mpr
      fun line hline => decide_eq_true (trim_line_ne_nil hline)]
    simp [Text.trim]
  have hfold : (lines numbers event).foldl (readLine numbers)
      ⟨none, none, none, none⟩ =
        ⟨event.id.map Text.trim, event.event.map Text.trim,
          some event.data, event.retry⟩ := by
    rw [lines, List.foldl_append, List.foldl_append, List.foldl_append,
      foldl_id _ _ rfl, foldl_event _ _ rfl, List.foldl_cons, List.foldl_nil,
      readLine_data _ hdata, foldl_retry hretry _ rfl]
  simp only [parse, hsplit, hfilter, hfold]
  simp [PartialEvent.isEmpty]

end SseFormatter

open SseFormatter in
/-- The wire law holds of an event if and only if its `id` and its `event`
type stay within their lines. -/
theorem wireLaw_iff_staysInLine
    (hdata : Json.WellFormed numbers event.data)
    (hretry : ∀ retry ∈ event.retry, numbers.finite retry = true) :
    WireLaw numbers event ↔
      (∀ id ∈ event.id, StaysInLine id) ∧
        ∀ name ∈ event.event, StaysInLine name := by
  constructor
  · intro hlaw
    have hclean : ∀ line ∈ lines numbers event, Text.NoLineEnd line := by
      intro line hline
      apply Text.noLineEnd_of_mem_wireLines
      rw [hlaw.lines]
      exact List.mem_append_left _ hline
    have hparse := parse_format hdata hretry fun line hline =>
      (hclean line hline).1
    rw [hlaw.roundTrip, Option.some.injEq, SseEvent.toPartial,
      PartialEvent.mk.injEq] at hparse
    obtain ⟨hid, hname, -⟩ := hparse
    constructor
    · intro id hmem
      have hline : fieldLine idField id ∈ lines numbers event := by
        simp [lines, Option.mem_def.mp hmem]
      refine ⟨(noLineEnd_fieldLine (by decide)).mp (hclean _ hline), ?_⟩
      rw [Option.mem_def.mp hmem, Option.map_some, Option.some.injEq] at hid
      exact hid.symm
    · intro name hmem
      have hline : fieldLine eventField name ∈ lines numbers event := by
        simp [lines, Option.mem_def.mp hmem]
      refine ⟨(noLineEnd_fieldLine (by decide)).mp (hclean _ hline), ?_⟩
      rw [Option.mem_def.mp hmem, Option.map_some, Option.some.injEq] at hname
      exact hname.symm
  · rintro ⟨hid, hname⟩
    have hclean : ∀ line ∈ lines numbers event, Text.NoLineEnd line :=
      fun line hline => noLineEnd_of_mem_lines hretry
        (fun id hmem => (hid id hmem).1) (fun name hmem => (hname name hmem).1)
        hline
    have hwire : Text.wireLines (format numbers event) =
        lines numbers event ++ [[]] := by
      rw [format_eq_joinLines, Text.wireLines_joinLines]
      intro line hline
      rcases List.mem_append.mp hline with hfield | hblank
      · exact hclean line hfield
      · rw [List.mem_singleton.mp hblank]
        exact ⟨List.not_mem_nil, List.not_mem_nil⟩
    refine ⟨hwire, ?_, ?_⟩
    · rw [hwire, List.dropLast_concat]
      exact fun line hline => ne_nil_of_mem_lines hline
    · rw [parse_format hdata hretry fun line hline => (hclean line hline).1,
        SseEvent.toPartial, map_trim_of_trimmed fun id hmem => (hid id hmem).2,
        map_trim_of_trimmed fun name hmem => (hname name hmem).2]

/-- An event whose data holds a line end. -/
def updated : SseEvent ℕ where
  id := some ['7']
  event := some ['u', 'p', 'd', 'a', 't', 'e', 'd']
  data := .object [(['n'], .array [.number 12, .string ['a', '\n']])]
  retry := some 3000

/-- An event whose type holds a blank line and a field. -/
def splitting : SseEvent ℕ where
  id := some ['1']
  event := some ['a', '\n', '\n', 'i', 'd', ':', '2']
  data := .null
  retry := none

theorem wireLaw_iff_staysInLine_samples :
    WireLaw Json.decimal updated ∧ ¬ WireLaw Json.decimal splitting := by
  constructor
  · apply (wireLaw_iff_staysInLine ?_ ?_).mpr
    · decide
    · simp [updated, Json.WellFormed, Json.WellFormedFields,
        Json.WellFormedItems, Json.decimal]
    · exact fun _ _ => rfl
  · rw [wireLaw_iff_staysInLine ?_ ?_]
    · decide
    · simp [splitting, Json.WellFormed]
    · exact fun _ _ => rfl

/-- The type of the event ends its block and, for the parser, sets its id. -/
theorem not_wireLaw_splitting :
    Text.wireLines (SseFormatter.format Json.decimal splitting) =
        [['i', 'd', ':', ' ', '1'],
          ['e', 'v', 'e', 'n', 't', ':', ' ', 'a'], [], ['i', 'd', ':', '2'],
          ['d', 'a', 't', 'a', ':', ' ', 'n', 'u', 'l', 'l'], []] ∧
      (SseFormatter.parse Json.decimal
        (SseFormatter.format Json.decimal splitting)).map PartialEvent.id =
          some (some ['2']) ∧
      ¬ WireLaw Json.decimal splitting := by
  have hid : (SseFormatter.parse Json.decimal
      (SseFormatter.format Json.decimal splitting)).map PartialEvent.id =
        some (some ['2']) := by
    decide +kernel
  refine ⟨by decide +kernel, hid, fun hlaw => ?_⟩
  rw [hlaw.roundTrip] at hid
  exact absurd hid (by decide)

end TsCommons.Web
