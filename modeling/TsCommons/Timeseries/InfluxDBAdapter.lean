import TsCommons.Timeseries.Types
import TsCommons.Foundations.JsonRoundTrip
import Mathlib.Data.Set.Basic

/-!
# Writing points in the line protocol

Nothing is escaped in a line, so whether lines can be told apart depends on
the characters that names and values are made of.
-/

namespace TsCommons.Timeseries

open Foundations

/-- `String(v)` for numbers. -/
structure NumberText (ν : Type) where
  text : ν → Text
  injective : Function.Injective text
  plain : ∀ value, ∀ char ∈ text value, char ∉ [',', '=', ' ', '\n', '"']
  not_boolean : ∀ value,
    text value ≠ "true".toList ∧ text value ≠ "false".toList

variable {ν : Type}

def fieldText (format : NumberText ν) : FieldValue ν → Text
  | .string text => '"' :: (text ++ ['"'])
  | .number value => format.text value
  | .boolean true => "true".toList
  | .boolean false => "false".toList

/-- `k=v` for a field. -/
def fieldEntry (format : NumberText ν) (entry : Text × FieldValue ν) : Text :=
  entry.1 ++ '=' :: fieldText format entry.2

/-- `k=v` for a tag. -/
def tagEntry (entry : Text × Text) : Text := entry.1 ++ '=' :: entry.2

def buildTagString : Option (InsertionMap Text Text) → Text
  | none => []
  | some tags => [','].intercalate (tags.entries.map tagEntry)

def toLineProtocol (format : NumberText ν) (point : DataPoint ν) : Text :=
  let tagStr := buildTagString point.tags
  let head := if 0 < tagStr.length then point.measurement ++ ',' :: tagStr
    else point.measurement
  let fieldStr :=
    [','].intercalate (point.fields.entries.map (fieldEntry format))
  head ++ ' ' :: (fieldStr ++ ' ' :: format.text point.timestamp)

def writeHeader (org bucket : Text) : Text :=
  "WRITE org=".toList ++ org ++ " bucket=".toList ++ bucket

/-- The text that is executed, if any, and the number that is returned. -/
def write (format : NumberText ν) (org bucket : Text)
    (points : List (DataPoint ν)) : Option Text × ℕ :=
  if points.length = 0 then (none, 0)
  else
    let lines := ['\n'].intercalate (points.map (toLineProtocol format))
    (some (writeHeader org bucket ++ '\n' :: lines), points.length)

/-! ## What should be told apart -/

/-- What is stored of a point; no tags are an empty map of tags. -/
structure Content (ν : Type) where
  timestamp : ν
  measurement : Text
  tags : InsertionMap Text Text
  fields : InsertionMap Text (FieldValue ν)

def DataPoint.content (point : DataPoint ν) : Content ν where
  timestamp := point.timestamp
  measurement := point.measurement
  tags := point.tags.getD .empty
  fields := point.fields

/-- Some characters, all of them in the set. -/
def Over (chars : Set Char) (text : Text) : Prop :=
  text ≠ [] ∧ ∀ char ∈ text, char ∈ chars

/-- Names and the values of tags are made of some characters, and the strings
in fields of others. -/
structure PointOver (names strings : Set Char) (point : DataPoint ν) :
    Prop where
  measurement : Over names point.measurement
  tags : ∀ entry ∈ (point.tags.getD .empty).entries,
    Over names entry.1 ∧ Over names entry.2
  keys : ∀ entry ∈ point.fields.entries, Over names entry.1
  strings : ∀ entry ∈ point.fields.entries, ∀ text,
    entry.2 = .string text → Over strings text

/-- Each point has one line, and different points have different texts. -/
structure Unambiguous (format : NumberText ν) (org bucket : Text)
    (names strings : Set Char) : Prop where
  lines : ∀ points : List (DataPoint ν),
    (∀ point ∈ points, PointOver names strings point) →
      ∀ text, (write format org bucket points).1 = some text →
        (text.splitOn '\n').length =
          ((writeHeader org bucket).splitOn '\n').length + points.length
  injective : ∀ points others : List (DataPoint ν),
    (∀ point ∈ points, PointOver names strings point) →
      (∀ point ∈ others, PointOver names strings point) →
        (write format org bucket points).1 =
          (write format org bucket others).1 →
            points.map DataPoint.content = others.map DataPoint.content

/-- Names have no character with a meaning of its own, strings have no line
feed, and no string can hold the end of a string and a key after it. -/
structure Separable (names strings : Set Char) : Prop where
  inNames : ∀ char ∈ [',', '=', ' ', '\n'], char ∉ names
  feed : '\n' ∉ strings
  inStrings : (∀ char ∈ [',', '=', '"'], char ∈ strings) →
    ∀ char ∈ names, char ∉ strings

/-! ## Fields -/

variable {format : NumberText ν} {names strings : Set Char}
  {entries others : List (Text × FieldValue ν)}

/-- The fields, each after a comma. -/
def afterComma (format : NumberText ν) : List (Text × FieldValue ν) → Text
  | [] => []
  | entry :: rest =>
      ',' :: (entry.1 ++ '=' :: (fieldText format entry.2 ++
        afterComma format rest))

/-- Keys and strings of the fields are made of the characters. -/
def FieldsOver (names strings : Set Char)
    (entries : List (Text × FieldValue ν)) : Prop :=
  ∀ entry ∈ entries, Over names entry.1 ∧
    ∀ text, entry.2 = .string text → Over strings text

theorem Separable.not_mem (hseparable : Separable names strings) {char : Char}
    (hchar : char ∈ [',', '=', ' ', '\n']) {text : Text}
    (htext : Over names text) : char ∉ text :=
  fun hmem => hseparable.inNames char hchar (htext.2 char hmem)

theorem comma_cons_intercalate (entry : Text × FieldValue ν) :
    ',' :: [','].intercalate ((entry :: entries).map (fieldEntry format)) =
      afterComma format (entry :: entries) := by
  induction entries generalizing entry with
  | nil => simp [afterComma, fieldEntry]
  | cons second entries ih =>
      rw [afterComma, ← ih second, List.map_cons, List.map_cons,
        List.intercalate_cons_cons, List.append_assoc, fieldEntry,
        List.append_assoc]
      rfl

/-- A quote in a string is taken for its end only if the string goes on with a
comma, a key and an equals sign. -/
theorem not_longer (hseparable : Separable names strings)
    (hentries : FieldsOver names strings entries)
    (hothers : FieldsOver names strings others) {text : Text}
    (htext : ∀ char ∈ '"' :: text, char ∈ strings) :
    afterComma format entries ≠ text ++ '"' :: afterComma format others := by
  intro heq
  cases entries with
  | nil => simp [afterComma] at heq
  | cons entry rest =>
      obtain ⟨hkey, -⟩ := hentries entry List.mem_cons_self
      rw [afterComma] at heq
      cases text with
      | nil => exact absurd (List.cons.inj heq).1 (by decide)
      | cons comma text =>
          obtain ⟨hcomma, hrest⟩ := List.cons.inj heq
          subst hcomma
          rcases List.append_eq_append_iff.mp hrest with
            ⟨middle, hsplit, hmiddle⟩ | ⟨middle, hsplit, hmiddle⟩
          · cases middle with
            | nil => exact absurd (List.cons.inj hmiddle).1 (by decide)
            | cons equals middle =>
                rw [← (List.cons.inj hmiddle).1] at hsplit
                subst hsplit
                obtain ⟨char, tail, hcons⟩ :=
                  List.exists_cons_of_ne_nil hkey.1
                have hchar : char ∈ entry.1 := by
                  rw [hcons]
                  exact List.mem_cons_self
                refine hseparable.inStrings ?_ char (hkey.2 char hchar)
                  (htext char (by simp [hchar]))
                intro special hspecial
                apply htext
                simp only [List.mem_cons, List.not_mem_nil, or_false]
                  at hspecial
                rcases hspecial with rfl | rfl | rfl
                · simp
                · simp
                · simp
          · cases middle with
            | nil => exact absurd (List.cons.inj hmiddle).1 (by decide)
            | cons quote middle =>
                have htail := (List.cons.inj hmiddle).2
                cases others with
                | nil => simp [afterComma] at htail
                | cons other others =>
                    rw [afterComma] at htail
                    cases middle with
                    | nil =>
                        exact absurd (List.cons.inj htail).1 (by decide)
                    | cons char middle =>
                        have hchar := (List.cons.inj htail).1
                        have hcomma : ',' ∉ entry.1 :=
                          hseparable.not_mem (by simp) hkey
                        rw [hsplit, ← hchar] at hcomma
                        exact hcomma (by simp)

/-- The text of a number or a boolean. -/
theorem not_mem_fieldText {value : FieldValue ν} {char : Char}
    (hchar : char ∈ [',', '=', ' ', '\n', '"'])
    (hvalue : ∀ text, value ≠ .string text) :
    char ∉ fieldText format value := by
  intro hmem
  cases value with
  | number value => exact format.plain value char hmem hchar
  | string text => exact hvalue text rfl
  | boolean value =>
      have htrue : ∀ char ∈ [',', '=', ' ', '\n', '"'],
          char ∉ "true".toList :=
        Text.forall_mem_of_all (by decide +kernel)
      have hfalse : ∀ char ∈ [',', '=', ' ', '\n', '"'],
          char ∉ "false".toList :=
        Text.forall_mem_of_all (by decide +kernel)
      cases value with
      | true => exact htrue char hchar hmem
      | false => exact hfalse char hchar hmem

theorem fieldText_injective {value other : FieldValue ν}
    (hvalue : ∀ text, value ≠ .string text)
    (hother : ∀ text, other ≠ .string text)
    (heq : fieldText format value = fieldText format other) :
    value = other := by
  cases value with
  | string text => exact absurd rfl (hvalue text)
  | number value =>
      cases other with
      | string text => exact absurd rfl (hother text)
      | number other => rw [format.injective heq]
      | boolean other =>
          cases other with
          | true => exact absurd heq (format.not_boolean value).1
          | false => exact absurd heq (format.not_boolean value).2
  | boolean value =>
      cases other with
      | string text => exact absurd rfl (hother text)
      | number other =>
          cases value with
          | true => exact absurd heq.symm (format.not_boolean other).1
          | false => exact absurd heq.symm (format.not_boolean other).2
      | boolean other =>
          have hne : "true".toList ≠ "false".toList := by decide +kernel
          cases value with
          | true =>
              cases other with
              | true => rfl
              | false => exact absurd heq hne
          | false =>
              cases other with
              | true => exact absurd heq hne.symm
              | false => rfl

theorem afterComma_cases (format : NumberText ν)
    (entries : List (Text × FieldValue ν)) :
    afterComma format entries = [] ∨
      ∃ rest, afterComma format entries = ',' :: rest := by
  cases entries with
  | nil => exact Or.inl rfl
  | cons entry rest => exact Or.inr ⟨_, rfl⟩

/-- A value without commas ends where the next field starts. -/
theorem eq_of_no_comma {text other : Text} (htext : ',' ∉ text)
    (hother : ',' ∉ other)
    (heq : text ++ afterComma format entries =
      other ++ afterComma format others) :
    text = other ∧
      afterComma format entries = afterComma format others := by
  rcases afterComma_cases format entries with hnil | ⟨rest, hrest⟩
  · rcases afterComma_cases format others with
      hnil' | ⟨rest', hrest'⟩
    · rw [hnil, hnil', List.append_nil, List.append_nil] at heq
      exact ⟨heq, hnil.trans hnil'.symm⟩
    · rw [hnil, hrest', List.append_nil] at heq
      exact absurd (by simp) (heq ▸ htext)
  · rcases afterComma_cases format others with
      hnil' | ⟨rest', hrest'⟩
    · rw [hrest, hnil', List.append_nil] at heq
      exact absurd (by simp) (heq.symm ▸ hother)
    · rw [hrest, hrest'] at heq ⊢
      obtain ⟨hsame, hlast⟩ := Text.append_cons_inj_left htext hother heq
      exact ⟨hsame, congrArg (',' :: ·) hlast⟩

/-- A string that ends at a quote does not go on after it. -/
theorem eq_nil_of_quoted (hseparable : Separable names strings)
    (hentries : FieldsOver names strings entries)
    (hothers : FieldsOver names strings others) {rest : Text}
    (hrest : ∀ char ∈ rest, char ∈ strings)
    (heq : '"' :: afterComma format entries =
      rest ++ '"' :: afterComma format others) : rest = [] := by
  cases rest with
  | nil => rfl
  | cons quote rest =>
      obtain ⟨hquote, htail⟩ := List.cons.inj heq
      rw [← hquote] at hrest
      exact absurd htail (not_longer hseparable hentries hothers hrest)

/-- Two strings end at the same quote. -/
theorem eq_of_quoted (hseparable : Separable names strings)
    (hentries : FieldsOver names strings entries)
    (hothers : FieldsOver names strings others) {text other : Text}
    (htext : ∀ char ∈ text, char ∈ strings)
    (hother : ∀ char ∈ other, char ∈ strings)
    (heq : text ++ '"' :: afterComma format entries =
      other ++ '"' :: afterComma format others) :
    text = other ∧
      afterComma format entries = afterComma format others := by
  have hsame : text = other := by
    rcases List.append_eq_append_iff.mp heq with
      ⟨rest, rfl, hrest⟩ | ⟨rest, rfl, hrest⟩
    · have hnil := eq_nil_of_quoted hseparable hentries hothers
        (fun char hchar => hother char (List.mem_append_right text hchar))
        hrest
      rw [hnil, List.append_nil]
    · have hnil := eq_nil_of_quoted hseparable hothers hentries
        (fun char hchar => htext char (List.mem_append_right other hchar))
        hrest
      rw [hnil, List.append_nil]
  subst hsame
  exact ⟨rfl, (List.cons.inj (List.append_cancel_left heq)).2⟩

theorem eq_of_fieldText (hseparable : Separable names strings)
    (hentries : FieldsOver names strings entries)
    (hothers : FieldsOver names strings others)
    {value other : FieldValue ν}
    (hvalue : ∀ text, value = .string text → Over strings text)
    (hother : ∀ text, other = .string text → Over strings text)
    (heq : fieldText format value ++ afterComma format entries =
      fieldText format other ++ afterComma format others) :
    value = other ∧
      afterComma format entries = afterComma format others := by
  have hquoted (text : Text) (entries : List (Text × FieldValue ν)) :
      fieldText format (.string text) ++ afterComma format entries =
        '"' :: (text ++ '"' :: afterComma format entries) := by
    simp [fieldText]
  have hhead {value : FieldValue ν} {rest : Text}
      (entries : List (Text × FieldValue ν))
      (hplain : ∀ text, value ≠ .string text) :
      fieldText format value ++ afterComma format entries ≠ '"' :: rest := by
    intro heq
    cases htext : fieldText format value with
    | nil =>
        rw [htext, List.nil_append] at heq
        rcases afterComma_cases format entries with
          hnil | ⟨tail, htail⟩
        · rw [hnil] at heq
          cases heq
        · rw [htail] at heq
          exact absurd (List.cons.inj heq).1 (by decide)
    | cons first tail =>
        rw [htext] at heq
        have hquote : '"' ∉ fieldText format value :=
          not_mem_fieldText (by simp) hplain
        rw [htext, (List.cons.inj heq).1] at hquote
        exact hquote List.mem_cons_self
  by_cases hstring : ∃ text, value = .string text
  · obtain ⟨text, rfl⟩ := hstring
    by_cases hstring' : ∃ text, other = .string text
    · obtain ⟨text', rfl⟩ := hstring'
      rw [hquoted, hquoted] at heq
      obtain ⟨rfl, hrest⟩ := eq_of_quoted hseparable hentries hothers
        (hvalue text rfl).2 (hother text' rfl).2 (List.cons.inj heq).2
      exact ⟨rfl, hrest⟩
    · rw [hquoted] at heq
      exact absurd heq.symm (hhead others (not_exists.mp hstring'))
  · by_cases hstring' : ∃ text, other = .string text
    · obtain ⟨text', rfl⟩ := hstring'
      rw [hquoted] at heq
      exact absurd heq (hhead entries (not_exists.mp hstring))
    · have hplain := not_exists.mp hstring
      have hplain' := not_exists.mp hstring'
      obtain ⟨hsame, hrest⟩ := eq_of_no_comma
        (not_mem_fieldText (by simp) hplain)
        (not_mem_fieldText (by simp) hplain') heq
      exact ⟨fieldText_injective hplain hplain' hsame, hrest⟩

theorem FieldsOver.tail {entry : Text × FieldValue ν}
    (hentries : FieldsOver names strings (entry :: entries)) :
    FieldsOver names strings entries :=
  fun other hother => hentries other (List.mem_cons_of_mem entry hother)

theorem afterComma_injective (hseparable : Separable names strings)
    (hentries : FieldsOver names strings entries)
    (hothers : FieldsOver names strings others)
    (heq : afterComma format entries = afterComma format others) :
    entries = others := by
  induction entries generalizing others with
  | nil =>
      cases others with
      | nil => rfl
      | cons other others => cases heq
  | cons entry entries ih =>
      cases others with
      | nil => cases heq
      | cons other others =>
          obtain ⟨hkey, hvalue⟩ := hentries entry List.mem_cons_self
          obtain ⟨hkey', hvalue'⟩ := hothers other List.mem_cons_self
          rw [afterComma, afterComma] at heq
          obtain ⟨hsame, hrest⟩ := Text.append_cons_inj_left
            (hseparable.not_mem (by simp) hkey)
            (hseparable.not_mem (by simp) hkey') (List.cons.inj heq).2
          obtain ⟨hvalues, htail⟩ := eq_of_fieldText hseparable
            hentries.tail hothers.tail hvalue hvalue' hrest
          rw [Prod.ext hsame hvalues, ih hentries.tail hothers.tail htail]

/-! ## Lines -/

variable {point other : DataPoint ν}

/-- The measurement and the tags, joined by commas. -/
def headParts (point : DataPoint ν) : List Text :=
  point.measurement :: (point.tags.getD .empty).entries.map tagEntry

def fieldString (format : NumberText ν) (point : DataPoint ν) : Text :=
  [','].intercalate (point.fields.entries.map (fieldEntry format))

theorem buildTagString_eq (tags : Option (InsertionMap Text Text)) :
    buildTagString tags =
      [','].intercalate ((tags.getD .empty).entries.map tagEntry) := by
  cases tags with
  | none => rfl
  | some tags => rfl

theorem toLineProtocol_eq (format : NumberText ν) (point : DataPoint ν) :
    toLineProtocol format point =
      [','].intercalate (headParts point) ++ ' ' ::
        (fieldString format point ++ ' ' :: format.text point.timestamp) := by
  have hhead : (if 0 < (buildTagString point.tags).length
      then point.measurement ++ ',' :: buildTagString point.tags
      else point.measurement) = [','].intercalate (headParts point) := by
    rw [buildTagString_eq, headParts]
    cases (point.tags.getD .empty).entries with
    | nil => simp
    | cons entry rest =>
        rw [List.map_cons, List.intercalate_cons_cons]
        have hpos : 0 < ([','].intercalate
            (tagEntry entry :: rest.map tagEntry)).length := by
          cases rest with
          | nil =>
              simp only [tagEntry, List.map_nil, List.intercalate_singleton,
                List.length_append, List.length_cons]
              omega
          | cons second rest =>
              simp only [tagEntry, List.map_cons, List.intercalate_cons_cons,
                List.length_append, List.length_cons]
              omega
        rw [if_pos hpos, List.append_assoc]
        rfl
  rw [← hhead]
  rfl

theorem PointOver.fieldsOver (hpoint : PointOver names strings point) :
    FieldsOver names strings point.fields.entries :=
  fun entry hentry =>
    ⟨hpoint.keys entry hentry, hpoint.strings entry hentry⟩

/-- What is no separator and in no name is not in the measurement or a tag. -/
theorem PointOver.not_mem_headParts (hpoint : PointOver names strings point)
    {char : Char} (hchar : char ∉ names) (hne : char ≠ '=') :
    ∀ part ∈ headParts point, char ∉ part := by
  intro part hpart
  rcases List.mem_cons.mp hpart with rfl | htag
  · exact fun hmem => hchar (hpoint.measurement.2 char hmem)
  · obtain ⟨entry, hentry, rfl⟩ := List.mem_map.mp htag
    obtain ⟨hkey, hvalue⟩ := hpoint.tags entry hentry
    intro hmem
    rcases List.mem_append.mp hmem with hmem | hmem
    · exact hchar (hkey.2 char hmem)
    · rcases List.mem_cons.mp hmem with heq | hmem
      · exact hne heq
      · exact hchar (hvalue.2 char hmem)

theorem PointOver.not_mem_head (hpoint : PointOver names strings point)
    {char : Char} (hchar : char ∉ names) (hequals : char ≠ '=')
    (hcomma : char ≠ ',') : char ∉ [','].intercalate (headParts point) := by
  intro hmem
  rcases Text.mem_intercalate hmem with heq | ⟨part, hpart, hmem⟩
  · exact hcomma heq
  · exact hpoint.not_mem_headParts hchar hequals part hpart hmem

theorem not_mem_text (format : NumberText ν) (value : ν) {char : Char}
    (hchar : char ∈ [',', '=', ' ', '\n', '"']) : char ∉ format.text value :=
  fun hmem => format.plain value char hmem hchar

/-- With names that are separable no line has a line feed. -/
theorem Separable.not_mem_line (hseparable : Separable names strings)
    (hpoint : PointOver names strings point) :
    '\n' ∉ toLineProtocol format point := by
  have hnames : '\n' ∉ names := hseparable.inNames '\n' (by simp)
  have hhead := hpoint.not_mem_head hnames (by decide) (by decide)
  have hfields : '\n' ∉ fieldString format point := by
    intro hmem
    rcases Text.mem_intercalate hmem with heq | ⟨part, hpart, hmem⟩
    · exact absurd heq (by decide)
    · obtain ⟨entry, hentry, rfl⟩ := List.mem_map.mp hpart
      rcases List.mem_append.mp hmem with hmem | hmem
      · exact hnames ((hpoint.keys entry hentry).2 _ hmem)
      · rcases List.mem_cons.mp hmem with heq | hmem
        · exact absurd heq (by decide)
        · by_cases hstring : ∃ text, entry.2 = .string text
          · obtain ⟨text, htext⟩ := hstring
            rw [htext, fieldText] at hmem
            have hnot : '\n' ∉ text := fun hmem => hseparable.feed
              ((hpoint.strings entry hentry text htext).2 _ hmem)
            simp [hnot] at hmem
          · exact not_mem_fieldText (by simp) (not_exists.mp hstring) hmem
  have htime : '\n' ∉ format.text point.timestamp :=
    not_mem_text format point.timestamp (by simp)
  rw [toLineProtocol_eq]
  simp [hhead, hfields, htime]

theorem tagEntry_injective (hseparable : Separable names strings)
    {tags others : List (Text × Text)}
    (htags : ∀ entry ∈ tags, Over names entry.1 ∧ Over names entry.2)
    (hothers : ∀ entry ∈ others, Over names entry.1 ∧ Over names entry.2)
    (heq : tags.map tagEntry = others.map tagEntry) : tags = others := by
  induction tags generalizing others with
  | nil => exact (List.map_eq_nil_iff.mp heq.symm).symm
  | cons entry tags ih =>
      cases others with
      | nil => cases heq
      | cons other others =>
          obtain ⟨hentry, hrest⟩ := List.forall_mem_cons.mp htags
          obtain ⟨hother, hrest'⟩ := List.forall_mem_cons.mp hothers
          obtain ⟨hfirst, hothers⟩ := List.cons.inj heq
          obtain ⟨hkey, hvalue⟩ := Text.append_cons_inj_left
            (hseparable.not_mem (by simp) hentry.1)
            (hseparable.not_mem (by simp) hother.1) hfirst
          rw [Prod.ext hkey hvalue, ih hrest hrest' hothers]

theorem intercalate_fieldEntry_injective (hseparable : Separable names strings)
    (hentries : FieldsOver names strings entries)
    (hothers : FieldsOver names strings others)
    (heq : [','].intercalate (entries.map (fieldEntry format)) =
      [','].intercalate (others.map (fieldEntry format))) :
    entries = others := by
  have hne (entry : Text × FieldValue ν) (rest : List (Text × FieldValue ν)) :
      [','].intercalate ((entry :: rest).map (fieldEntry format)) ≠ [] := by
    intro hnil
    have hcomma : ',' :: [','].intercalate
        ((entry :: rest).map (fieldEntry format)) =
          afterComma format (entry :: rest) := comma_cons_intercalate entry
    rw [hnil] at hcomma
    simp [afterComma] at hcomma
  cases entries with
  | nil =>
      cases others with
      | nil => rfl
      | cons other others => exact absurd heq.symm (hne other others)
  | cons entry entries =>
      cases others with
      | nil => exact absurd heq (hne entry entries)
      | cons other others =>
          have hcommas := congrArg (',' :: ·) heq
          simp only [comma_cons_intercalate] at hcommas
          exact afterComma_injective hseparable hentries hothers hcommas

/-- With names that are separable the line of a point is its own. -/
theorem Separable.line_injective (hseparable : Separable names strings)
    (hpoint : PointOver names strings point)
    (hother : PointOver names strings other)
    (heq : toLineProtocol format point = toLineProtocol format other) :
    point.content = other.content := by
  have hspace : ' ' ∉ names := hseparable.inNames ' ' (by simp)
  have hcomma : ',' ∉ names := hseparable.inNames ',' (by simp)
  rw [toLineProtocol_eq, toLineProtocol_eq] at heq
  obtain ⟨hhead, hrest⟩ := Text.append_cons_inj_left
    (hpoint.not_mem_head hspace (by decide) (by decide))
    (hother.not_mem_head hspace (by decide) (by decide)) heq
  obtain ⟨hfields, htime⟩ := Text.append_cons_inj_right
    (not_mem_text format _ (by simp)) (not_mem_text format _ (by simp)) hrest
  have hparts : headParts point = headParts other := by
    have hsplit := congrArg (List.splitOn ',') hhead
    rwa [List.splitOn_intercalate ','
        (hpoint.not_mem_headParts hcomma (by decide)) (List.cons_ne_nil _ _),
      List.splitOn_intercalate ','
        (hother.not_mem_headParts hcomma (by decide))
        (List.cons_ne_nil _ _)] at hsplit
  obtain ⟨hmeasurement, htags⟩ := List.cons.inj hparts
  simp only [DataPoint.content, Content.mk.injEq]
  exact ⟨format.injective htime, hmeasurement,
    InsertionMap.ext (tagEntry_injective hseparable hpoint.tags hother.tags
      htags), InsertionMap.ext (intercalate_fieldEntry_injective hseparable
        hpoint.fieldsOver hother.fieldsOver hfields)⟩

/-! ## Texts -/

variable {org bucket : Text} {points othersPoints : List (DataPoint ν)}

theorem write_of_ne_nil (format : NumberText ν) (org bucket : Text)
    (hne : points ≠ []) :
    (write format org bucket points).1 =
      some (writeHeader org bucket ++ '\n' ::
        ['\n'].intercalate (points.map (toLineProtocol format))) := by
  have hlength : points.length ≠ 0 := by
    rwa [Ne, List.length_eq_zero_iff]
  simp only [write, if_neg hlength]

theorem Separable.splitOn_lines (hseparable : Separable names strings)
    (hpoints : ∀ point ∈ points, PointOver names strings point)
    (hne : points ≠ []) :
    (['\n'].intercalate (points.map (toLineProtocol format))).splitOn '\n' =
      points.map (toLineProtocol format) := by
  refine List.splitOn_intercalate '\n' ?_ ?_
  · intro line hline
    obtain ⟨point, hpoint, rfl⟩ := List.mem_map.mp hline
    exact hseparable.not_mem_line (hpoints point hpoint)
  · rwa [Ne, List.map_eq_nil_iff]

theorem Separable.map_content (hseparable : Separable names strings)
    {points others : List (DataPoint ν)}
    (hpoints : ∀ point ∈ points, PointOver names strings point)
    (hothers : ∀ point ∈ others, PointOver names strings point)
    (heq : points.map (toLineProtocol format) =
      others.map (toLineProtocol format)) :
    points.map DataPoint.content = others.map DataPoint.content := by
  induction points generalizing others with
  | nil => rw [List.map_eq_nil_iff.mp heq.symm]
  | cons point points ih =>
      cases others with
      | nil => cases heq
      | cons other others =>
          obtain ⟨hpoint, hrest⟩ := List.forall_mem_cons.mp hpoints
          obtain ⟨hother, hrest'⟩ := List.forall_mem_cons.mp hothers
          obtain ⟨hfirst, htail⟩ := List.cons.inj heq
          rw [List.map_cons, List.map_cons,
            hseparable.line_injective hpoint hother hfirst,
            ih hrest hrest' htail]

theorem Separable.unambiguous (hseparable : Separable names strings)
    (format : NumberText ν) (org bucket : Text) :
    Unambiguous format org bucket names strings := by
  constructor
  · intro points hpoints text htext
    by_cases hnil : points = []
    · subst hnil
      cases htext
    · rw [write_of_ne_nil format org bucket hnil, Option.some.injEq] at htext
      rw [← htext, List.splitOn_append_cons_self,
        hseparable.splitOn_lines hpoints hnil, List.length_append,
        List.length_map]
  · intro points others hpoints hothers heq
    by_cases hnil : points = []
    · by_cases hnil' : others = []
      · rw [hnil, hnil']
      · rw [hnil, write_of_ne_nil format org bucket hnil'] at heq
        cases heq
    · by_cases hnil' : others = []
      · rw [hnil', write_of_ne_nil format org bucket hnil] at heq
        cases heq
      · rw [write_of_ne_nil format org bucket hnil,
          write_of_ne_nil format org bucket hnil', Option.some.injEq] at heq
        have hlines := congrArg (List.splitOn '\n')
          (List.cons.inj (List.append_cancel_left heq)).2
        rw [hseparable.splitOn_lines hpoints hnil,
          hseparable.splitOn_lines hothers hnil'] at hlines
        exact hseparable.map_content hpoints hothers hlines

/-! ## What cannot be told apart -/

theorem Unambiguous.content_eq
    (hlaw : Unambiguous format org bucket names strings)
    (hpoint : PointOver names strings point)
    (hother : PointOver names strings other)
    (heq : toLineProtocol format point = toLineProtocol format other) :
    point.content = other.content := by
  have hcontent := hlaw.injective [point] [other]
    (List.forall_mem_singleton.mpr hpoint)
    (List.forall_mem_singleton.mpr hother) (by
      rw [write_of_ne_nil _ _ _ (List.cons_ne_nil _ _),
        write_of_ne_nil _ _ _ (List.cons_ne_nil _ _), List.map_singleton,
        List.map_singleton, heq])
  exact (List.cons.inj hcontent).1

theorem Unambiguous.not_mem_line
    (hlaw : Unambiguous format org bucket names strings)
    (hpoint : PointOver names strings point) :
    '\n' ∉ toLineProtocol format point := by
  intro hfeed
  have hlines := hlaw.lines [point] (List.forall_mem_singleton.mpr hpoint) _
    (write_of_ne_nil format org bucket (List.cons_ne_nil _ _))
  obtain ⟨before, after, hsplit⟩ := List.append_of_mem hfeed
  have hbefore := List.length_pos_iff.mpr (List.splitOn_ne_nil '\n' before)
  have hafter := List.length_pos_iff.mpr (List.splitOn_ne_nil '\n' after)
  rw [List.map_singleton, List.intercalate_singleton,
    List.splitOn_append_cons_self, hsplit, List.splitOn_append_cons_self,
    List.length_append, List.length_append, List.length_singleton] at hlines
  omega

/-- A point with one tag and no fields. -/
def tagged (now : ν) (measurement key value : Text) : DataPoint ν where
  timestamp := now
  measurement := measurement
  tags := some (InsertionMap.empty.set key value)
  fields := .empty

theorem tagged_over {now : ν} {measurement key value : Text}
    (hmeasurement : Over names measurement) (hkey : Over names key)
    (hvalue : Over names value) :
    PointOver names strings (tagged now measurement key value) where
  measurement := hmeasurement
  tags entry hentry := by
    rw [List.mem_singleton.mp hentry]
    exact ⟨hkey, hvalue⟩
  keys := List.forall_mem_nil _
  strings := List.forall_mem_nil _

/-- A point with one field and no tags. -/
def measuredAt (now : ν) (measurement key : Text) (value : FieldValue ν) :
    DataPoint ν where
  timestamp := now
  measurement := measurement
  tags := none
  fields := InsertionMap.empty.set key value

theorem measuredAt_over {now : ν} {measurement key : Text}
    {value : FieldValue ν} (hmeasurement : Over names measurement)
    (hkey : Over names key)
    (hvalue : ∀ text, value = .string text → Over strings text) :
    PointOver names strings (measuredAt now measurement key value) where
  measurement := hmeasurement
  tags := List.forall_mem_nil _
  keys entry hentry := by
    rw [List.mem_singleton.mp hentry]
    exact hkey
  strings entry hentry := by
    rw [List.mem_singleton.mp hentry]
    exact hvalue

theorem over_replicate {chars : Set Char} {char : Char} (hchar : char ∈ chars)
    (n : ℕ) : Over chars (List.replicate (n + 1) char) := by
  refine ⟨List.cons_ne_nil _ _, fun other hother => ?_⟩
  rw [List.eq_of_mem_replicate hother]
  exact hchar

theorem Unambiguous.comma_not_mem (now : ν)
    (hlaw : Unambiguous format org bucket names strings) : ',' ∉ names := by
  intro hmem
  have hone : Over names [','] := over_replicate hmem 0
  have htwo : Over names [',', ','] := over_replicate hmem 1
  have heq : toLineProtocol format (tagged now [','] [',', ','] [',']) =
      toLineProtocol format (tagged now [',', ','] [','] [',']) := rfl
  have hcontent := hlaw.content_eq (tagged_over hone htwo hone)
    (tagged_over htwo hone hone) heq
  have hmeasurement : [','] = [',', ','] :=
    congrArg Content.measurement hcontent
  exact absurd hmeasurement (by decide)

theorem Unambiguous.equals_not_mem (now : ν)
    (hlaw : Unambiguous format org bucket names strings) : '=' ∉ names := by
  intro hmem
  have hone : Over names ['='] := over_replicate hmem 0
  have htwo : Over names ['=', '='] := over_replicate hmem 1
  have heq : toLineProtocol format (tagged now ['='] ['='] ['=', '=']) =
      toLineProtocol format (tagged now ['='] ['=', '='] ['=']) := rfl
  have hcontent := hlaw.content_eq (tagged_over hone hone htwo)
    (tagged_over hone htwo hone) heq
  have hkeys : [['=']] = [['=', '=']] :=
    congrArg (fun content => content.tags.keys) hcontent
  exact absurd hkeys (by decide)

theorem Unambiguous.space_not_mem (now : ν)
    (hlaw : Unambiguous format org bucket names strings) : ' ' ∉ names := by
  intro hmem
  have hone : Over names [' '] := over_replicate hmem 0
  have htwo : Over names [' ', ' '] := over_replicate hmem 1
  have hvalue (text : Text) : (.boolean true : FieldValue ν) = .string text →
      Over strings text := fun heq => by cases heq
  have heq : toLineProtocol format
      (measuredAt now [' '] [' ', ' '] (.boolean true)) =
        toLineProtocol format
          (measuredAt now [' ', ' '] [' '] (.boolean true)) := rfl
  have hcontent := hlaw.content_eq (measuredAt_over hone htwo hvalue)
    (measuredAt_over htwo hone hvalue) heq
  have hmeasurement : [' '] = [' ', ' '] :=
    congrArg Content.measurement hcontent
  exact absurd hmeasurement (by decide)

theorem Unambiguous.feed_not_mem (now : ν)
    (hlaw : Unambiguous format org bucket names strings) : '\n' ∉ names := by
  intro hmem
  have hone : Over names ['\n'] := over_replicate hmem 0
  have htagged : PointOver names strings (tagged now ['\n'] ['\n'] ['\n']) :=
    tagged_over hone hone hone
  apply hlaw.not_mem_line htagged
  rw [toLineProtocol_eq]
  exact List.mem_append_left _ List.mem_cons_self

theorem Unambiguous.feed_not_mem_strings (now : ν) {char : Char}
    (hchar : char ∈ names)
    (hlaw : Unambiguous format org bucket names strings) :
    '\n' ∉ strings := by
  intro hmem
  have hname : Over names [char] := over_replicate hchar 0
  have hvalue (text : Text)
      (heq : (.string ['\n'] : FieldValue ν) = .string text) :
      Over strings text := by
    cases heq
    exact over_replicate hmem 0
  have hpoint : PointOver names strings
      (measuredAt now [char] [char] (.string ['\n'])) :=
    measuredAt_over hname hname hvalue
  apply hlaw.not_mem_line hpoint
  rw [toLineProtocol_eq]
  refine List.mem_append_right _ (List.mem_cons_of_mem _
    (List.mem_append_left _ ?_))
  exact List.mem_cons_of_mem _ (List.mem_cons_of_mem _
    (List.mem_cons_of_mem _ List.mem_cons_self))

/-- Two fields with the same string under a key and under the key twice. -/
def twoFields (char : Char) : InsertionMap Text (FieldValue ν) where
  entries := [([char], .string [char]), ([char, char], .string [char])]
  nodup := by simp

theorem Unambiguous.strings_not_mem (now : ν)
    (hlaw : Unambiguous format org bucket names strings)
    (hspecial : ∀ char ∈ [',', '=', '"'], char ∈ strings) {char : Char}
    (hchar : char ∈ names) : char ∉ strings := by
  intro hmem
  have hname : Over names [char] := over_replicate hchar 0
  have htwo : Over names [char, char] := over_replicate hchar 1
  have hstring : Over strings [char] := over_replicate hmem 0
  have hone : PointOver names strings (measuredAt now [char] [char]
      (.string [char, '"', ',', char, char, '=', '"', char])) := by
    refine measuredAt_over hname hname fun text heq => ?_
    cases heq
    refine ⟨List.cons_ne_nil _ _, fun other hother => ?_⟩
    simp only [List.mem_cons, List.not_mem_nil, or_false] at hother hspecial
    rcases hother with rfl | rfl | rfl | rfl | rfl | rfl | rfl | rfl
    · exact hmem
    · exact hspecial _ (by simp)
    · exact hspecial _ (by simp)
    · exact hmem
    · exact hmem
    · exact hspecial _ (by simp)
    · exact hspecial _ (by simp)
    · exact hmem
  have hboth : PointOver names strings
      { timestamp := now, measurement := [char], tags := none,
        fields := twoFields char } := by
    refine ⟨hname, List.forall_mem_nil _, ?_, ?_⟩
    · intro entry hentry
      simp only [twoFields, List.mem_cons, List.not_mem_nil, or_false]
        at hentry
      rcases hentry with rfl | rfl
      · exact hname
      · exact htwo
    · intro entry hentry text heq
      simp only [twoFields, List.mem_cons, List.not_mem_nil, or_false]
        at hentry
      rcases hentry with rfl | rfl
      · cases heq
        exact hstring
      · cases heq
        exact hstring
  have hcontent := hlaw.content_eq hone hboth rfl
  have hsize : 1 = 2 := congrArg (fun content => content.fields.size) hcontent
  cases hsize

theorem Unambiguous.separable (now : ν)
    (hlaw : Unambiguous format org bucket names strings) {char : Char}
    (hchar : char ∈ names) : Separable names strings := by
  refine ⟨?_, hlaw.feed_not_mem_strings now hchar,
    fun hspecial _ hname => hlaw.strings_not_mem now hspecial hname⟩
  intro special hspecial
  simp only [List.mem_cons, List.not_mem_nil, or_false] at hspecial
  rcases hspecial with rfl | rfl | rfl | rfl
  · exact hlaw.comma_not_mem now
  · exact hlaw.equals_not_mem now
  · exact hlaw.space_not_mem now
  · exact hlaw.feed_not_mem now

/-- Lines can be told apart exactly if the characters are separable, or if
there are none for names. -/
theorem unambiguous_iff [Inhabited ν] (format : NumberText ν)
    (org bucket : Text) (names strings : Set Char) :
    Unambiguous format org bucket names strings ↔
      names = ∅ ∨ Separable names strings := by
  constructor
  · intro hlaw
    rcases names.eq_empty_or_nonempty with hempty | ⟨char, hchar⟩
    · exact Or.inl hempty
    · exact Or.inr (hlaw.separable default hchar)
  · rintro (rfl | hseparable)
    · have hnone {points : List (DataPoint ν)}
          (hpoints : ∀ point ∈ points, PointOver ∅ strings point) :
          points = [] := by
        refine List.eq_nil_iff_forall_not_mem.mpr fun point hpoint => ?_
        obtain ⟨hne, hall⟩ := (hpoints point hpoint).measurement
        obtain ⟨char, rest, hcons⟩ := List.exists_cons_of_ne_nil hne
        exact hall char (by simp [hcons])
      constructor
      · intro points hpoints text htext
        rw [hnone hpoints] at htext
        cases htext
      · intro points others hpoints hothers _
        rw [hnone hpoints, hnone hothers]
    · exact hseparable.unambiguous format org bucket

/-- Whole numbers in decimals. -/
def decimalText : NumberText ℕ where
  text := Nat.toDigits 10
  injective value other heq := by
    have hvalue := congrArg (Nat.ofDigitChars 10 · 0) heq
    rwa [Nat.ofDigitChars_ten_toDigits, Nat.ofDigitChars_ten_toDigits]
      at hvalue
  plain value char hchar := by
    have hdigit : char.isDigit = true :=
      Nat.isDigit_of_mem_toDigits (by decide) (by decide) hchar
    have hplain : ∀ char ∈ [',', '=', ' ', '\n', '"'],
        char.isDigit = false := Text.forall_mem_of_all (by decide)
    intro hmem
    rw [hplain char hmem] at hdigit
    cases hdigit
  not_boolean value := by
    have hne {text : Text} (hletter : 'e' ∈ text) :
        Nat.toDigits 10 value ≠ text := by
      rintro rfl
      have hdigit : 'e'.isDigit = true :=
        Nat.isDigit_of_mem_toDigits (by decide) (by decide) hletter
      exact absurd hdigit (by decide)
    exact ⟨hne (by decide +kernel), hne (by decide +kernel)⟩

/-- A tag of a host. -/
def hostTagged : DataPoint ℕ :=
  { timestamp := 7, measurement := "cpu".toList,
    tags := some (InsertionMap.empty.set "host".toList "a".toList),
    fields := InsertionMap.empty.set "load".toList (.number 1) }

/-- The tag as a part of the measurement. -/
def hostNamed : DataPoint ℕ :=
  { timestamp := 7, measurement := "cpu,host=a".toList, tags := none,
    fields := InsertionMap.empty.set "load".toList (.number 1) }

theorem comma_in_measurement :
    (write decimalText "o".toList "b".toList [hostTagged]).1 =
        (write decimalText "o".toList "b".toList [hostNamed]).1 ∧
      ¬ Unambiguous decimalText "o".toList "b".toList
        Set.univ Set.univ := by
  have hover (text : Text) (hne : text ≠ []) : Over Set.univ text :=
    ⟨hne, fun _ _ => Set.mem_univ _⟩
  have hentries : ∀ entry ∈ hostTagged.fields.entries, entry.1 ≠ [] ∧
      ∀ text, entry.2 ≠ .string text := by
    intro entry hentry
    rw [List.mem_singleton.mp hentry]
    exact ⟨by decide +kernel, fun text heq => by cases heq⟩
  have htagged : PointOver Set.univ Set.univ hostTagged := by
    refine ⟨hover _ (by decide +kernel), ?_, fun entry hentry =>
      hover _ (hentries entry hentry).1, fun entry hentry text htext =>
        absurd htext ((hentries entry hentry).2 text)⟩
    intro entry hentry
    rw [List.mem_singleton.mp hentry]
    exact ⟨hover _ (by decide +kernel), hover _ (by decide +kernel)⟩
  have hnamed : PointOver Set.univ Set.univ hostNamed :=
    ⟨hover _ (by decide +kernel), List.forall_mem_nil _, htagged.keys,
      htagged.strings⟩
  have htext : (write decimalText "o".toList "b".toList [hostTagged]).1 =
      (write decimalText "o".toList "b".toList [hostNamed]).1 := by
    decide +kernel
  refine ⟨htext, fun hlaw => ?_⟩
  have hcontent := hlaw.injective [hostTagged] [hostNamed]
    (List.forall_mem_singleton.mpr htagged)
    (List.forall_mem_singleton.mpr hnamed) htext
  have hmeasurement : "cpu".toList = "cpu,host=a".toList :=
    congrArg Content.measurement (List.cons.inj hcontent).1
  exact absurd hmeasurement (by decide +kernel)

end TsCommons.Timeseries
