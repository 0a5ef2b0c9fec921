import TsCommons.Foundations.Json

/-!
# Reading what was written

The parser inverts the writer on the values whose numbers are finite and
whose objects have distinct keys.  The induction is over the value; what
follows it must not go on as a number, and the fuel is measured against the
text.
-/

namespace TsCommons.Foundations.Json

variable {N : Type} {format : NumberFormat N} {text rest after : Text}
  {char : Char}

/-! ## Number literals -/

theorem isNumberChar_of_isDigit (hdigit : char.isDigit = true) :
    isNumberChar char = true := by
  simp [isNumberChar, hdigit]

theorem isNumberChar_of_isDigits (hdigits : isDigits text = true)
    (hmem : char ∈ text) : isNumberChar char = true := by
  simp only [isDigits, Bool.and_eq_true, List.all_eq_true] at hdigits
  exact isNumberChar_of_isDigit (hdigits.2 char hmem)

theorem isNumberChar_of_isExponent (hexponent : isExponent text = true)
    (hmem : char ∈ text) : isNumberChar char = true := by
  cases text with
  | nil => cases hmem
  | cons mark rest =>
      simp only [isExponent, Bool.and_eq_true, Bool.or_eq_true,
        decide_eq_true_eq] at hexponent
      obtain ⟨hmark, hdigits⟩ := hexponent
      rcases List.mem_cons.mp hmem with rfl | hrest
      · rcases hmark with rfl | rfl
        · decide
        · decide
      · unfold dropSign at hdigits
        split at hdigits
        · rcases List.mem_cons.mp hrest with rfl | hrest
          · decide
          · exact isNumberChar_of_isDigits hdigits hrest
        · rcases List.mem_cons.mp hrest with rfl | hrest
          · decide
          · exact isNumberChar_of_isDigits hdigits hrest
        · exact isNumberChar_of_isDigits hdigits hrest

theorem isNumberChar_of_span
    (hafter : ∀ char ∈ text.dropWhile Char.isDigit, isNumberChar char = true)
    (hmem : char ∈ text) : isNumberChar char = true := by
  rw [← List.takeWhile_append_dropWhile (p := Char.isDigit) (l := text)] at hmem
  rcases List.mem_append.mp hmem with hdigit | hdrop
  · exact isNumberChar_of_isDigit (List.mem_takeWhile_imp hdigit)
  · exact hafter char hdrop

theorem isNumberChar_of_isFraction (hfraction : isFraction text = true)
    (hmem : char ∈ text) : isNumberChar char = true := by
  unfold isFraction at hfraction
  split at hfraction
  · rw [Bool.and_eq_true] at hfraction
    rcases List.mem_cons.mp hmem with rfl | hrest
    · decide
    · exact isNumberChar_of_span
        (fun _ hchar => isNumberChar_of_isExponent hfraction.2 hchar) hrest
  · exact isNumberChar_of_isExponent hfraction hmem

theorem isNumberChar_of_isUnsigned (hunsigned : isUnsigned text = true)
    (hmem : char ∈ text) : isNumberChar char = true := by
  unfold isUnsigned at hunsigned
  split at hunsigned
  · rcases List.mem_cons.mp hmem with rfl | hrest
    · decide
    · exact isNumberChar_of_isFraction hunsigned hrest
  · rw [Bool.and_eq_true] at hunsigned
    exact isNumberChar_of_span
      (fun _ hchar => isNumberChar_of_isFraction hunsigned.2 hchar) hmem

theorem isNumberChar_of_isNumberLiteral (hliteral : isNumberLiteral text = true)
    (hmem : char ∈ text) : isNumberChar char = true := by
  unfold isNumberLiteral at hliteral
  split at hliteral
  · rcases List.mem_cons.mp hmem with rfl | hrest
    · decide
    · exact isNumberChar_of_isUnsigned hliteral hrest
  · exact isNumberChar_of_isUnsigned hliteral hmem

theorem ne_nil_of_isNumberLiteral (hliteral : isNumberLiteral text = true) :
    text ≠ [] := by
  rintro rfl
  cases hliteral

/-! ## Characters that are written -/

def Printable (text : Text) : Prop := ∀ char ∈ text, 0x20 ≤ char.toNat

theorem Printable.append {before after : Text} (hbefore : Printable before)
    (hafter : Printable after) : Printable (before ++ after) := by
  intro char hchar
  rcases List.mem_append.mp hchar with hold | hnew
  · exact hbefore char hold
  · exact hafter char hnew

theorem Printable.noLineEnd (hprintable : Printable text) :
    Text.NoLineEnd text := by
  constructor
  · intro hmem
    exact absurd (hprintable '\n' hmem) (by decide)
  · intro hmem
    exact absurd (hprintable '\r' hmem) (by decide)

theorem isNumberChar_cases (hnumber : isNumberChar char = true) :
    char.isDigit = true ∨ char = '-' ∨ char = '+' ∨ char = '.' ∨
      char = 'e' ∨ char = 'E' := by
  simp only [isNumberChar, Bool.or_eq_true, decide_eq_true_eq] at hnumber
  tauto

theorem toNat_of_isDigit (hdigit : char.isDigit = true) :
    48 ≤ char.toNat ∧ char.toNat ≤ 57 := by
  simp only [Char.isDigit, ge_iff_le, Bool.and_eq_true, decide_eq_true_eq,
    UInt32.le_iff_toNat_le] at hdigit
  exact hdigit

theorem toNat_of_isNumberChar (hnumber : isNumberChar char = true) :
    0x20 < char.toNat ∧ char.toNat < 0x80 ∧ char ≠ '"' ∧ char ≠ '[' ∧
      char ≠ '\x7b' ∧ char ≠ 'n' ∧ char ≠ 't' ∧ char ≠ 'f' := by
  rcases isNumberChar_cases hnumber with
    hdigit | rfl | rfl | rfl | rfl | rfl
  · obtain ⟨hlow, hhigh⟩ := toNat_of_isDigit hdigit
    refine ⟨by omega, by omega, ?_, ?_, ?_, ?_, ?_, ?_⟩
    all_goals
      rintro rfl
      revert hlow hhigh
      decide
  all_goals decide

theorem printable_of_forall {chars : Text}
    (hall : chars.all (0x20 ≤ ·.toNat) = true) : Printable chars := by
  intro char hchar
  exact of_decide_eq_true (List.all_eq_true.mp hall char hchar)

theorem Printable.cons (hchar : 0x20 ≤ char.toNat) (hrest : Printable rest) :
    Printable (char :: rest) := by
  intro other hother
  rcases List.mem_cons.mp hother with rfl | hmem
  · exact hchar
  · exact hrest other hmem

/-- A character is written as a letter after a backslash, as a code, or as
itself. -/
theorem escapeChar_cases (char : Char) :
    (∃ letter, escapeChar char = ['\\', letter] ∧ 0x20 ≤ letter.toNat ∧
      ∀ rest, parseEscape (letter :: rest) = some (char, rest)) ∨
    (char.toNat < 0x20 ∧ escapeChar char =
      ['\\', 'u', '0', '0', Nat.digitChar (char.toNat / 16),
        Nat.digitChar (char.toNat % 16)]) ∨
    (0x20 ≤ char.toNat ∧ char ≠ '"' ∧ char ≠ '\\' ∧
      escapeChar char = [char]) := by
  by_cases hquote : char = '"'
  · subst hquote
    exact .inl ⟨'"', rfl, by decide, fun _ => rfl⟩
  by_cases hbackslash : char = '\\'
  · subst hbackslash
    exact .inl ⟨'\\', rfl, by decide, fun _ => rfl⟩
  by_cases hback : char = '\x08'
  · subst hback
    exact .inl ⟨'b', rfl, by decide, fun _ => rfl⟩
  by_cases hform : char = '\x0c'
  · subst hform
    exact .inl ⟨'f', rfl, by decide, fun _ => rfl⟩
  by_cases hfeed : char = '\n'
  · subst hfeed
    exact .inl ⟨'n', rfl, by decide, fun _ => rfl⟩
  by_cases hreturn : char = '\r'
  · subst hreturn
    exact .inl ⟨'r', rfl, by decide, fun _ => rfl⟩
  by_cases htab : char = '\t'
  · subst htab
    exact .inl ⟨'t', rfl, by decide, fun _ => rfl⟩
  rw [escapeChar, if_neg hquote, if_neg hbackslash, if_neg hback,
    if_neg hform, if_neg hfeed, if_neg hreturn, if_neg htab]
  by_cases hcontrol : char.toNat < 0x20
  · rw [if_pos hcontrol]
    exact .inr (.inl ⟨hcontrol, rfl⟩)
  · rw [if_neg hcontrol]
    exact .inr (.inr ⟨not_lt.mp hcontrol, hquote, hbackslash, rfl⟩)

theorem digitChar_printable {digit : ℕ} (hdigit : digit < 16) :
    0x20 ≤ (Nat.digitChar digit).toNat := by
  revert digit
  decide

theorem printable_escapeChar (char : Char) : Printable (escapeChar char) := by
  rcases escapeChar_cases char with
    ⟨letter, hescape, hletter, -⟩ | ⟨hcontrol, hescape⟩ |
      ⟨hplain, -, -, hescape⟩
  · rw [hescape]
    exact printable_of_forall (by simp [hletter])
  · have hhigh : 0x20 ≤ (Nat.digitChar (char.toNat / 16)).toNat :=
      digitChar_printable (by omega)
    have hlow : 0x20 ≤ (Nat.digitChar (char.toNat % 16)).toNat :=
      digitChar_printable (by omega)
    rw [hescape]
    exact printable_of_forall (by simp [hhigh, hlow])
  · rw [hescape]
    exact printable_of_forall (by simpa using hplain)

theorem printable_quote (text : Text) : Printable (quote text) := by
  refine Printable.cons (by decide) (Printable.append ?_
    (printable_of_forall (by decide)))
  intro char hchar
  obtain ⟨source, -, hescaped⟩ := List.mem_flatMap.mp hchar
  exact printable_escapeChar source char hescaped

/-! ## Values that are written -/

mutual

/-- The numbers are finite and the keys of an object distinct. -/
def WellFormed (format : NumberFormat N) : Json N → Prop
  | .number value => format.finite value = true
  | .array items => WellFormedItems format items
  | .object fields =>
      (fields.map Prod.fst).Nodup ∧ WellFormedFields format fields
  | _ => True

def WellFormedItems (format : NumberFormat N) : List (Json N) → Prop
  | [] => True
  | item :: rest => WellFormed format item ∧ WellFormedItems format rest

def WellFormedFields (format : NumberFormat N) : List (Text × Json N) → Prop
  | [] => True
  | (_, value) :: rest =>
      WellFormed format value ∧ WellFormedFields format rest

end

theorem isNumberChar_of_text {value : N} (hfinite : format.finite value = true)
    (hmem : char ∈ format.text value) : isNumberChar char = true :=
  isNumberChar_of_isNumberLiteral (format.literal_text value hfinite) hmem

theorem printable_text {value : N} (hfinite : format.finite value = true) :
    Printable (format.text value) := by
  intro char hchar
  exact (toNat_of_isNumberChar (isNumberChar_of_text hfinite hchar)).1.le

mutual

theorem printable_stringify : ∀ value : Json N,
    Printable (stringify format value)
  | .null => printable_of_forall (by simp [stringify])
  | .bool true => printable_of_forall (by simp [stringify])
  | .bool false => printable_of_forall (by simp [stringify])
  | .number value => by
      rw [stringify]
      split
      · rename_i hfinite
        exact printable_text hfinite
      · exact printable_of_forall (by decide)
  | .string text => by
      rw [stringify]
      exact printable_quote text
  | .array items => by
      rw [stringify]
      refine Printable.cons (by decide)
        (Printable.append ?_ (printable_of_forall (by decide)))
      exact printable_stringifyItems items (printable_of_forall (by decide))
  | .object fields => by
      rw [stringify]
      refine Printable.cons (by decide)
        (Printable.append ?_ (printable_of_forall (by decide)))
      exact printable_stringifyFields fields (printable_of_forall (by decide))

theorem printable_stringifyItems : ∀ (items : List (Json N))
    {separator : Text}, Printable separator →
      Printable (stringifyItems format separator items)
  | [], _, _ => by
      rw [stringifyItems]
      exact printable_of_forall (by decide)
  | item :: rest, _, hseparator => by
      rw [stringifyItems]
      refine hseparator.append (Printable.append (printable_stringify item) ?_)
      exact printable_stringifyItems rest (printable_of_forall (by decide))

theorem printable_stringifyFields : ∀ (fields : List (Text × Json N))
    {separator : Text}, Printable separator →
      Printable (stringifyFields format separator fields)
  | [], _, _ => by
      rw [stringifyFields]
      exact printable_of_forall (by decide)
  | (key, value) :: rest, _, hseparator => by
      rw [stringifyFields]
      refine hseparator.append (Printable.append (printable_quote key) ?_)
      refine Printable.cons (by decide)
        (Printable.append (printable_stringify value) ?_)
      exact printable_stringifyFields rest (printable_of_forall (by decide))

end

theorem isWhiteSpace_of_isNumberChar (hnumber : isNumberChar char = true) :
    Text.isWhiteSpace char = false := by
  obtain ⟨hlow, hhigh, -⟩ := toNat_of_isNumberChar hnumber
  simp only [Text.isWhiteSpace, Bool.or_eq_false_iff, Bool.and_eq_false_iff,
    decide_eq_false_iff_not]
  omega

theorem trimmed_stringify (value : Json N) :
    Text.Trimmed (stringify format value) := by
  cases value with
  | null =>
      rw [stringify]
      decide
  | bool value =>
      cases value with
      | true =>
          rw [stringify]
          decide
      | false =>
          rw [stringify]
          decide
  | number value =>
      rw [stringify]
      split
      · rename_i hfinite
        apply Text.trimmed_of_forall
        intro char hchar
        exact isWhiteSpace_of_isNumberChar (isNumberChar_of_text hfinite hchar)
      · decide
  | string text =>
      rw [stringify]
      exact Text.trimmed_of_ends (by decide) (by decide)
  | array items =>
      rw [stringify]
      exact Text.trimmed_of_ends (by decide) (by decide)
  | object fields =>
      rw [stringify]
      exact Text.trimmed_of_ends (by decide) (by decide)

/-! ## Strings that are read -/

theorem hexValue_digitChar {digit : ℕ} (hdigit : digit < 16) :
    hexValue (Nat.digitChar digit) = some digit := by
  revert digit
  decide

theorem parseString_escapeChar {fuel : ℕ}
    (hrest : parseString fuel rest = some (text, after)) (char : Char) :
    parseString (fuel + 1) (escapeChar char ++ rest) =
      some (char :: text, after) := by
  rcases escapeChar_cases char with
    ⟨letter, hescape, -, hletter⟩ | ⟨hcontrol, hescape⟩ |
      ⟨hplain, hquote, hbackslash, hescape⟩
  · rw [hescape]
    simp [parseString, hletter, hrest]
  · have hhigh : hexValue (Nat.digitChar (char.toNat / 16)) =
        some (char.toNat / 16) := hexValue_digitChar (by omega)
    have hlow : hexValue (Nat.digitChar (char.toNat % 16)) =
        some (char.toNat % 16) := hexValue_digitChar (by omega)
    have hzero : hexValue '0' = some 0 := by decide
    have hcode : char.toNat / 16 * 16 + char.toNat % 16 = char.toNat := by
      omega
    have hunicode : parseUnicode ('0' :: '0' ::
        Nat.digitChar (char.toNat / 16) :: Nat.digitChar (char.toNat % 16) ::
          rest) = some (char, rest) := by
      simp only [parseUnicode, parseHex, hzero, hhigh, hlow]
      simp only [Option.pure_def, Option.bind_eq_bind, Option.bind_some,
        Nat.zero_mul, Nat.zero_add, hcode]
      rw [if_neg (by omega), if_neg (by omega), Char.ofNat_toNat]
    rw [hescape]
    simp [parseString, parseEscape, hunicode, hrest]
  · rw [hescape]
    simp [parseString, hquote, hbackslash, not_lt.mpr hplain, hrest]

theorem parseString_flatMap (rest : Text) {fuel : ℕ}
    (hfuel : text.length < fuel) :
    parseString fuel (text.flatMap escapeChar ++ '"' :: rest) =
      some (text, rest) := by
  induction text generalizing fuel with
  | nil =>
      obtain ⟨fuel, rfl⟩ := Nat.exists_eq_succ_of_ne_zero
        (Nat.ne_zero_of_lt hfuel)
      simp [parseString]
  | cons char text ih =>
      obtain ⟨fuel, rfl⟩ := Nat.exists_eq_succ_of_ne_zero
        (Nat.ne_zero_of_lt hfuel)
      rw [List.flatMap_cons, List.append_assoc]
      exact parseString_escapeChar (ih (Nat.lt_of_succ_lt_succ hfuel)) char

theorem length_escapeChar_pos (char : Char) : 0 < (escapeChar char).length := by
  rcases escapeChar_cases char with
    ⟨letter, hescape, -⟩ | ⟨-, hescape⟩ | ⟨-, -, -, hescape⟩
  all_goals
    rw [hescape]
    exact Nat.succ_pos _

theorem length_le_length_flatMap (text : Text) :
    text.length ≤ (text.flatMap escapeChar).length := by
  induction text with
  | nil => exact Nat.zero_le _
  | cons char rest ih =>
      have hchar := length_escapeChar_pos char
      rw [List.flatMap_cons, List.length_append, List.length_cons]
      omega

/-! ## Values that are read -/

/-- What follows a value does not go on as a number. -/
def Follows (rest : Text) : Prop :=
  ∀ char ∈ rest.head?, isNumberChar char = false

theorem follows_cons (hchar : isNumberChar char = false) :
    Follows (char :: rest) := by
  intro other hother
  cases hother
  exact hchar

theorem skipSpace_cons (rest : Text) (hchar : isSpace char = false) :
    skipSpace (char :: rest) = char :: rest :=
  List.dropWhile_cons_of_neg (by simp [hchar])

theorem isSpace_of_isNumberChar (hnumber : isNumberChar char = true) :
    isSpace char = false := by
  obtain ⟨hlow, -⟩ := toNat_of_isNumberChar hnumber
  simp only [isSpace, Bool.or_eq_false_iff, decide_eq_false_iff_not]
  refine ⟨⟨⟨?_, ?_⟩, ?_⟩, ?_⟩
  all_goals
    rintro rfl
    revert hlow
    decide

/-- The text of a value starts with a character that is no space, and closes
no list. -/
theorem stringify_cons (format : NumberFormat N) (value : Json N) :
    ∃ first tail, stringify format value = first :: tail ∧
      isSpace first = false ∧ first ≠ ']' := by
  cases value with
  | null => exact ⟨_, _, stringify.eq_1 format, by decide, by decide⟩
  | bool value =>
      cases value with
      | true => exact ⟨_, _, stringify.eq_2 format, by decide, by decide⟩
      | false => exact ⟨_, _, stringify.eq_3 format, by decide, by decide⟩
  | number value =>
      rw [stringify]
      split
      · rename_i hfinite
        have hne := ne_nil_of_isNumberLiteral
          (format.literal_text value hfinite)
        obtain ⟨first, tail, htext⟩ := List.exists_cons_of_ne_nil hne
        have hmem : first ∈ format.text value := by
          rw [htext]
          exact List.mem_cons_self
        have hnumber := isNumberChar_of_text hfinite hmem
        refine ⟨first, tail, htext, isSpace_of_isNumberChar hnumber, ?_⟩
        rintro rfl
        exact absurd hnumber (by decide)
      · exact ⟨_, _, rfl, by decide, by decide⟩
  | string text =>
      rw [stringify]
      exact ⟨_, _, rfl, by decide, by decide⟩
  | array items =>
      rw [stringify]
      exact ⟨_, _, rfl, by decide, by decide⟩
  | object fields =>
      rw [stringify]
      exact ⟨_, _, rfl, by decide, by decide⟩

/-- The items of a list are not taken for its end. -/
theorem skipSpace_stringifyItems (format : NumberFormat N) (item : Json N)
    (items : List (Json N)) (rest : Text) :
    skipSpace (stringifyItems format [] (item :: items) ++ rest) =
        stringifyItems format [] (item :: items) ++ rest ∧
      (stringifyItems format [] (item :: items) ++ rest).head? ≠
        some ']' := by
  obtain ⟨first, tail, htext, hspace, hfirst⟩ := stringify_cons format item
  rw [stringifyItems, htext]
  exact ⟨skipSpace_cons _ hspace, by simpa using hfirst⟩

theorem stringifyFields_cons (format : NumberFormat N)
    (field : Text × Json N) (fields : List (Text × Json N)) :
    ∃ tail, stringifyFields format [] (field :: fields) = '"' :: tail := by
  rw [stringifyFields]
  exact ⟨_, rfl⟩

theorem stringifyItems_comma (item : Json N) (items : List (Json N)) :
    stringifyItems format [','] (item :: items) =
      ',' :: stringifyItems format [] (item :: items) := by
  rw [stringifyItems, stringifyItems]
  rfl

theorem stringifyFields_comma (field : Text × Json N)
    (fields : List (Text × Json N)) :
    stringifyFields format [','] (field :: fields) =
      ',' :: stringifyFields format [] (field :: fields) := by
  rw [stringifyFields, stringifyFields]
  rfl

theorem parseNumber_text {value : N} (hfinite : format.finite value = true)
    (hrest : Follows rest) :
    parseNumber format (format.text value ++ rest) =
      some (.number value, rest) := by
  have hall : ∀ char ∈ format.text value, isNumberChar char = true :=
    fun char hchar => isNumberChar_of_text hfinite hchar
  have hnone : rest.takeWhile isNumberChar = [] ∧
      rest.dropWhile isNumberChar = rest := by
    cases rest with
    | nil => exact ⟨rfl, rfl⟩
    | cons first tail =>
        have hfirst := hrest first rfl
        exact ⟨List.takeWhile_cons_of_neg (by simp [hfirst]),
          List.dropWhile_cons_of_neg (by simp [hfirst])⟩
  have htake : (format.text value ++ rest).takeWhile isNumberChar =
      format.text value := by
    rw [List.takeWhile_append_of_pos hall, hnone.1, List.append_nil]
  have hdrop : (format.text value ++ rest).dropWhile isNumberChar = rest := by
    rw [List.dropWhile_append_of_pos hall, hnone.2]
  simp only [parseNumber, htake, hdrop, format.literal_text value hfinite,
    format.number_text value hfinite]
  rfl

theorem parseValue_number (fuel : ℕ) (hnumber : isNumberChar char = true) :
    parseValue format (fuel + 1) (char :: rest) =
      parseNumber format (char :: rest) := by
  obtain ⟨-, -, hquote, harray, hobject, hnull, htrue, hfalse⟩ :=
    toNat_of_isNumberChar hnumber
  rw [parseValue, skipSpace_cons _ (isSpace_of_isNumberChar hnumber)]
  simp only [if_neg hquote, if_neg harray, if_neg hobject, if_neg hnull,
    if_neg htrue, if_neg hfalse]

theorem foldl_put {merged fields : List (Text × Json N)}
    (hnodup : ((merged ++ fields).map Prod.fst).Nodup) :
    fields.foldl (fun merged field =>
      InsertionMap.put field.1 field.2 merged) merged = merged ++ fields := by
  induction fields generalizing merged with
  | nil => simp
  | cons field rest ih =>
      have hnew : field.1 ∉ merged.map Prod.fst := by
        rw [List.map_append, List.nodup_append] at hnodup
        intro hmem
        exact hnodup.2.2 field.1 hmem field.1 (by simp) rfl
      rw [List.foldl_cons, InsertionMap.put_of_not_mem _ hnew, ih]
      · simp
      · simpa using hnodup

theorem merge_of_nodup {fields : List (Text × Json N)}
    (hnodup : (fields.map Prod.fst).Nodup) : merge fields = fields :=
  foldl_put hnodup

mutual

theorem parseValue_stringify : ∀ (value : Json N) (fuel : ℕ) (rest : Text),
    WellFormed format value → (stringify format value).length ≤ fuel →
      Follows rest →
        parseValue format fuel (stringify format value ++ rest) =
          some (value, rest)
  | value, 0, _, _, hfuel, _ => by
      obtain ⟨first, tail, htext, -⟩ := stringify_cons format value
      rw [htext] at hfuel
      cases hfuel
  | .null, fuel + 1, rest, _, _, _ => by
      rw [stringify]
      rfl
  | .bool true, fuel + 1, rest, _, _, _ => by
      rw [stringify]
      rfl
  | .bool false, fuel + 1, rest, _, _, _ => by
      rw [stringify]
      rfl
  | .number value, fuel + 1, rest, hvalue, _, hrest => by
      rw [WellFormed] at hvalue
      rw [stringify, if_pos hvalue, ← parseNumber_text hvalue hrest]
      obtain ⟨first, tail, htext⟩ := List.exists_cons_of_ne_nil
        (ne_nil_of_isNumberLiteral (format.literal_text value hvalue))
      have hmem : first ∈ format.text value := by
        rw [htext]
        exact List.mem_cons_self
      have hnumber := isNumberChar_of_text hvalue hmem
      rw [htext, List.cons_append]
      exact parseValue_number fuel hnumber
  | .string text, fuel + 1, rest, _, hfuel, _ => by
      have hlength := length_le_length_flatMap text
      rw [stringify, quote, List.length_cons, List.length_append,
        List.length_singleton] at hfuel
      have hstring : parseString fuel (text.flatMap escapeChar ++ '"' :: rest) =
          some (text, rest) := parseString_flatMap rest (by omega)
      rw [stringify, quote, List.cons_append, List.append_assoc, parseValue,
        skipSpace_cons _ (by decide)]
      simp [hstring]
  | .array [], fuel + 1, rest, _, _, _ => by
      rw [stringify, stringifyItems]
      rfl
  | .array (item :: items), fuel + 1, rest, hvalue, hfuel, _ => by
      rw [WellFormed] at hvalue
      rw [stringify, List.length_cons, List.length_append,
        List.length_singleton] at hfuel
      have hitems := parseItems_stringify item items fuel rest hvalue (by omega)
      obtain ⟨hopen, hhead⟩ := skipSpace_stringifyItems format item
        items (']' :: rest)
      rw [stringify, List.cons_append, List.append_assoc, List.singleton_append,
        parseValue, skipSpace_cons _ (by decide)]
      simp only [hopen, if_neg hhead, hitems]
      rfl
  | .object [], fuel + 1, rest, _, _, _ => by
      rw [stringify, stringifyFields]
      rfl
  | .object ((key, value) :: fields), fuel + 1, rest, hvalue, hfuel, _ => by
      rw [WellFormed] at hvalue
      obtain ⟨hnodup, hvalue⟩ := hvalue
      rw [stringify, List.length_cons, List.length_append,
        List.length_singleton] at hfuel
      have hfields := parseFields_stringify key value fields fuel rest hvalue
        (by omega)
      obtain ⟨tail, hopen⟩ := stringifyFields_cons format (key, value) fields
      rw [stringify, List.cons_append, List.append_assoc, List.singleton_append,
        parseValue, skipSpace_cons _ (by decide)]
      rw [hopen, List.cons_append] at hfields ⊢
      simp [skipSpace_cons _ (show isSpace '"' = false by decide),
        hfields, merge_of_nodup hnodup]

theorem parseItems_stringify : ∀ (item : Json N) (items : List (Json N))
    (fuel : ℕ) (rest : Text), WellFormedItems format (item :: items) →
      (stringifyItems format [] (item :: items)).length < fuel →
        parseItems format fuel
            (stringifyItems format [] (item :: items) ++ ']' :: rest) =
          some (item :: items, rest)
  | _, _, 0, _, _, hfuel => by cases hfuel
  | item, [], fuel + 1, rest, hitems, hfuel => by
      rw [WellFormedItems] at hitems
      rw [stringifyItems, stringifyItems, List.nil_append,
        List.append_nil] at hfuel ⊢
      have hitem := parseValue_stringify item fuel (']' :: rest) hitems.1
        (by omega) (follows_cons (by decide))
      rw [parseItems, hitem]
      simp [skipSpace_cons rest (show isSpace ']' = false by decide)]
  | item, next :: items, fuel + 1, rest, hitems, hfuel => by
      rw [WellFormedItems] at hitems
      rw [stringifyItems, stringifyItems_comma, List.nil_append,
        List.length_append, List.length_cons] at hfuel
      obtain ⟨first, tail, htext, -⟩ := stringify_cons format item
      have hpos : 0 < (stringify format item).length := by simp [htext]
      have hrest := parseItems_stringify next items fuel rest hitems.2
        (by omega)
      have hitem := parseValue_stringify item fuel
        (',' :: (stringifyItems format [] (next :: items) ++ ']' :: rest))
        hitems.1 (by omega) (follows_cons (by decide))
      rw [stringifyItems, stringifyItems_comma, List.nil_append,
        List.append_assoc, List.cons_append, parseItems, hitem]
      simp [skipSpace_cons _ (show isSpace ',' = false by decide), hrest]

theorem parseFields_stringify : ∀ (key : Text) (value : Json N)
    (fields : List (Text × Json N)) (fuel : ℕ) (rest : Text),
      WellFormedFields format ((key, value) :: fields) →
        (stringifyFields format [] ((key, value) :: fields)).length < fuel →
          parseFields format fuel
              (stringifyFields format [] ((key, value) :: fields) ++
                '\x7d' :: rest) =
            some ((key, value) :: fields, rest)
  | _, _, _, 0, _, _, hfuel => by cases hfuel
  | key, value, [], fuel + 1, rest, hfields, hfuel => by
      rw [WellFormedFields] at hfields
      have hlength := length_le_length_flatMap key
      rw [stringifyFields, stringifyFields, List.nil_append, List.append_nil,
        quote, List.length_append, List.length_cons, List.length_cons,
        List.length_append, List.length_singleton] at hfuel
      have hkeyFuel : key.length < fuel := by omega
      have hkey := parseString_flatMap
        (':' :: (stringify format value ++ '\x7d' :: rest)) hkeyFuel
      have hvalue := parseValue_stringify value fuel ('\x7d' :: rest) hfields.1
        (by omega) (follows_cons (by decide))
      rw [stringifyFields, stringifyFields, List.nil_append, List.append_nil,
        quote, List.cons_append, List.append_assoc, List.cons_append,
        List.append_assoc, List.singleton_append, List.cons_append, parseFields,
        skipSpace_cons _ (by decide)]
      simp [hkey, skipSpace_cons _ (show isSpace ':' = false by decide), hvalue,
        skipSpace_cons _ (show isSpace '\x7d' = false by decide)]
  | key, value, (nextKey, next) :: fields, fuel + 1, rest, hfields, hfuel => by
      rw [WellFormedFields] at hfields
      have hlength := length_le_length_flatMap key
      rw [stringifyFields, stringifyFields_comma, List.nil_append,
        quote, List.length_append, List.length_cons, List.length_cons,
        List.length_append, List.length_append, List.length_singleton,
        List.length_cons] at hfuel
      have hkeyFuel : key.length < fuel := by omega
      have hkey := parseString_flatMap (':' :: (stringify format value ++ ',' ::
        (stringifyFields format [] ((nextKey, next) :: fields) ++
          '\x7d' :: rest))) hkeyFuel
      have hvalue := parseValue_stringify value fuel
        (',' :: (stringifyFields format [] ((nextKey, next) :: fields) ++
          '\x7d' :: rest)) hfields.1 (by omega) (follows_cons (by decide))
      have hrest := parseFields_stringify nextKey next fields fuel rest
        hfields.2 (by omega)
      rw [stringifyFields, stringifyFields_comma, List.nil_append,
        quote, List.cons_append, List.append_assoc, List.cons_append,
        List.append_assoc, List.singleton_append, List.cons_append,
        List.cons_append, List.append_assoc, List.cons_append, parseFields,
        skipSpace_cons _ (by decide)]
      simp [hkey, skipSpace_cons _ (show isSpace ':' = false by decide), hvalue,
        skipSpace_cons _ (show isSpace ',' = false by decide), hrest]

end

/-- What is written for a value is read as the value. -/
theorem parse_stringify {value : Json N} (hvalue : WellFormed format value) :
    parse format (stringify format value) = some value := by
  have hparse := parseValue_stringify value
    ((stringify format value).length + 1) [] hvalue (Nat.le_succ _)
    (by simp [Follows])
  rw [List.append_nil] at hparse
  rw [parse, hparse]
  rfl

/-! ## Decimal numbers -/

theorem isDigits_toDigits (n : ℕ) : isDigits (Nat.toDigits 10 n) = true := by
  simp only [isDigits, Bool.and_eq_true, decide_eq_true_eq, List.all_eq_true]
  exact ⟨Nat.toDigits_ne_nil, fun char hchar =>
    Nat.isDigit_of_mem_toDigits (by decide) (by decide) hchar⟩

/-- Zero is the only number whose digits start with a zero. -/
theorem toDigits_eq_zero_cons {n : ℕ}
    (hdigits : Nat.toDigits 10 n = '0' :: rest) : rest = [] := by
  induction n using Nat.strongRecOn generalizing rest with
  | ind n ih =>
      by_cases hsmall : n < 10
      · rw [Nat.toDigits_of_lt_base hsmall, List.cons.injEq] at hdigits
        exact hdigits.2.symm
      · rw [Nat.toDigits_of_base_le (by decide) (Nat.le_of_not_lt hsmall)]
          at hdigits
        cases hhead : Nat.toDigits 10 (n / 10) with
        | nil => exact absurd hhead Nat.toDigits_ne_nil
        | cons first tail =>
            rw [hhead, List.cons_append, List.cons.injEq] at hdigits
            obtain ⟨rfl, -⟩ := hdigits
            have htail := ih (n / 10) (by omega) hhead
            have hvalue := Nat.ofDigitChars_ten_toDigits (n := n / 10)
            rw [hhead, htail] at hvalue
            have hzero : Nat.ofDigitChars 10 ['0'] 0 = 0 := by decide
            omega

theorem isNumberLiteral_toDigits (n : ℕ) :
    isNumberLiteral (Nat.toDigits 10 n) = true := by
  have hall : ∀ char ∈ Nat.toDigits 10 n, char.isDigit = true :=
    fun char hchar =>
      Nat.isDigit_of_mem_toDigits (by decide) (by decide) hchar
  unfold isNumberLiteral
  split
  · rename_i rest hdigits
    have hminus := hall '-' (by rw [hdigits]; exact List.mem_cons_self)
    exact absurd hminus (by decide)
  · unfold isUnsigned
    split
    · rename_i rest hdigits
      rw [toDigits_eq_zero_cons hdigits]
      rfl
    · rw [List.takeWhile_eq_self_iff.mpr hall,
        List.dropWhile_eq_nil_iff.mpr hall, isDigits_toDigits]
      rfl

/-- The natural numbers in decimal notation. -/
def decimal : NumberFormat ℕ where
  text := Nat.toDigits 10
  number text :=
    if isDigits text then some (Nat.ofDigitChars 10 text 0) else none
  finite _ := true
  literal_text value _ := isNumberLiteral_toDigits value
  number_text value _ := by
    rw [if_pos (isDigits_toDigits value), Nat.ofDigitChars_ten_toDigits]

end TsCommons.Foundations.Json
