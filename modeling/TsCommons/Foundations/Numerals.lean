import TsCommons.Foundations.Text

/-!
# Numbers at the start of a text

`parseInt` reads the decimal digits with which a text starts, after white
space and a sign, and does not look at what comes behind them.
-/

namespace TsCommons.Foundations

namespace Text

def digitValue (char : Char) : ℕ := char.toNat - '0'.toNat

def digitsValue (digits : Text) : ℕ :=
  digits.foldl (fun value digit => 10 * value + digitValue digit) 0

def IsDecimal (text : Text) : Prop :=
  text ≠ [] ∧ ∀ char ∈ text, char.isDigit = true

instance IsDecimal.decidable (text : Text) : Decidable (IsDecimal text) :=
  have := List.decidableBAll (fun char : Char => char.isDigit = true) text
  inferInstanceAs (Decidable (text ≠ [] ∧ ∀ char ∈ text, char.isDigit = true))

def parseDigits (text : Text) : Option ℤ :=
  let digits := text.takeWhile Char.isDigit
  if digits = [] then none else some (digitsValue digits)

/-- `parseInt(text, 10)`, where `none` is `NaN`. -/
def parseInt (text : Text) : Option ℤ :=
  match text.dropWhile isWhiteSpace with
  | '-' :: rest => (parseDigits rest).map fun value => -value
  | '+' :: rest => parseDigits rest
  | rest => parseDigits rest

/-- A decimal number, perhaps after a plus sign, and perhaps with more behind
it. -/
def StartsWithNumber (text : Text) (value : ℕ) : Prop :=
  ∃ digits tail, IsDecimal digits ∧ tail.head?.all (!·.isDigit) = true ∧
    digitsValue digits = value ∧
      (text = digits ++ tail ∨ text = '+' :: (digits ++ tail))

variable {text digits tail : Text} {char : Char} {value : ℕ} {number : ℤ}

theorem parseDigits_eq_some_iff :
    parseDigits text = some number ↔
      ∃ digits tail, IsDecimal digits ∧ tail.head?.all (!·.isDigit) = true ∧
        (digitsValue digits : ℤ) = number ∧ text = digits ++ tail := by
  rw [parseDigits]
  constructor
  · intro hparsed
    split at hparsed
    · cases hparsed
    · rename_i hsome
      rw [Option.some.injEq] at hparsed
      refine ⟨text.takeWhile Char.isDigit, text.dropWhile Char.isDigit,
        ⟨hsome, fun _ => List.mem_takeWhile_imp⟩, ?_, hparsed,
        List.takeWhile_append_dropWhile.symm⟩
      have hhead := List.head?_dropWhile_not Char.isDigit text
      cases hdrop : (text.dropWhile Char.isDigit).head? with
      | none => rfl
      | some first =>
          rw [hdrop] at hhead
          simpa using hhead
  · rintro ⟨digits, tail, ⟨hsome, hdigits⟩, htail, rfl, rfl⟩
    have hnone : tail.takeWhile Char.isDigit = [] := by
      cases tail with
      | nil => rfl
      | cons first rest =>
          have hfirst : ¬ first.isDigit = true := by simpa using htail
          exact List.takeWhile_cons_of_neg hfirst
    rw [List.takeWhile_append_of_pos hdigits, hnone, List.append_nil,
      if_neg hsome]

theorem isWhiteSpace_of_isDigit (hdigit : char.isDigit = true) :
    isWhiteSpace char = false := by
  have hrange : 48 ≤ char.toNat ∧ char.toNat ≤ 57 :=
    Char.isDigit_iff_toNat.mp hdigit
  simp only [isWhiteSpace, Bool.or_eq_false_iff, Bool.and_eq_false_iff,
    decide_eq_false_iff_not]
  omega

theorem IsDecimal.isWhiteSpace (hdecimal : IsDecimal text) :
    ∀ char ∈ text, Text.isWhiteSpace char = false :=
  fun char hchar => isWhiteSpace_of_isDigit (hdecimal.2 char hchar)

theorem IsDecimal.not_mem (hdecimal : IsDecimal text)
    (hother : char.isDigit = false) : char ∉ text := by
  intro hmem
  rw [hdecimal.2 char hmem] at hother
  cases hother

theorem IsDecimal.head (hdecimal : IsDecimal text) :
    ∃ first rest, text = first :: rest ∧ first.isDigit = true := by
  cases text with
  | nil => exact absurd rfl hdecimal.1
  | cons first rest =>
      exact ⟨first, rest, rfl, hdecimal.2 first List.mem_cons_self⟩

theorem IsDecimal.startsWithNumber (hdecimal : IsDecimal text) :
    StartsWithNumber text (digitsValue text) :=
  ⟨text, [], hdecimal, rfl, rfl, Or.inl (List.append_nil text).symm⟩

/-- A text without a hyphen at its start is read as the number that it starts
with. -/
theorem parseInt_eq_some_iff
    (hspace : ∀ char ∈ text, isWhiteSpace char = false)
    (hminus : text.head? ≠ some '-') :
    parseInt text = some number ↔
      ∃ value : ℕ, (value : ℤ) = number ∧ StartsWithNumber text value := by
  have htext : text.dropWhile isWhiteSpace = text := by
    cases text with
    | nil => rfl
    | cons first rest =>
        exact List.dropWhile_cons_of_neg
          (by simp [hspace first List.mem_cons_self])
  rw [parseInt, htext]
  split
  · exact absurd rfl hminus
  · rename_i rest _
    rw [parseDigits_eq_some_iff]
    constructor
    · rintro ⟨digits, tail, hdecimal, htail, hvalue, rfl⟩
      exact ⟨_, hvalue, digits, tail, hdecimal, htail, rfl, Or.inr rfl⟩
    · rintro ⟨value, hvalue, digits, tail, hdecimal, htail, rfl, hplain | hplus⟩
      · obtain ⟨first, others, rfl, hfirst⟩ := hdecimal.head
        rw [List.cons_append] at hplain
        cases hplain
        cases hfirst
      · cases hplus
        exact ⟨digits, tail, hdecimal, htail, hvalue, rfl⟩
  · rename_i hnominus hnoplus
    rw [parseDigits_eq_some_iff]
    constructor
    · rintro ⟨digits, tail, hdecimal, htail, hvalue, rfl⟩
      exact ⟨_, hvalue, digits, tail, hdecimal, htail, rfl, Or.inl rfl⟩
    · rintro ⟨value, hvalue, digits, tail, hdecimal, htail, rfl, hplain | hplus⟩
      · exact ⟨digits, tail, hdecimal, htail, hvalue, hplain⟩
      · exact absurd hplus (hnoplus _)

theorem StartsWithNumber.head_ne (hstarts : StartsWithNumber text value)
    (hother : char.isDigit = false) (hplus : char ≠ '+') :
    text.head? ≠ some char := by
  obtain ⟨digits, tail, hdecimal, -, -, rfl | rfl⟩ := hstarts
  · obtain ⟨first, rest, rfl, hfirst⟩ := hdecimal.head
    intro hhead
    rw [List.cons_append, List.head?_cons, Option.some.injEq] at hhead
    rw [hhead, hother] at hfirst
    cases hfirst
  · intro hhead
    rw [List.head?_cons, Option.some.injEq] at hhead
    exact hplus hhead.symm

/-- Behind a hyphen there is no positive number. -/
theorem exists_pos_parseInt_iff
    (hspace : ∀ char ∈ text, isWhiteSpace char = false) :
    (parseInt text = some number ∧ 0 < number) ↔
      ∃ value : ℕ, (value : ℤ) = number ∧ 0 < value ∧
        StartsWithNumber text value := by
  by_cases hminus : text.head? = some '-'
  · constructor
    · rintro ⟨hparsed, hpos⟩
      obtain ⟨rest, rfl⟩ := List.head?_eq_some_iff.mp hminus
      have hdrop : ('-' :: rest).dropWhile isWhiteSpace = '-' :: rest :=
        List.dropWhile_cons_of_neg (by decide)
      rw [parseInt, hdrop] at hparsed
      obtain ⟨read, hread, rfl⟩ := Option.map_eq_some_iff.mp hparsed
      obtain ⟨digits, tail, -, -, rfl, -⟩ := parseDigits_eq_some_iff.mp hread
      omega
    · rintro ⟨value, -, -, hstarts⟩
      exact absurd hminus (hstarts.head_ne rfl (by decide))
  · rw [parseInt_eq_some_iff hspace hminus]
    constructor
    · rintro ⟨⟨value, rfl, hstarts⟩, hpos⟩
      exact ⟨value, rfl, by omega, hstarts⟩
    · rintro ⟨value, rfl, hpos, hstarts⟩
      exact ⟨⟨value, rfl, hstarts⟩, by omega⟩

end Text

end TsCommons.Foundations
