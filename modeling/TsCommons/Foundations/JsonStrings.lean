import TsCommons.Foundations.JsonRoundTrip

/-!
# Lists of strings after a separator

A text of nested lists of strings has colons and backslashes only inside of
its strings.  Where such a text follows a colon, the colon is found again: two
texts that end together and of which one starts inside a string of the other
would disagree on where the strings end.
-/

namespace TsCommons.Foundations.Json

inductive Lexing
  | outside
  | inside
  | escaped
deriving DecidableEq

/-- The place after one more character, unless it cannot stand there. -/
def lexChar : Lexing → Char → Option Lexing
  | .outside, char =>
      if char = '"' then some .inside
      else if char = '\\' ∨ char = ':' then none
      else some .outside
  | .inside, char =>
      if char = '"' then some .outside
      else if char = '\\' then some .escaped
      else some .inside
  | .escaped, _ => some .inside

def lex (text : Text) (place : Lexing) : Option Lexing :=
  text.foldlM lexChar place

/-- Strings are closed in the text, and colons occur only in them. -/
def Closed (text : Text) : Prop := lex text .outside = some .outside

variable {N : Type} {format : NumberFormat N} {text other : Text}
  {place : Lexing}

theorem lex_append (text other : Text) (place : Lexing) :
    lex (text ++ other) place = (lex text place).bind (lex other) :=
  List.foldlM_append

theorem lex_cons (char : Char) (text : Text) (place : Lexing) :
    lex (char :: text) place = (lexChar place char).bind (lex text) :=
  List.foldlM_cons

theorem lex_singleton (char : Char) (place : Lexing) :
    lex [char] place = lexChar place char := by
  rw [lex_cons]
  cases lexChar place char with
  | none => rfl
  | some next => rfl

theorem Closed.append (htext : Closed text) (hother : Closed other) :
    Closed (text ++ other) := by
  rw [Closed, lex_append, htext]
  exact hother

theorem closed_nil : Closed [] := rfl

/-! ## Written values -/

theorem lexChar_inside {char : Char} (hquote : char ≠ '"')
    (hbackslash : char ≠ '\\') : lexChar .inside char = some .inside := by
  rw [lexChar, if_neg hquote, if_neg hbackslash]

theorem digitChar_plain : ∀ digit < 16,
    Nat.digitChar digit ≠ '"' ∧ Nat.digitChar digit ≠ '\\' := by
  decide

theorem lex_escapeChar (char : Char) :
    lex (escapeChar char) .inside = some .inside := by
  rcases escapeChar_cases char with
    ⟨letter, hescape, -⟩ | ⟨hcontrol, hescape⟩ |
      ⟨-, hquote, hbackslash, hescape⟩
  · rw [hescape]
    rfl
  · obtain ⟨hhighQuote, hhighBackslash⟩ :=
      digitChar_plain (char.toNat / 16) (by omega)
    obtain ⟨hlowQuote, hlowBackslash⟩ :=
      digitChar_plain (char.toNat % 16) (by omega)
    have hstart : lex ['\\', 'u', '0', '0'] .inside = some .inside := rfl
    rw [hescape]
    change lex (['\\', 'u', '0', '0'] ++ [_, _]) _ = _
    rw [lex_append, hstart, Option.bind_some, lex_cons,
      lexChar_inside hhighQuote hhighBackslash, Option.bind_some,
      lex_singleton, lexChar_inside hlowQuote hlowBackslash]
  · rw [hescape, lex_singleton, lexChar_inside hquote hbackslash]

theorem lex_flatMap_escapeChar (text : Text) :
    lex (text.flatMap escapeChar) .inside = some .inside := by
  induction text with
  | nil => rfl
  | cons char rest ih =>
      rw [List.flatMap_cons, lex_append, lex_escapeChar]
      exact ih

theorem closed_quote (text : Text) : Closed (quote text) := by
  have hopen : lexChar .outside '"' = some .inside := rfl
  rw [Closed, quote, lex_cons, hopen, Option.bind_some, lex_append,
    lex_flatMap_escapeChar]
  rfl

mutual

/-- Lists of lists of strings, to any depth. -/
def OfStrings : Json N → Prop
  | .string _ => True
  | .array items => ItemsOfStrings items
  | _ => False

def ItemsOfStrings : List (Json N) → Prop
  | [] => True
  | item :: rest => OfStrings item ∧ ItemsOfStrings rest

end

mutual

theorem closed_stringify : ∀ {value : Json N}, OfStrings value →
    Closed (stringify format value)
  | .string text, _ => by
      rw [stringify]
      exact closed_quote text
  | .array items, hitems => by
      rw [stringify]
      have hopen : Closed ['['] := rfl
      have hclose : Closed [']'] := rfl
      exact hopen.append
        ((closed_stringifyItems closed_nil hitems).append hclose)

theorem closed_stringifyItems : ∀ {separator : Text} {items : List (Json N)},
    Closed separator → ItemsOfStrings items →
      Closed (stringifyItems format separator items)
  | _, [], _, _ => by
      rw [stringifyItems]
      exact closed_nil
  | separator, item :: rest, hseparator, hitems => by
      have hcomma : Closed [','] := rfl
      rw [stringifyItems]
      exact hseparator.append ((closed_stringify hitems.1).append
        (closed_stringifyItems hcomma hitems.2))

end

mutual

theorem wellFormed_of_ofStrings : ∀ {value : Json N}, OfStrings value →
    WellFormed format value
  | .string _, _ => trivial
  | .array _, hitems => wellFormedItems_of_itemsOfStrings hitems

theorem wellFormedItems_of_itemsOfStrings : ∀ {items : List (Json N)},
    ItemsOfStrings items → WellFormedItems format items
  | [], _ => trivial
  | _ :: _, hitems =>
      ⟨wellFormed_of_ofStrings hitems.1,
        wellFormedItems_of_itemsOfStrings hitems.2⟩

end

/-! ## After a separator -/

/-- One inside of a string and one outside. -/
def Opposite (place place' : Lexing) : Prop :=
  place = .outside ∧ place' = .inside ∨ place = .inside ∧ place' = .outside

theorem Opposite.symm {place place' : Lexing}
    (hopposite : Opposite place place') : Opposite place' place :=
  (Or.symm hopposite).imp And.symm And.symm

theorem opposite_lexChar {char : Char} {next next' : Lexing}
    (houtside : lexChar .outside char = some next)
    (hinside : lexChar .inside char = some next') : Opposite next next' := by
  by_cases hquote : char = '"'
  · subst hquote
    cases houtside
    cases hinside
    exact Or.inr ⟨rfl, rfl⟩
  · simp only [lexChar, if_neg hquote] at houtside hinside
    split at houtside
    · cases houtside
    next hplain =>
      rw [if_neg fun heq => hplain (Or.inl heq)] at hinside
      cases houtside
      cases hinside
      exact Or.inl ⟨rfl, rfl⟩

/-- A text that is read from inside and from outside of a string ends at
different places. -/
theorem Opposite.lex {place place' last last' : Lexing}
    (hopposite : Opposite place place')
    (hlast : Json.lex text place = some last)
    (hlast' : Json.lex text place' = some last') : Opposite last last' := by
  induction text generalizing place place' with
  | nil =>
      cases hlast
      cases hlast'
      exact hopposite
  | cons char rest ih =>
      rw [lex_cons, Option.bind_eq_some_iff] at hlast hlast'
      obtain ⟨next, hchar, hrest⟩ := hlast
      obtain ⟨next', hchar', hrest'⟩ := hlast'
      refine ih ?_ hrest hrest'
      rcases hopposite with ⟨rfl, rfl⟩ | ⟨rfl, rfl⟩
      · exact opposite_lexChar hchar hchar'
      · exact (opposite_lexChar hchar' hchar).symm

/-- A colon that is read leads into a string. -/
theorem lexChar_colon {next : Lexing}
    (hcolon : lexChar place ':' = some next) : next = .inside := by
  cases place with
  | outside => cases hcolon
  | inside => exact (Option.some.inj hcolon).symm
  | escaped => exact (Option.some.inj hcolon).symm

theorem Closed.not_after_colon {before : Text}
    (htext : Closed text) : ¬ Closed (before ++ ':' :: text) := by
  intro hall
  rw [Closed, lex_append, Option.bind_eq_some_iff] at hall
  obtain ⟨place, -, hrest⟩ := hall
  rw [lex_cons, Option.bind_eq_some_iff] at hrest
  obtain ⟨next, hcolon, hlast⟩ := hrest
  rw [lexChar_colon hcolon] at hlast
  rcases Opposite.lex (Or.inl ⟨rfl, rfl⟩) htext hlast with
    ⟨-, hsame⟩ | ⟨hsame, -⟩
  · cases hsame
  · cases hsame

/-- What stands before the colon and what follows it are read back. -/
theorem Closed.colon_injective {before before' : Text} (htext : Closed text)
    (hother : Closed other)
    (heq : before ++ ':' :: text = before' ++ ':' :: other) :
    before = before' ∧ text = other := by
  rcases List.append_eq_append_iff.mp heq with
    ⟨middle, hbefore, hmiddle⟩ | ⟨middle, hbefore, hmiddle⟩
  · cases middle with
    | nil =>
        rw [List.append_nil] at hbefore
        exact ⟨hbefore.symm, (List.cons.inj hmiddle).2⟩
    | cons char rest =>
        have hrest := (List.cons.inj hmiddle).2
        exact absurd (hrest ▸ htext) hother.not_after_colon
  · cases middle with
    | nil =>
        rw [List.append_nil] at hbefore
        exact ⟨hbefore, (List.cons.inj hmiddle).2.symm⟩
    | cons char rest =>
        have hrest := (List.cons.inj hmiddle).2
        exact absurd (hrest ▸ hother) htext.not_after_colon

end TsCommons.Foundations.Json
