import TsCommons.Hotreload.RegexLanguage

/-!
# Reading the source of a glob

Every star of the source stands after `[^/]`.  So what is read repeats no
class with a slash, and needs at most one character for each of those in the
source that stand for themselves.
-/

namespace TsCommons.Hotreload

open Foundations

namespace Regex

/-- The class at the start of a text, with what is left. -/
def classAt : Text → CharClass × Text
  | '\\' :: char :: rest => (CharClass.only char, rest)
  | '[' :: '^' :: char :: ']' :: rest => (CharClass.except char, rest)
  | '.' :: rest => (CharClass.any, rest)
  | char :: rest => (CharClass.only char, rest)
  | [] => (CharClass.any, [])

/-- What is read from a class on. -/
def parseClass (fuel : ℕ) (start : CharClass × Text) :
    Option (Regex × Text) :=
  (parse fuel (quantified start.1 start.2).2).map fun parsed =>
    (append (quantified start.1 start.2).1 parsed.1, parsed.2)

variable {fuel n : ℕ} {char : Char} {text rest : Text} {regex : Regex}
  {chars : CharClass} {result : Regex × Text}

theorem parse_of_class (hchar : char ∉ ['*', '(', ')', '?']) :
    parse (fuel + 1) (char :: rest) =
      parseClass fuel (classAt (char :: rest)) := by
  have hne {other : Char} {tail : Text} (hother : other ∈ ['*', '(', ')', '?'])
      (heq : char :: rest = other :: tail) : False :=
    hchar ((List.cons.inj heq).1 ▸ hother)
  rw [parse.eq_def]
  split
  case h_1 hnil => cases hnil
  case h_2 hclose => exact (hne (by decide) hclose).elim
  case h_3 hfuel _ _ => cases hfuel
  case h_4 hopen => exact (hne (by decide) hopen).elim
  case h_5 hstar => exact (hne (by decide) hstar).elim
  case h_6 hmark => exact (hne (by decide) hmark).elim
  case h_7 hfuel _ _ _ _ _ =>
    cases hfuel
    rfl

theorem classAt_of_not_mem (hchar : char ∉ ['[', '\\', '.']) :
    classAt (char :: rest) = (.only char, rest) := by
  have hne {other : Char} {tail : Text} (hother : other ∈ ['[', '\\', '.'])
      (heq : char :: rest = other :: tail) : False :=
    hchar ((List.cons.inj heq).1 ▸ hother)
  unfold classAt
  split
  case h_1 hslash => exact (hne (by decide) hslash).elim
  case h_2 hclass => exact (hne (by decide) hclass).elim
  case h_3 hdot => exact (hne (by decide) hdot).elim
  case h_4 hcons =>
    obtain ⟨rfl, rfl⟩ := List.cons.inj hcons
    rfl
  case h_5 hnil => cases hnil

theorem exists_classAt (hchar : char ∉ ['[', '\\']) (rest : Text) :
    ∃ chars, classAt (char :: rest) = (chars, rest) := by
  by_cases hdot : char = '.'
  · subst hdot
    exact ⟨.any, rfl⟩
  · refine ⟨.only char, classAt_of_not_mem ?_⟩
    simp_all

theorem parse_zero (hchar : char ≠ ')') :
    parse 0 (char :: rest) = none := by
  rw [parse.eq_def]
  split
  case h_1 hnil => cases hnil
  case h_2 heq => exact absurd (List.cons.inj heq).1 hchar
  case h_3 => rfl
  case h_4 hfuel _ => cases hfuel
  case h_5 hfuel _ => cases hfuel
  case h_6 hfuel _ => cases hfuel
  case h_7 hfuel _ _ _ _ _ => cases hfuel

theorem quantified_of_head (hstar : ∀ rest, text ≠ '*' :: rest)
    (hmark : ∀ rest, text ≠ '?' :: rest) :
    quantified chars text = (one chars, text) := by
  unfold quantified
  split
  · exact absurd rfl (hstar _)
  · exact absurd rfl (hstar _)
  · exact absurd rfl (hmark _)
  · exact absurd rfl (hmark _)
  · rfl

theorem quantified_star (hmark : ∀ rest, text ≠ '?' :: rest) :
    quantified chars ('*' :: text) = (many chars, text) := by
  unfold quantified
  split
  case h_1 hlazy => exact absurd (List.cons.inj hlazy).2 (hmark _)
  case h_2 hstar => rw [(List.cons.inj hstar).2]
  case h_3 hquestion => exact absurd (List.cons.inj hquestion).1 (by decide)
  case h_4 hquestion => exact absurd (List.cons.inj hquestion).1 (by decide)
  case h_5 hstar _ _ => exact (hstar _ rfl).elim

/-! ## Sources -/

/-- A text in which stars stand after `[^/]` only, with the number of its
characters that stand for themselves. -/
inductive Source : ℕ → Text → Prop
  | nil : Source 0 []
  | star {n : ℕ} {rest : Text} (hrest : Source n rest) :
      Source n ('[' :: '^' :: '/' :: ']' :: '*' :: rest)
  | escaped {n : ℕ} {rest : Text} (char : Char) (hrest : Source n rest) :
      Source (n + 1) ('\\' :: char :: rest)
  | mark {n : ℕ} {rest : Text} {char : Char} (hchar : char ∈ ['(', ')', '?'])
      (hrest : Source n rest) : Source n (char :: rest)
  | plain {n : ℕ} {rest : Text} {char : Char}
      (hchar : char ∉ ['[', '\\', '*', '(', ')', '?'])
      (hrest : Source n rest) : Source (n + 1) (char :: rest)

theorem Source.of_mark (hsource : Source n (char :: rest))
    (hchar : char ∈ ['(', ')', '?']) : Source n rest := by
  cases hsource with
  | star hrest => exact absurd hchar (by decide)
  | escaped other hrest => exact absurd hchar (by decide)
  | mark _ hrest => exact hrest
  | plain hnot hrest =>
      exact absurd (by simp_all) hnot

theorem Source.ne_star (hsource : Source n text) (rest : Text) :
    text ≠ '*' :: rest := by
  rintro rfl
  cases hsource with
  | mark hchar _ => exact absurd hchar (by decide)
  | plain hchar _ => exact absurd (by decide) hchar

/-- What is read of a source, and the source that is left. -/
def Parsed (n : ℕ) (result : Regex × Text) : Prop :=
  ∃ m, Source m result.2 ∧ result.1.shortest + m ≤ n ∧ result.1.Avoids '/'

theorem parsed_empty (hsource : Source n text) : Parsed n (empty, text) :=
  ⟨n, hsource, (Nat.zero_add n).le, trivial⟩

theorem Parsed.append {first : Regex} {m k : ℕ} (hfirst : first.shortest ≤ k)
    (havoids : first.Avoids '/') (hresult : Parsed m result)
    (hle : k + m ≤ n) : Parsed n (append first result.1, result.2) := by
  obtain ⟨left, hsource, hshortest, havoids'⟩ := hresult
  refine ⟨left, hsource, ?_, havoids, havoids'⟩
  rw [shortest]
  omega

theorem parsed_quantified (hsource : Source n text) :
    Source n (quantified chars text).2 ∧
      (quantified chars text).1.shortest ≤ 1 ∧
        (quantified chars text).1.Avoids '/' := by
  unfold quantified
  split
  · exact absurd rfl (hsource.ne_star _)
  · exact absurd rfl (hsource.ne_star _)
  · exact ⟨(hsource.of_mark (by decide)).of_mark (by decide), Nat.zero_le _,
      trivial⟩
  · exact ⟨hsource.of_mark (by decide), Nat.zero_le _, trivial⟩
  · exact ⟨hsource, le_rfl, trivial⟩

theorem parsed_quantified_star (hsource : Source n text) :
    Source n (quantified (.except '/') ('*' :: text)).2 ∧
      (quantified (.except '/') ('*' :: text)).1.shortest ≤ 0 ∧
        (quantified (.except '/') ('*' :: text)).1.Avoids '/' := by
  by_cases hmark : ∃ rest, text = '?' :: rest
  · obtain ⟨rest, rfl⟩ := hmark
    exact ⟨hsource.of_mark (by decide), le_rfl, rfl⟩
  · rw [quantified_star (not_exists.mp hmark)]
    exact ⟨hsource, le_rfl, rfl⟩

theorem Parsed.of_parseClass {start : CharClass × Text} {k m : ℕ}
    (hparse : parseClass fuel start = some result)
    (hstart : Source m (quantified start.1 start.2).2 ∧
      (quantified start.1 start.2).1.shortest ≤ k ∧
        (quantified start.1 start.2).1.Avoids '/') (hle : k + m ≤ n)
    (ih : ∀ {n text result}, Source n text →
      parse fuel text = some result → Parsed n result) :
    Parsed n result := by
  obtain ⟨hsource, hshortest, havoids⟩ := hstart
  obtain ⟨parsed, hparsed, rfl⟩ := Option.map_eq_some_iff.mp hparse
  exact (ih hsource hparsed).append hshortest havoids hle

/-- What is read after a group. -/
def parseAfter (fuel : ℕ) : Regex × Text → Option (Regex × Text)
  | (group, ')' :: '?' :: '?' :: after) =>
      (parse fuel after).map fun parsed =>
        (append (optional group) parsed.1, parsed.2)
  | (group, ')' :: '?' :: after) =>
      (parse fuel after).map fun parsed =>
        (append (optional group) parsed.1, parsed.2)
  | (group, ')' :: after) =>
      (parse fuel after).map fun parsed =>
        (append group parsed.1, parsed.2)
  | _ => none

theorem parse_group :
    parse (fuel + 1) ('(' :: rest) = (parse fuel rest).bind (parseAfter fuel) :=
  rfl

theorem Parsed.of_parseAfter {group : Regex × Text} (hgroup : Parsed n group)
    (hparse : parseAfter fuel group = some result)
    (ih : ∀ {n text result}, Source n text →
      parse fuel text = some result → Parsed n result) :
    Parsed n result := by
  obtain ⟨m, hsource, hshortest, havoids⟩ := hgroup
  have hclose {char : Char} {rest : Text} (hsource : Source m (char :: rest))
      (hchar : char ∈ ['(', ')', '?']) : Source m rest :=
    hsource.of_mark hchar
  unfold parseAfter at hparse
  split at hparse
  · obtain ⟨parsed, hparsed, rfl⟩ := Option.map_eq_some_iff.mp hparse
    have hafter := hclose (hclose (hclose hsource (by decide)) (by decide))
      (by decide)
    exact (ih hafter hparsed).append (le_refl 0) havoids (by omega)
  · obtain ⟨parsed, hparsed, rfl⟩ := Option.map_eq_some_iff.mp hparse
    have hafter := hclose (hclose hsource (by decide)) (by decide)
    exact (ih hafter hparsed).append (le_refl 0) havoids (by omega)
  · obtain ⟨parsed, hparsed, rfl⟩ := Option.map_eq_some_iff.mp hparse
    exact (ih (hclose hsource (by decide)) hparsed).append le_rfl havoids
      hshortest
  · cases hparse

theorem parsed_of_parse_zero (hsource : Source n text)
    (hparse : parse 0 text = some result) : Parsed n result := by
  cases text with
  | nil =>
      cases hparse
      exact parsed_empty hsource
  | cons char rest =>
      by_cases hclose : char = ')'
      · subst hclose
        cases hparse
        exact parsed_empty hsource
      · rw [parse_zero hclose] at hparse
        cases hparse

theorem parsed_of_parse (hsource : Source n text)
    (hparse : parse fuel text = some result) : Parsed n result := by
  induction fuel generalizing n text result with
  | zero => exact parsed_of_parse_zero hsource hparse
  | succ fuel ih =>
      cases hsource with
      | nil =>
          cases hparse
          exact parsed_empty .nil
      | star hrest =>
          rw [parse_of_class (by decide)] at hparse
          exact Parsed.of_parseClass hparse (parsed_quantified_star hrest)
            (Nat.zero_add _).le ih
      | escaped char hrest =>
          rw [parse_of_class (by decide)] at hparse
          exact Parsed.of_parseClass hparse (parsed_quantified hrest)
            (Nat.add_comm 1 _).le ih
      | @plain _ rest char hchar hrest =>
          simp only [List.mem_cons, List.not_mem_nil, or_false, not_or]
            at hchar
          obtain ⟨chars, hchars⟩ := exists_classAt
            (show char ∉ ['[', '\\'] by simp [hchar]) rest
          rw [parse_of_class (by simp [hchar]), hchars] at hparse
          exact Parsed.of_parseClass hparse (parsed_quantified hrest)
            (Nat.add_comm 1 _).le ih
      | @mark _ rest char hchar hrest =>
          simp only [List.mem_cons, List.not_mem_nil, or_false] at hchar
          rcases hchar with rfl | rfl | rfl
          · rw [parse_group] at hparse
            obtain ⟨group, hgroup, hafter⟩ :=
              Option.bind_eq_some_iff.mp hparse
            exact (ih hrest hgroup).of_parseAfter hafter ih
          · cases hparse
            exact parsed_empty (.mark (by decide) hrest)
          · cases hparse

theorem Source.ofSource (hsource : Source n text)
    (hregex : ofSource text = some regex) :
    regex.shortest ≤ n ∧ regex.Avoids '/' := by
  unfold Regex.ofSource at hregex
  split at hregex
  · rename_i hparse
    cases hregex
    obtain ⟨m, -, hshortest, havoids⟩ := parsed_of_parse hsource hparse
    exact ⟨(Nat.le_add_right _ m).trans hshortest, havoids⟩
  · cases hregex

end Regex

/-! ## Globs that are rewritten character by character -/

def special : Text := ".+^$\x7b\x7d()|[]\\".toList

/-- What a character is escaped to. -/
def escapeChar (char : Char) : Text :=
  if char ∈ special then ['\\', char] else [char]

/-- What a star is rewritten to, or else the character. -/
def starText (char : Char) : Text :=
  if char = '*' then "[^/]*".toList else [char]

def pieceText (char : Char) : Text := (escapeChar char).flatMap starText

def pieceRegex (char : Char) : Regex :=
  if char = '*' then .many (.except '/') else .one (.only char)

def piecesRegex (glob : Text) : Regex :=
  glob.foldr (fun char rest => .append (pieceRegex char) rest) .empty

theorem piecesRegex_cons (char : Char) (glob : Text) :
    piecesRegex (char :: glob) =
      .append (pieceRegex char) (piecesRegex glob) := rfl

theorem not_mem_special :
    '*' ∉ special ∧ '?' ∉ special ∧ '/' ∉ special := by
  decide +kernel

theorem mem_special {char : Char} (hchar : char ∉ special) :
    char ∉ ['[', '\\', '.', '(', ')'] := by
  have hall : ∀ other ∈ ['[', '\\', '.', '(', ')'], other ∈ special :=
    Text.forall_mem_of_all (by decide +kernel)
  exact fun hmem => hchar (hall char hmem)

theorem pieceText_star : pieceText '*' = ['[', '^', '/', ']', '*'] := by
  decide +kernel

theorem pieceText_of_mem {char : Char} (hchar : char ∈ special) :
    pieceText char = ['\\', char] := by
  have hne : char ≠ '*' := by
    rintro rfl
    exact not_mem_special.1 hchar
  have hslash : ('\\' : Char) ≠ '*' := by decide
  simp [pieceText, escapeChar, hchar, starText, hne]

theorem pieceText_of_not_mem {char : Char} (hchar : char ∉ special)
    (hne : char ≠ '*') : pieceText char = [char] := by
  simp [pieceText, escapeChar, hchar, starText, hne]

theorem mem_or_plain (char : Char) :
    char = '*' ∨ char ∈ special ∨ char ≠ '*' ∧ char ∉ special := by
  by_cases hstar : char = '*'
  · exact Or.inl hstar
  · by_cases hmem : char ∈ special
    · exact Or.inr (Or.inl hmem)
    · exact Or.inr (Or.inr ⟨hstar, hmem⟩)

/-- The number of characters that a match has to have. -/
def needed (glob : Text) : ℕ :=
  glob.countP fun char => decide (char ≠ '*' ∧ char ≠ '?')

theorem needed_cons_of_ne {char : Char} (hstar : char ≠ '*')
    (hmark : char ≠ '?') (glob : Text) :
    needed (char :: glob) = needed glob + 1 :=
  List.countP_cons_of_pos (by simp [hstar, hmark])

theorem needed_cons_of_mem {char : Char} (hchar : char ∈ ['*', '?'])
    (glob : Text) : needed (char :: glob) = needed glob :=
  List.countP_cons_of_neg (by
    simp only [List.mem_cons, List.not_mem_nil, or_false] at hchar
    rcases hchar with rfl | rfl
    · decide
    · decide)

theorem source_pieces (glob : Text) :
    Regex.Source (needed glob) (glob.flatMap pieceText) := by
  induction glob with
  | nil => exact .nil
  | cons char glob ih =>
      rw [List.flatMap_cons]
      rcases mem_or_plain char with rfl | hmem | ⟨hstar, hnot⟩
      · rw [pieceText_star, needed_cons_of_mem (by decide)]
        exact .star ih
      · rw [pieceText_of_mem hmem]
        have hne (other : Char) (hother : other ∉ special) : char ≠ other := by
          rintro rfl
          exact hother hmem
        rw [needed_cons_of_ne (hne '*' not_mem_special.1)
          (hne '?' not_mem_special.2.1)]
        exact .escaped char ih
      · rw [pieceText_of_not_mem hnot hstar]
        by_cases hmark : char = '?'
        · subst hmark
          rw [needed_cons_of_mem (by decide)]
          exact .mark (by decide) ih
        · rw [needed_cons_of_ne hstar hmark]
          have hplain := mem_special hnot
          exact .plain (by simp_all) ih

theorem pieces_ne_mark {glob : Text} (hglob : '?' ∉ glob) (rest : Text) :
    glob.flatMap pieceText ≠ '?' :: rest := by
  intro heq
  cases glob with
  | nil => cases heq
  | cons char glob =>
      rw [List.flatMap_cons] at heq
      rcases mem_or_plain char with rfl | hmem | ⟨hstar, hnot⟩
      · rw [pieceText_star] at heq
        exact absurd (List.cons.inj heq).1 (by decide)
      · rw [pieceText_of_mem hmem] at heq
        exact absurd (List.cons.inj heq).1 (by decide)
      · rw [pieceText_of_not_mem hnot hstar] at heq
        exact hglob ((List.cons.inj heq).1 ▸ List.mem_cons_self)

theorem parse_pieceText {char : Char} (hchar : char ≠ '?') {rest : Text}
    (hstar : ∀ tail, rest ≠ '*' :: tail) (hmark : ∀ tail, rest ≠ '?' :: tail)
    (fuel : ℕ) : Regex.parse (fuel + 1) (pieceText char ++ rest) =
      (Regex.parse fuel rest).map fun parsed =>
        (.append (pieceRegex char) parsed.1, parsed.2) := by
  rcases mem_or_plain char with rfl | hmem | ⟨hne, hnot⟩
  · have hclass : Regex.classAt ('[' :: (['^', '/', ']', '*'] ++ rest)) =
        (.except '/', '*' :: rest) := rfl
    rw [pieceText_star, List.cons_append, Regex.parse_of_class (by decide),
      hclass, Regex.parseClass, Regex.quantified_star hmark]
    rfl
  · have hne : char ≠ '*' := by
      rintro rfl
      exact not_mem_special.1 hmem
    have hclass : Regex.classAt ('\\' :: ([char] ++ rest)) =
        (.only char, rest) := rfl
    rw [pieceText_of_mem hmem, List.cons_append,
      Regex.parse_of_class (by decide), hclass, Regex.parseClass,
      Regex.quantified_of_head hstar hmark, pieceRegex, if_neg hne]
  · have hplain := mem_special hnot
    rw [pieceText_of_not_mem hnot hne, List.singleton_append,
      Regex.parse_of_class (by simp_all), Regex.classAt_of_not_mem
        (by simp_all), Regex.parseClass, Regex.quantified_of_head hstar hmark,
      pieceRegex, if_neg hne]

/-- A glob without question marks is read one character after another. -/
theorem parse_pieces {glob : Text} (hglob : '?' ∉ glob) {fuel : ℕ}
    (hfuel : glob.length ≤ fuel) :
    Regex.parse fuel (glob.flatMap pieceText) =
      some (piecesRegex glob, []) := by
  induction glob generalizing fuel with
  | nil =>
      cases fuel with
      | zero => rfl
      | succ fuel => rfl
  | cons char glob ih =>
      obtain ⟨fuel, rfl⟩ : ∃ less, fuel = less + 1 :=
        Nat.exists_eq_add_of_le' ((Nat.succ_pos _).trans_le hfuel)
      rw [List.mem_cons, not_or] at hglob
      rw [List.flatMap_cons, parse_pieceText (Ne.symm hglob.1)
        (source_pieces glob).ne_star (pieces_ne_mark hglob.2),
        ih hglob.2 (Nat.le_of_succ_le_succ hfuel)]
      rfl

theorem ofSource_pieces {glob : Text} (hglob : '?' ∉ glob) :
    Regex.ofSource (glob.flatMap pieceText) = some (piecesRegex glob) := by
  have hlength : glob.length ≤ (glob.flatMap pieceText).length := by
    clear hglob
    induction glob with
    | nil => exact le_rfl
    | cons char glob ih =>
        have hpiece : 1 ≤ (pieceText char).length := by
          rcases mem_or_plain char with rfl | hmem | ⟨hstar, hnot⟩
          · rw [pieceText_star]
            decide
          · rw [pieceText_of_mem hmem]
            exact Nat.succ_pos _
          · rw [pieceText_of_not_mem hnot hstar]
            exact Nat.succ_pos _
        rw [List.flatMap_cons, List.length_append, List.length_cons]
        omega
  rw [Regex.ofSource, parse_pieces hglob (hlength.trans (Nat.le_succ _))]

/-! ## Every glob gives a source -/

/-- A text in which special characters stand after a backslash, except for
those that the rewriting has put in. -/
inductive Escaped : Text → Prop
  | nil : Escaped []
  | escaped {char : Char} {rest : Text} (hchar : char ∈ special)
      (hrest : Escaped rest) : Escaped ('\\' :: char :: rest)
  | other {char : Char} {rest : Text} (hchar : char ∉ ['[', '\\'])
      (hrest : Escaped rest) : Escaped (char :: rest)

variable {text rest front : Text}

theorem Escaped.of_cons {char : Char} (hescaped : Escaped (char :: rest))
    (hchar : char ≠ '\\') : Escaped rest := by
  cases hescaped with
  | escaped _ _ => exact absurd rfl hchar
  | other _ hrest => exact hrest

theorem Escaped.append (hfront : Escaped front) (hrest : Escaped rest) :
    Escaped (front ++ rest) := by
  induction hfront with
  | nil => exact hrest
  | escaped hchar _ ih => exact .escaped hchar ih
  | other hchar _ ih => exact .other hchar ih

theorem Escaped.of_append {char : Char} (hchar : char ∉ special)
    (hescaped : Escaped (front ++ char :: rest)) : Escaped front := by
  generalize heq : front ++ char :: rest = whole at hescaped
  induction hescaped generalizing front with
  | nil => exact absurd heq (by simp)
  | escaped hmem _ ih =>
      cases front with
      | nil => exact .nil
      | cons first front =>
          obtain ⟨rfl, htail⟩ := List.cons.inj heq
          cases front with
          | nil =>
              rw [(List.cons.inj htail).1] at hchar
              exact absurd hmem hchar
          | cons second front =>
              obtain ⟨rfl, hlast⟩ := List.cons.inj htail
              exact .escaped hmem (ih hlast)
  | other hnot _ ih =>
      cases front with
      | nil => exact .nil
      | cons first front =>
          obtain ⟨rfl, htail⟩ := List.cons.inj heq
          exact .other hnot (ih htail)

theorem escaped_escapeSpecial (glob : Text) :
    Escaped (glob.flatMap escapeChar) := by
  induction glob with
  | nil => exact .nil
  | cons char glob ih =>
      rw [List.flatMap_cons, escapeChar]
      by_cases hmem : char ∈ special
      · rw [if_pos hmem]
        exact .escaped hmem ih
      · rw [if_neg hmem]
        have hplain := mem_special hmem
        exact .other (by simp_all) ih

/-- What the rewriting puts in. -/
theorem escaped_of_all
    (hall : (text.all fun char => decide (char ∉ ['[', '\\'])) = true) :
    Escaped text := by
  have hplain : ∀ char ∈ text, char ∉ ['[', '\\'] :=
    Text.forall_mem_of_all hall
  clear hall
  induction text with
  | nil => exact .nil
  | cons char text ih =>
      obtain ⟨hchar, hrest⟩ := List.forall_mem_cons.mp hplain
      exact .other hchar (ih hrest)

theorem replaceAll_skip (pattern replacement : Text) (skip : ℕ)
    (text : Text) : replaceAll pattern replacement skip text =
      replaceAll pattern replacement 0 (text.drop skip) := by
  induction text generalizing skip with
  | nil =>
      rw [List.drop_nil]
      cases skip with
      | zero => rfl
      | succ skip => rfl
  | cons char text ih =>
      cases skip with
      | zero => rfl
      | succ skip => exact ih skip

theorem replaceAll_append {pattern : Text} (hpattern : pattern ≠ [])
    (replacement text : Text) :
    replaceAll pattern replacement 0 (pattern ++ text) =
      replacement ++ replaceAll pattern replacement 0 text := by
  obtain ⟨char, tail, rfl⟩ := List.exists_cons_of_ne_nil hpattern
  rw [List.cons_append, replaceAll, if_pos]
  · rw [replaceAll_skip]
    simp
  · simp

theorem replaceAll_cons {pattern : Text} {char : Char}
    (hnot : ¬ pattern <+: char :: text) (replacement : Text) :
    replaceAll pattern replacement 0 (char :: text) =
      char :: replaceAll pattern replacement 0 text := by
  rw [replaceAll, if_neg]
  rwa [List.isPrefixOf_iff_prefix]

theorem inner_eq : "/**/".toList = ['/', '*', '*', '/'] := by decide +kernel

theorem not_inner_of_ne {char : Char} (hchar : char ≠ '/') (rest : Text) :
    ¬ "/**/".toList <+: char :: rest := by
  rw [inner_eq, List.cons_prefix_cons]
  exact fun hpair => hchar hpair.1.symm

theorem escaped_replaceInner (hescaped : Escaped text) :
    Escaped (replaceInner text) := by
  have hstep : ∀ size, ∀ text : Text, text.length ≤ size → Escaped text →
      Escaped (replaceAll "/**/".toList "(/.*)?/".toList 0 text) := by
    intro size
    induction size with
    | zero =>
        intro text hlength _
        rw [List.length_eq_zero_iff.mp (Nat.le_zero.mp hlength)]
        exact .nil
    | succ size ih =>
        intro text hlength hescaped
        cases hescaped with
        | nil => exact .nil
        | @escaped char rest hmem hrest =>
            have hne : char ≠ '/' := by
              rintro rfl
              exact not_mem_special.2.2 hmem
            rw [replaceAll_cons (not_inner_of_ne (by decide) _),
              replaceAll_cons (not_inner_of_ne hne _)]
            refine .escaped hmem (ih rest ?_ hrest)
            simp only [List.length_cons] at hlength
            omega
        | @other char rest hchar hrest =>
            by_cases hmatch : "/**/".toList <+: char :: rest
            · obtain ⟨tail, htail⟩ := hmatch
              have hescaped : Escaped ("/**/".toList ++ tail) :=
                htail ▸ .other hchar hrest
              rw [← htail, List.length_append, inner_eq] at hlength
              rw [← htail, replaceAll_append (by decide +kernel)]
              rw [inner_eq] at hescaped
              have hrest := (((hescaped.of_cons (by decide)).of_cons
                (by decide)).of_cons (by decide)).of_cons (by decide)
              refine (escaped_of_all (by decide +kernel)).append
                (ih tail ?_ hrest)
              simp only [List.length_cons] at hlength
              omega
            · rw [replaceAll_cons hmatch]
              exact .other hchar (ih rest (Nat.le_of_succ_le_succ hlength)
                hrest)
  exact hstep text.length text le_rfl hescaped

theorem escaped_replaceLast (hescaped : Escaped text) :
    Escaped (replaceLast text) := by
  have hlast : "/**".toList = ['/', '*', '*'] := by decide +kernel
  unfold replaceLast
  split
  · rename_i hsuffix
    obtain ⟨front, rfl⟩ := List.isSuffixOf_iff_suffix.mp hsuffix
    have hfront : Escaped front := by
      rw [hlast] at hescaped
      exact hescaped.of_append not_mem_special.2.2
    rw [List.length_append, hlast, List.length_cons, List.length_cons,
      List.length_cons, List.length_nil, Nat.add_sub_cancel,
      List.take_left']
    · exact hfront.append (escaped_of_all (by decide +kernel))
    · rfl
  · exact hescaped

theorem escaped_replaceFirst (hescaped : Escaped text) :
    Escaped (replaceFirst text) := by
  have hfirst : "**/".toList = ['*', '*', '/'] := by decide +kernel
  unfold replaceFirst
  split
  · rename_i hmatch
    obtain ⟨tail, rfl⟩ := List.isPrefixOf_iff_prefix.mp hmatch
    rw [hfirst] at hescaped ⊢
    exact (escaped_of_all (by decide +kernel)).append
      (((hescaped.of_cons (by decide)).of_cons (by decide)).of_cons
        (by decide))
  · exact hescaped

/-- After the last step every star stands after `[^/]`. -/
theorem Escaped.source (hescaped : Escaped text) :
    ∃ n, Regex.Source n (text.flatMap starText) := by
  induction hescaped with
  | nil => exact ⟨0, .nil⟩
  | @escaped char rest hchar hrest ih =>
      obtain ⟨n, hsource⟩ := ih
      have hstar : char ≠ '*' := by
        rintro rfl
        exact not_mem_special.1 hchar
      have hslash : ('\\' : Char) ≠ '*' := by decide
      rw [List.flatMap_cons, List.flatMap_cons, starText, if_neg hslash,
        starText, if_neg hstar]
      exact ⟨n + 1, .escaped char hsource⟩
  | @other char rest hchar hrest ih =>
      obtain ⟨n, hsource⟩ := ih
      rw [List.flatMap_cons]
      by_cases hstar : char = '*'
      · subst hstar
        have htext : starText '*' = ['[', '^', '/', ']', '*'] := by
          decide +kernel
        rw [htext]
        exact ⟨n, .star hsource⟩
      · rw [starText, if_neg hstar]
        by_cases hmark : char ∈ ['(', ')', '?']
        · exact ⟨n, .mark hmark hsource⟩
        · exact ⟨n + 1, .plain (by simp_all) hsource⟩

theorem exists_source (glob : Text) : ∃ n, Regex.Source n (globSource glob) :=
  (escaped_replaceFirst (escaped_replaceLast (escaped_replaceInner
    (escaped_escapeSpecial glob)))).source

end TsCommons.Hotreload
