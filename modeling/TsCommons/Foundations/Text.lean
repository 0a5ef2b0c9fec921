import Mathlib.Data.List.DropRight
import Mathlib.Tactic.Common

/-!
# Texts, their words and their lines

A text is the list of its characters.  It is trimmed of the characters that
ECMAScript takes for white space, and split into words at them, or into lines
either at line feeds only or at any of the three line ends of an event stream.
-/

namespace TsCommons.Foundations

abbrev Text := List Char

namespace Text

/-! ## White space -/

/-- `WhiteSpace` and `LineTerminator` of ECMAScript. -/
def isWhiteSpace (char : Char) : Bool :=
  let code := char.toNat
  (9 ≤ code && code ≤ 13) || code = 0x20 || code = 0xA0 || code = 0x1680 ||
    (0x2000 ≤ code && code ≤ 0x200A) || code = 0x2028 || code = 0x2029 ||
    code = 0x202F || code = 0x205F || code = 0x3000 || code = 0xFEFF

def trim (text : Text) : Text :=
  (text.dropWhile isWhiteSpace).rdropWhile isWhiteSpace

def Trimmed (text : Text) : Prop := trim text = text

instance Trimmed.decidable (text : Text) : Decidable (Trimmed text) :=
  inferInstanceAs (Decidable (trim text = text))

variable {text before rest : Text} {char : Char}

/-- A property of all characters of a text, by evaluation. -/
theorem forall_mem_of_all {P : Char → Prop} [DecidablePred P]
    (hall : (text.all fun char => decide (P char)) = true) :
    ∀ char ∈ text, P char :=
  fun char hchar => of_decide_eq_true (List.all_eq_true.mp hall char hchar)

theorem trim_cons_of_isWhiteSpace (hspace : isWhiteSpace char = true) :
    trim (char :: text) = trim text := by
  rw [trim, List.dropWhile_cons_of_pos hspace, trim]

theorem trimmed_of_forall (hall : ∀ char ∈ text, isWhiteSpace char = false) :
    Trimmed text := by
  have hstart : text.dropWhile isWhiteSpace = text := by
    cases text with
    | nil => rfl
    | cons first rest =>
        exact List.dropWhile_cons_of_neg (by simp [hall first])
  rw [Trimmed, trim, hstart, List.rdropWhile_eq_self_iff]
  intro hne
  simp [hall _ (List.getLast_mem hne)]

theorem isWhiteSpace_of_isAlphanum (halphanum : char.isAlphanum = true) :
    isWhiteSpace char = false := by
  have hcode : (65 ≤ char.toNat ∧ char.toNat ≤ 90 ∨
      97 ≤ char.toNat ∧ char.toNat ≤ 122) ∨
        48 ≤ char.toNat ∧ char.toNat ≤ 57 := by
    rcases Bool.or_eq_true_iff.mp halphanum with hletter | hdigit
    · rcases Bool.or_eq_true_iff.mp hletter with hupper | hlower
      · exact .inl (.inl (of_decide_eq_true hupper))
      · obtain ⟨hle, hge⟩ := Bool.and_eq_true_iff.mp hlower
        exact .inl (.inr ⟨of_decide_eq_true hle, of_decide_eq_true hge⟩)
    · obtain ⟨hle, hge⟩ := Bool.and_eq_true_iff.mp hdigit
      exact .inr ⟨of_decide_eq_true hle, of_decide_eq_true hge⟩
  simp [isWhiteSpace]
  omega

theorem trimmed_of_ends (hfirst : isWhiteSpace char = false) {last : Char}
    (hlast : isWhiteSpace last = false) :
    Trimmed (char :: (text ++ [last])) := by
  rw [Trimmed, trim, List.dropWhile_cons_of_neg (by simp [hfirst]),
    ← List.cons_append, List.rdropWhile_concat_neg _ _ _ (by simp [hlast])]

theorem count_dropWhile {test : Char → Bool} (hchar : test char = false) :
    (text.dropWhile test).count char = text.count char := by
  induction text with
  | nil => rfl
  | cons first rest ih =>
      by_cases htest : test first = true
      · have hne : first ≠ char := by
          rintro rfl
          exact absurd htest (by simp [hchar])
        rw [List.dropWhile_cons_of_pos htest, ih, List.count_cons_of_ne hne]
      · rw [List.dropWhile_cons_of_neg htest]

theorem count_trim (hchar : isWhiteSpace char = false) :
    (trim text).count char = text.count char := by
  rw [trim, List.rdropWhile, List.count_reverse, count_dropWhile hchar,
    List.count_reverse, count_dropWhile hchar]

theorem mem_trim_iff (hchar : isWhiteSpace char = false) :
    char ∈ trim text ↔ char ∈ text := by
  rw [← List.count_pos_iff, count_trim hchar, List.count_pos_iff]

/-- A text that is neither empty nor has white space at its ends. -/
def Solid (text : Text) : Prop :=
  ∃ first last, text.head? = some first ∧ text.getLast? = some last ∧
    isWhiteSpace first = false ∧ isWhiteSpace last = false

theorem solid_of_forall (hne : text ≠ [])
    (hall : ∀ char ∈ text, isWhiteSpace char = false) : Solid text :=
  ⟨text.head hne, text.getLast hne, List.head?_eq_some_head hne,
    List.getLast?_eq_some_getLast hne, hall _ (List.head_mem hne),
    hall _ (List.getLast_mem hne)⟩

theorem Solid.ne_nil (hsolid : Solid text) : text ≠ [] := by
  obtain ⟨first, -, hfirst, -⟩ := hsolid
  rintro rfl
  cases hfirst

theorem Solid.trimmed (hsolid : Solid text) : Trimmed text := by
  obtain ⟨first, last, hfirst, hlast, hstart, hend⟩ := hsolid
  have hdrop : text.dropWhile isWhiteSpace = text := by
    cases text with
    | nil => rfl
    | cons char rest =>
        rw [List.head?_cons, Option.some.injEq] at hfirst
        exact List.dropWhile_cons_of_neg (by simp [hfirst, hstart])
  rw [Trimmed, trim, hdrop, List.rdropWhile_eq_self_iff]
  intro hne
  rw [List.getLast?_eq_some_getLast hne, Option.some.injEq] at hlast
  simp [hlast, hend]

theorem Solid.append {middle : Text} (hbefore : Solid before)
    (hrest : Solid rest) : Solid (before ++ (middle ++ rest)) := by
  obtain ⟨first, -, hfirst, -, hstart, -⟩ := hbefore
  obtain ⟨-, last, -, hlast, -, hend⟩ := hrest
  refine ⟨first, last, ?_, ?_, hstart, hend⟩
  · rw [List.head?_append, hfirst, Option.some_or]
  · rw [List.getLast?_append, List.getLast?_append, hlast, Option.some_or,
      Option.some_or]

/-! ## Words -/

/-- `text.split(/\s+/)` -/
def splitSpaces : Text → List Text
  | [] => [[]]
  | char :: rest =>
      if isWhiteSpace char then
        if rest.head?.any isWhiteSpace then splitSpaces rest
        else [] :: splitSpaces rest
      else (splitSpaces rest).modifyHead (char :: ·)

theorem isWhiteSpace_of_mem_splitSpaces {word : Text}
    (hword : word ∈ splitSpaces text) (hchar : char ∈ word) :
    isWhiteSpace char = false := by
  induction text generalizing word char with
  | nil =>
      rw [splitSpaces, List.mem_singleton] at hword
      rw [hword] at hchar
      cases hchar
  | cons first rest ih =>
      rw [splitSpaces] at hword
      split at hword
      · split at hword
        · exact ih hword hchar
        · obtain rfl | hlater := List.mem_cons.mp hword
          · cases hchar
          · exact ih hlater hchar
      · rename_i hspace
        cases hsplit : splitSpaces rest with
        | nil =>
            rw [hsplit] at hword
            cases hword
        | cons head tail =>
            rw [hsplit, List.modifyHead_cons] at hword
            obtain rfl | hlater := List.mem_cons.mp hword
            · obtain rfl | hinside := List.mem_cons.mp hchar
              · exact Bool.not_eq_true _ ▸ hspace
              · exact ih (by rw [hsplit]; exact List.mem_cons_self) hinside
            · exact ih (by rw [hsplit]; exact List.mem_cons_of_mem _ hlater)
                hchar

theorem splitSpaces_of_forall
    (hall : ∀ char ∈ text, isWhiteSpace char = false) :
    splitSpaces text = [text] := by
  induction text with
  | nil => rfl
  | cons char rest ih =>
      obtain ⟨hchar, hrest⟩ := List.forall_mem_cons.mp hall
      rw [splitSpaces, if_neg (by simp [hchar]), ih hrest,
        List.modifyHead_cons]

theorem splitSpaces_append
    (hall : ∀ char ∈ before, isWhiteSpace char = false)
    (hspace : isWhiteSpace char = true)
    (hrest : rest.head?.any isWhiteSpace = false) :
    splitSpaces (before ++ char :: rest) = before :: splitSpaces rest := by
  induction before with
  | nil =>
      rw [List.nil_append, splitSpaces, if_pos hspace,
        if_neg (by simp [hrest])]
  | cons first before ih =>
      obtain ⟨hfirst, hbefore⟩ := List.forall_mem_cons.mp hall
      rw [List.cons_append, splitSpaces, if_neg (by simp [hfirst]),
        ih hbefore, List.modifyHead_cons]

/-- Words that are joined by blanks are split again. -/
theorem splitSpaces_intercalate {words : List Text} (hwords : words ≠ [])
    (hall : ∀ word ∈ words, word ≠ [] ∧
      ∀ char ∈ word, isWhiteSpace char = false) :
    splitSpaces ([' '].intercalate words) = words := by
  induction words with
  | nil => exact absurd rfl hwords
  | cons word words ih =>
      obtain ⟨hword, hrest⟩ := List.forall_mem_cons.mp hall
      cases words with
      | nil => rw [List.intercalate_singleton, splitSpaces_of_forall hword.2]
      | cons next words =>
          have hnext := (List.forall_mem_cons.mp hrest).1
          have hhead : ([' '].intercalate (next :: words)).head?.any
              isWhiteSpace = false := by
            obtain ⟨first, tail, rfl⟩ := List.exists_cons_of_ne_nil hnext.1
            have hfirst := hnext.2 first List.mem_cons_self
            cases words with
            | nil => simpa using hfirst
            | cons other words =>
                rw [List.intercalate_cons_cons]
                simpa using hfirst
          rw [List.intercalate_cons_cons, List.append_assoc,
            List.singleton_append, splitSpaces_append hword.2 rfl hhead,
            ih (List.cons_ne_nil next words) hrest]

/-! ## Lines -/

/-- A line feed for each of the line ends CRLF, CR and LF. -/
def unifyLineEnds : Text → Text
  | [] => []
  | '\r' :: '\n' :: rest => '\n' :: unifyLineEnds rest
  | '\r' :: rest => '\n' :: unifyLineEnds rest
  | char :: rest => char :: unifyLineEnds rest

/-- The lines of an event stream: what stands before each of its line ends. -/
def wireLines (text : Text) : List Text :=
  ((unifyLineEnds text).splitOn '\n').dropLast

def NoLineEnd (text : Text) : Prop := '\n' ∉ text ∧ '\r' ∉ text

instance NoLineEnd.decidable (text : Text) : Decidable (NoLineEnd text) :=
  inferInstanceAs (Decidable ('\n' ∉ text ∧ '\r' ∉ text))

theorem not_mem_unifyLineEnds (text : Text) : '\r' ∉ unifyLineEnds text := by
  induction text using unifyLineEnds.induct with
  | case1 => simp [unifyLineEnds]
  | case2 rest ih => simpa [unifyLineEnds] using ih
  | case3 rest hne ih =>
      rw [unifyLineEnds]
      · simpa using ih
      · exact hne
  | case4 char rest hlf hcr ih =>
      rw [unifyLineEnds]
      · rw [List.mem_cons, not_or]
        exact ⟨fun heq => hcr heq.symm, ih⟩
      · exact hlf
      · exact hcr

theorem unifyLineEnds_of_not_mem (hnone : '\r' ∉ text) :
    unifyLineEnds text = text := by
  induction text with
  | nil => rfl
  | cons char rest ih =>
      rw [List.mem_cons, not_or] at hnone
      rw [unifyLineEnds]
      · rw [ih hnone.2]
      · exact fun _ heq => absurd heq.symm hnone.1
      · exact fun heq => absurd heq.symm hnone.1

/-- `lines.join('\n')`. -/
def joinLines (lines : List Text) : Text := ['\n'].intercalate lines

theorem mem_intercalate {sep : Char} {lines : List Text}
    (hchar : char ∈ [sep].intercalate lines) :
    char = sep ∨ ∃ line ∈ lines, char ∈ line := by
  induction lines with
  | nil => cases hchar
  | cons line rest ih =>
      cases rest with
      | nil =>
          have hline : char ∈ line := by simpa using hchar
          exact .inr ⟨line, List.mem_cons_self, hline⟩
      | cons next rest =>
          rw [List.intercalate_cons_cons, List.append_assoc,
            List.mem_append, List.mem_append, List.mem_singleton] at hchar
          rcases hchar with hline | rfl | hrest
          · exact .inr ⟨line, List.mem_cons_self, hline⟩
          · exact .inl rfl
          · rcases ih hrest with heq | ⟨other, hother, hmem⟩
            · exact .inl heq
            · exact .inr ⟨other, List.mem_cons_of_mem line hother, hmem⟩

theorem mem_joinLines {lines : List Text} (hchar : char ∈ joinLines lines) :
    char = '\n' ∨ ∃ line ∈ lines, char ∈ line :=
  mem_intercalate hchar

theorem joinLines_concat_nil {lines : List Text} (hlines : lines ≠ []) :
    joinLines (lines ++ [[]]) = joinLines lines ++ ['\n'] := by
  induction lines with
  | nil => exact absurd rfl hlines
  | cons line rest ih =>
      cases rest with
      | nil => simp [joinLines, List.intercalate_cons_cons]
      | cons next rest =>
          have hrest := ih (List.cons_ne_nil next rest)
          rw [List.cons_append] at hrest
          rw [List.cons_append, List.cons_append, joinLines,
            List.intercalate_cons_cons, ← joinLines, hrest, joinLines,
            joinLines, List.intercalate_cons_cons]
          simp

theorem splitOn_cons_of_ne {sep : Char} {head : Text} {tail : List Text}
    (hsplit : text.splitOn sep = head :: tail) (hne : char ≠ sep) :
    (char :: text).splitOn sep = (char :: head) :: tail := by
  rw [List.splitOn_cons_eq_if_modifyHead, if_neg (by simpa using hne),
    hsplit, List.modifyHead_cons]

theorem splitOn_append_of_not_mem {sep : Char} {head : Text}
    {tail : List Text} (hsplit : text.splitOn sep = head :: tail)
    (hnone : sep ∉ before) :
    (before ++ text).splitOn sep = (before ++ head) :: tail := by
  induction before with
  | nil => exact hsplit
  | cons first rest ih =>
      rw [List.mem_cons, not_or] at hnone
      exact splitOn_cons_of_ne (ih hnone.2) (Ne.symm hnone.1)

theorem exists_splitOn_eq (text : Text) (sep : Char) :
    ∃ tail, text.splitOn sep = text.takeWhile (· ≠ sep) :: tail := by
  induction text with
  | nil => exact ⟨[], rfl⟩
  | cons first rest ih =>
      obtain ⟨tail, hsplit⟩ := ih
      by_cases hsep : first = sep
      · refine ⟨rest.splitOn sep, ?_⟩
        rw [List.splitOn_cons_eq_if_modifyHead, if_pos (by simpa using hsep),
          List.takeWhile_cons_of_neg (by simpa using hsep)]
      · refine ⟨tail, ?_⟩
        rw [splitOn_cons_of_ne hsplit hsep,
          List.takeWhile_cons_of_pos (by simpa using hsep)]

theorem splitOn_intercalate_eq_flatMap {sep : Char} {parts : List Text}
    (hparts : parts ≠ []) :
    ([sep].intercalate parts).splitOn sep =
      parts.flatMap (·.splitOn sep) := by
  induction parts with
  | nil => exact absurd rfl hparts
  | cons part parts ih =>
      cases parts with
      | nil => simp
      | cons next parts =>
          rw [List.intercalate_cons_cons, List.append_assoc,
            List.singleton_append, List.splitOn_append_cons_self,
            ih (List.cons_ne_nil next parts), ← List.flatMap_cons]

/-- A separator of two characters, split at its first. -/
theorem splitOn_intercalate_pair {sep space : Char} (hne : space ≠ sep)
    {part : Text} {parts : List Text}
    (hparts : ∀ text ∈ part :: parts, sep ∉ text) :
    ([sep, space].intercalate (part :: parts)).splitOn sep =
      part :: parts.map (space :: ·) := by
  induction parts generalizing part with
  | nil =>
      rw [List.intercalate_singleton, List.splitOn_eq_singleton
        (hparts part List.mem_cons_self)]
      rfl
  | cons next parts ih =>
      obtain ⟨hpart, hrest⟩ := List.forall_mem_cons.mp hparts
      rw [List.intercalate_cons_cons, List.append_assoc, List.cons_append,
        List.singleton_append,
        List.splitOn_append_cons_self_of_not_mem hpart,
        splitOn_cons_of_ne (ih hrest) hne, List.map_cons]

theorem not_mem_of_mem_splitOn {line : Text} {sep : Char}
    (hline : line ∈ text.splitOn sep) :
    sep ∉ line ∧ ∀ char ∈ line, char ∈ text := by
  induction text generalizing line with
  | nil => simp_all
  | cons first rest ih =>
      obtain ⟨head, tail, hsplit⟩ :=
        List.exists_cons_of_ne_nil (List.splitOn_ne_nil sep rest)
      by_cases hsep : first = sep
      · rw [List.splitOn_cons_eq_if_modifyHead,
          if_pos (by simpa using hsep), List.mem_cons] at hline
        rcases hline with rfl | hline
        · simp
        · obtain ⟨hout, hall⟩ := ih hline
          exact ⟨hout,
            fun char hchar => List.mem_cons_of_mem _ (hall char hchar)⟩
      · rw [splitOn_cons_of_ne hsplit hsep, List.mem_cons] at hline
        rcases hline with rfl | hline
        · obtain ⟨hout, hall⟩ := ih (hsplit ▸ List.mem_cons_self)
          refine ⟨?_, ?_⟩
          · rw [List.mem_cons, not_or]
            exact ⟨Ne.symm hsep, hout⟩
          · intro char hchar
            rcases List.mem_cons.mp hchar with rfl | hchar
            · exact List.mem_cons_self
            · exact List.mem_cons_of_mem _ (hall char hchar)
        · obtain ⟨hout, hall⟩ := ih (hsplit ▸ List.mem_cons_of_mem _ hline)
          exact ⟨hout,
            fun char hchar => List.mem_cons_of_mem _ (hall char hchar)⟩

theorem noLineEnd_of_mem_wireLines {line : Text}
    (hline : line ∈ wireLines text) : NoLineEnd line := by
  obtain ⟨hfeed, hall⟩ := not_mem_of_mem_splitOn
    ((List.dropLast_sublist _).mem hline)
  exact ⟨hfeed, fun hreturn => not_mem_unifyLineEnds text (hall _ hreturn)⟩

/-- Lines that hold no line ends are split as they were joined. -/
theorem wireLines_joinLines {lines : List Text}
    (hlines : ∀ line ∈ lines, NoLineEnd line) :
    wireLines (joinLines (lines ++ [[]])) = lines := by
  have hall : ∀ line ∈ lines ++ [[]], NoLineEnd line := by
    intro line hline
    rcases List.mem_append.mp hline with hold | hnil
    · exact hlines line hold
    · rw [List.mem_singleton.mp hnil]
      exact ⟨List.not_mem_nil, List.not_mem_nil⟩
  have hreturn : '\r' ∉ joinLines (lines ++ [[]]) := by
    intro hmem
    rcases mem_joinLines hmem with heq | ⟨line, hline, hchar⟩
    · exact absurd heq (by decide)
    · exact (hall line hline).2 hchar
  rw [wireLines, unifyLineEnds_of_not_mem hreturn, joinLines,
    List.splitOn_intercalate _ (fun line hline => (hall line hline).1)
      (by simp), List.dropLast_concat]

/-! ## Around a separator -/

/-- A separator that does not occur before it splits a text in one way. -/
theorem append_cons_inj_left {before before' after after' : Text} {sep : Char}
    (hbefore : sep ∉ before) (hbefore' : sep ∉ before')
    (heq : before ++ sep :: after = before' ++ sep :: after') :
    before = before' ∧ after = after' := by
  rcases List.append_eq_append_iff.mp heq with
    ⟨middle, hsplit, hmiddle⟩ | ⟨middle, hsplit, hmiddle⟩
  · cases middle with
    | nil =>
        exact ⟨(hsplit.trans (List.append_nil before)).symm,
          (List.cons.inj hmiddle).2⟩
    | cons char rest =>
        rw [hsplit, (List.cons.inj hmiddle).1] at hbefore'
        exact absurd (by simp) hbefore'
  · cases middle with
    | nil =>
        exact ⟨hsplit.trans (List.append_nil before'),
          (List.cons.inj hmiddle).2.symm⟩
    | cons char rest =>
        rw [hsplit, (List.cons.inj hmiddle).1] at hbefore
        exact absurd (by simp) hbefore

/-- A separator that does not occur after it splits a text in one way. -/
theorem append_cons_inj_right {before before' after after' : Text}
    {sep : Char} (hafter : sep ∉ after) (hafter' : sep ∉ after')
    (heq : before ++ sep :: after = before' ++ sep :: after') :
    before = before' ∧ after = after' := by
  have hreverse : after.reverse ++ sep :: before.reverse =
      after'.reverse ++ sep :: before'.reverse := by
    simpa using congrArg List.reverse heq
  obtain ⟨hlast, hfirst⟩ := append_cons_inj_left (by simpa using hafter)
    (by simpa using hafter') hreverse
  exact ⟨List.reverse_injective hfirst, List.reverse_injective hlast⟩

end Text

end TsCommons.Foundations
