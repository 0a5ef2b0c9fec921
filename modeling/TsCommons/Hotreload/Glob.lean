import TsCommons.Foundations.Text

/-!
# Globs

A glob is rewritten step by step into the source text of a regular
expression, which a path has to match as a whole.  A later step also rewrites
what an earlier one has put in.  The expressions that come about have classes
of characters, groups and quantifiers; an expression with nothing before a
quantifier is rejected.
-/

namespace TsCommons.Hotreload

open Foundations

/-! ## Regular expressions -/

/-- A character, `.`, or `[^c]`. -/
inductive CharClass
  | only (char : Char)
  | any
  | except (char : Char)
deriving DecidableEq

/-- `.` does not match the line terminators. -/
def CharClass.accepts : CharClass → Char → Bool
  | only char, other => other = char
  | any, other =>
      other ≠ '\n' && other ≠ '\r' && other ≠ '\u2028' && other ≠ '\u2029'
  | except char, other => other ≠ char

inductive Regex
  | empty
  | one (chars : CharClass)
  | many (chars : CharClass)
  | optional (regex : Regex)
  | append (first second : Regex)
deriving DecidableEq

namespace Regex

/-- What is left of a text after each number of characters of the class. -/
def manyRests (chars : CharClass) : Text → List Text
  | [] => [[]]
  | char :: rest =>
      (char :: rest) ::
        if chars.accepts char then manyRests chars rest else []

/-- What is left of a text after each match at its start. -/
def rests : Regex → Text → List Text
  | empty, text => [text]
  | one _, [] => []
  | one chars, char :: rest => if chars.accepts char then [rest] else []
  | many chars, text => manyRests chars text
  | optional regex, text => text :: regex.rests text
  | append first second, text => (first.rests text).flatMap second.rests

/-- `new RegExp('^…$').test(text)` -/
def test (regex : Regex) (text : Text) : Bool := [] ∈ regex.rests text

/-- The class with the quantifier after it, which may be lazy. -/
def quantified (chars : CharClass) : Text → Regex × Text
  | '*' :: '?' :: rest => (many chars, rest)
  | '*' :: rest => (many chars, rest)
  | '?' :: '?' :: rest => (optional (one chars), rest)
  | '?' :: rest => (optional (one chars), rest)
  | rest => (one chars, rest)

/-- The regular expression up to the end or to a closing bracket, with what is
left.  The fuel bounds the number of its parts. -/
def parse : ℕ → Text → Option (Regex × Text)
  | _, [] => some (empty, [])
  | _, ')' :: rest => some (empty, ')' :: rest)
  | 0, _ => none
  | fuel + 1, '(' :: rest =>
      (parse fuel rest).bind fun
        | (group, ')' :: '?' :: '?' :: after) =>
            (parse fuel after).map fun parsed =>
              (append (optional group) parsed.1, parsed.2)
        | (group, ')' :: '?' :: after) =>
            (parse fuel after).map fun parsed =>
              (append (optional group) parsed.1, parsed.2)
        | (group, ')' :: after) =>
            (parse fuel after).map fun parsed =>
              (append group parsed.1, parsed.2)
        | _ => none
  | _ + 1, '*' :: _ => none
  | _ + 1, '?' :: _ => none
  | fuel + 1, text =>
      let (chars, after) :=
        match text with
        | '\\' :: char :: rest => (CharClass.only char, rest)
        | '[' :: '^' :: char :: ']' :: rest => (CharClass.except char, rest)
        | '.' :: rest => (CharClass.any, rest)
        | char :: rest => (CharClass.only char, rest)
        | [] => (CharClass.any, [])
      let (first, rest) := quantified chars after
      (parse fuel rest).map fun parsed => (append first parsed.1, parsed.2)

/-- `new RegExp('^' + source + '$')`, or `none` where it throws. -/
def ofSource (source : Text) : Option Regex :=
  match parse (source.length + 1) source with
  | some (regex, []) => some regex
  | _ => none

end Regex

/-! ## Rewriting -/

/-- `text.replaceAll(pattern, replacement)`; the first argument counts the
characters of the last occurrence that are still to be left out. -/
def replaceAll (pattern replacement : Text) : ℕ → Text → Text
  | _, [] => []
  | skip + 1, _ :: rest => replaceAll pattern replacement skip rest
  | 0, char :: rest =>
      if pattern.isPrefixOf (char :: rest) then
        replacement ++ replaceAll pattern replacement (pattern.length - 1) rest
      else char :: replaceAll pattern replacement 0 rest

/-- `.replace(/[.+^${}()|[\]\\]/g, '\\$&')` -/
def escapeSpecial (glob : Text) : Text :=
  glob.flatMap fun char =>
    if char ∈ ".+^$\x7b\x7d()|[]\\".toList then ['\\', char] else [char]

/-- `.replace(/\/\*\*\//g, '(/.*)?/')` -/
def replaceInner (text : Text) : Text :=
  replaceAll "/**/".toList "(/.*)?/".toList 0 text

/-- `.replace(/\/\*\*$/g, '(/.*)?')` -/
def replaceLast (text : Text) : Text :=
  if "/**".toList.isSuffixOf text then
    text.take (text.length - 3) ++ "(/.*)?".toList
  else text

/-- `.replace(/^\*\*\//g, '(.*/)?')` -/
def replaceFirst (text : Text) : Text :=
  if "**/".toList.isPrefixOf text then "(.*/)?".toList ++ text.drop 3
  else text

/-- `.replace(/\*/g, '[^/]*')` -/
def replaceStars (text : Text) : Text :=
  text.flatMap fun char => if char = '*' then "[^/]*".toList else [char]

def globSource (glob : Text) : Text :=
  replaceStars (replaceFirst (replaceLast (replaceInner
    (escapeSpecial glob))))

/-- Whether the path matches the glob, or `none` where the regular expression
is rejected. -/
def matchesGlob (path glob : Text) : Option Bool :=
  (Regex.ofSource (globSource glob)).map fun regex => regex.test path

example : globSource "src/**/*.ts".toList =
    "src(/.[^/]*)?/[^/]*\\.ts".toList := by
  decide +kernel

example : matchesGlob "src/domain/Order.ts".toList "src/**/*.ts".toList =
    some true := by
  decide +kernel

end TsCommons.Hotreload
