import TsCommons.Foundations.InsertionMap
import TsCommons.Foundations.Text

/-!
# JSON texts

The value that a JSON text stands for, and the text that is written for a
value.  Numbers come with a format of their own, whose texts are literals of
the grammar.  What is written is read back as the same value; it holds no
control characters and has no white space at its ends.
-/

namespace TsCommons.Foundations

inductive Json (N : Type)
  | null
  | bool (value : Bool)
  | number (value : N)
  | string (text : Text)
  | array (items : List (Json N))
  | object (fields : List (Text × Json N))

namespace Json

/-! ## Number literals -/

def isNumberChar (char : Char) : Bool :=
  char.isDigit || char = '-' || char = '+' || char = '.' || char = 'e' ||
    char = 'E'

def isDigits (text : Text) : Bool := text ≠ [] && text.all Char.isDigit

def dropSign : Text → Text
  | '+' :: rest => rest
  | '-' :: rest => rest
  | rest => rest

def isExponent : Text → Bool
  | [] => true
  | mark :: rest => (mark = 'e' || mark = 'E') && isDigits (dropSign rest)

def isFraction : Text → Bool
  | '.' :: rest =>
      isDigits (rest.takeWhile Char.isDigit) &&
        isExponent (rest.dropWhile Char.isDigit)
  | rest => isExponent rest

def isUnsigned : Text → Bool
  | '0' :: rest => isFraction rest
  | rest =>
      isDigits (rest.takeWhile Char.isDigit) &&
        isFraction (rest.dropWhile Char.isDigit)

/-- The grammar of numbers. -/
def isNumberLiteral : Text → Bool
  | '-' :: rest => isUnsigned rest
  | rest => isUnsigned rest

/-- Numbers up to equality, with their texts: `text` is `String(n)`, and
`number` is `Number(text)` or `none` where that is not a number. -/
structure NumberFormat (N : Type) where
  text : N → Text
  number : Text → Option N
  finite : N → Bool
  literal_text : ∀ value, finite value = true →
    isNumberLiteral (text value) = true
  number_text : ∀ value, finite value = true →
    number (text value) = some value

variable {N : Type} (format : NumberFormat N)

/-! ## Writing -/

def escapeChar (char : Char) : Text :=
  if char = '"' then ['\\', '"']
  else if char = '\\' then ['\\', '\\']
  else if char = '\x08' then ['\\', 'b']
  else if char = '\x0c' then ['\\', 'f']
  else if char = '\n' then ['\\', 'n']
  else if char = '\r' then ['\\', 'r']
  else if char = '\t' then ['\\', 't']
  else if char.toNat < 0x20 then
    ['\\', 'u', '0', '0', Nat.digitChar (char.toNat / 16),
      Nat.digitChar (char.toNat % 16)]
  else [char]

def quote (text : Text) : Text := '"' :: (text.flatMap escapeChar ++ ['"'])

mutual

/-- `JSON.stringify`. -/
def stringify : Json N → Text
  | .null => ['n', 'u', 'l', 'l']
  | .bool true => ['t', 'r', 'u', 'e']
  | .bool false => ['f', 'a', 'l', 's', 'e']
  | .number value =>
      if format.finite value then format.text value
      else ['n', 'u', 'l', 'l']
  | .string text => quote text
  | .array items => '[' :: (stringifyItems [] items ++ [']'])
  | .object fields => '\x7b' :: (stringifyFields [] fields ++ ['\x7d'])

/-- The items, each after the separator. -/
def stringifyItems : Text → List (Json N) → Text
  | _, [] => []
  | separator, item :: rest =>
      separator ++ (stringify item ++ stringifyItems [','] rest)

def stringifyFields : Text → List (Text × Json N) → Text
  | _, [] => []
  | separator, (key, value) :: rest =>
      separator ++ (quote key ++ ':' :: (stringify value ++
        stringifyFields [','] rest))

end

/-! ## Reading -/

def isSpace (char : Char) : Bool :=
  char = ' ' || char = '\t' || char = '\n' || char = '\r'

def skipSpace (input : Text) : Text := input.dropWhile isSpace

def hexValue (char : Char) : Option ℕ :=
  if '0' ≤ char ∧ char ≤ '9' then some (char.toNat - '0'.toNat)
  else if 'a' ≤ char ∧ char ≤ 'f' then some (char.toNat - 'a'.toNat + 10)
  else if 'A' ≤ char ∧ char ≤ 'F' then some (char.toNat - 'A'.toNat + 10)
  else none

def parseHex : Text → Option (ℕ × Text)
  | first :: second :: third :: fourth :: rest => do
      let first ← hexValue first
      let second ← hexValue second
      let third ← hexValue third
      let fourth ← hexValue fourth
      return (((first * 16 + second) * 16 + third) * 16 + fourth, rest)
  | _ => none

/-- The code of a character, or the first of the two of a surrogate pair. -/
def parseUnicode (input : Text) : Option (Char × Text) := do
  let (code, rest) ← parseHex input
  if 0xD800 ≤ code ∧ code < 0xDC00 then
    match rest with
    | '\\' :: 'u' :: rest => do
        let (low, rest) ← parseHex rest
        if 0xDC00 ≤ low ∧ low < 0xE000 then
          return (Char.ofNat
            (0x10000 + (code - 0xD800) * 0x400 + (low - 0xDC00)), rest)
        else none
    | _ => none
  else if 0xDC00 ≤ code ∧ code < 0xE000 then none
  else return (Char.ofNat code, rest)

/-- What follows a backslash. -/
def parseEscape : Text → Option (Char × Text)
  | 'b' :: rest => some ('\x08', rest)
  | 'f' :: rest => some ('\x0c', rest)
  | 'n' :: rest => some ('\n', rest)
  | 'r' :: rest => some ('\r', rest)
  | 't' :: rest => some ('\t', rest)
  | 'u' :: rest => parseUnicode rest
  | char :: rest =>
      if char = '"' ∨ char = '\\' ∨ char = '/' then some (char, rest) else none
  | [] => none

/-- The characters up to the closing quote. -/
def parseString : ℕ → Text → Option (Text × Text)
  | 0, _ => none
  | _ + 1, [] => none
  | fuel + 1, char :: rest =>
      if char = '"' then some ([], rest)
      else if char = '\\' then do
        let (escaped, rest) ← parseEscape rest
        let (text, rest) ← parseString fuel rest
        return (escaped :: text, rest)
      else if char.toNat < 0x20 then none
      else do
        let (text, rest) ← parseString fuel rest
        return (char :: text, rest)

def parseWord (word : Text) (value : Json N) (input : Text) :
    Option (Json N × Text) :=
  if word.isPrefixOf input then some (value, input.drop word.length)
  else none

def parseNumber (input : Text) : Option (Json N × Text) :=
  let literal := input.takeWhile isNumberChar
  if isNumberLiteral literal then
    (format.number literal).map fun value =>
      (.number value, input.dropWhile isNumberChar)
  else none

/-- A key that is written again takes the later value. -/
def merge (fields : List (Text × Json N)) : List (Text × Json N) :=
  fields.foldl (fun merged field =>
    InsertionMap.put field.1 field.2 merged) []

mutual

/-- A value and what follows it.  The fuel is at least the length of the
input. -/
def parseValue : ℕ → Text → Option (Json N × Text)
  | 0, _ => none
  | fuel + 1, input =>
      match skipSpace input with
      | [] => none
      | char :: rest =>
          if char = '"' then do
            let (text, rest) ← parseString fuel rest
            return (.string text, rest)
          else if char = '[' then
            if (skipSpace rest).head? = some ']' then
              some (.array [], (skipSpace rest).tail)
            else do
              let (items, rest) ← parseItems fuel rest
              return (.array items, rest)
          else if char = '\x7b' then
            if (skipSpace rest).head? = some '\x7d' then
              some (.object [], (skipSpace rest).tail)
            else do
              let (fields, rest) ← parseFields fuel rest
              return (.object (merge fields), rest)
          else if char = 'n' then
            parseWord ['n', 'u', 'l', 'l'] .null (char :: rest)
          else if char = 't' then
            parseWord ['t', 'r', 'u', 'e'] (.bool true) (char :: rest)
          else if char = 'f' then
            parseWord ['f', 'a', 'l', 's', 'e'] (.bool false) (char :: rest)
          else parseNumber format (char :: rest)

def parseItems : ℕ → Text → Option (List (Json N) × Text)
  | 0, _ => none
  | fuel + 1, input => do
      let (item, rest) ← parseValue fuel input
      match skipSpace rest with
      | ',' :: rest => do
          let (items, rest) ← parseItems fuel rest
          return (item :: items, rest)
      | ']' :: rest => return ([item], rest)
      | _ => none

def parseFields : ℕ → Text → Option (List (Text × Json N) × Text)
  | 0, _ => none
  | fuel + 1, input =>
      match skipSpace input with
      | '"' :: rest => do
          let (key, rest) ← parseString fuel rest
          match skipSpace rest with
          | ':' :: rest => do
              let (value, rest) ← parseValue fuel rest
              match skipSpace rest with
              | ',' :: rest => do
                  let (fields, rest) ← parseFields fuel rest
                  return ((key, value) :: fields, rest)
              | '\x7d' :: rest => return ([(key, value)], rest)
              | _ => none
          | _ => none
      | _ => none

end

/-- `JSON.parse`, with `none` for its errors. -/
def parse (text : Text) : Option (Json N) :=
  match parseValue format (text.length + 1) text with
  | some (value, rest) => if skipSpace rest = [] then some value else none
  | none => none

end Json

end TsCommons.Foundations
