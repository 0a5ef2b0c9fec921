import TsCommons.Foundations.Utf16

/-!
# UTF-8

A text is written with the replacement character in place of a lone surrogate.
A reader of arbitrary bytes puts a replacement character where no scalar value
can be read, for the longest start of one that stands there.
-/

namespace TsCommons.Foundations

namespace Utf8

def encodeScalars (scalars : List Char) : Bytes :=
  scalars.flatMap String.utf8EncodeChar

def encode (text : CodeUnits) : Bytes := encodeScalars (Utf16.scalars text)

/-- How many bytes at the start the replacement character stands for, when no
scalar value can be read there. -/
def illFormedLength : Bytes → ℕ
  | first :: second :: rest =>
      let lead := first.toNat
      let next := second.toNat
      let starts : Bool :=
        if lead = 0xE0 then 0xA0 ≤ next && next < 0xC0
        else if lead = 0xED then 0x80 ≤ next && next < 0xA0
        else if lead = 0xF0 then 0x90 ≤ next && next < 0xC0
        else if lead = 0xF4 then 0x80 ≤ next && next < 0x90
        else 0xE0 ≤ lead && lead < 0xF4 && 0x80 ≤ next && next < 0xC0
      if starts then
        match rest with
        | [] => 2
        | third :: _ =>
            if 0xF0 ≤ lead ∧ 0x80 ≤ third.toNat ∧ third.toNat < 0xC0 then 3
            else 2
      else 1
  | _ => 1

def decodeScalarsIn : ℕ → Bytes → List Char
  | 0, _ => []
  | _ + 1, [] => []
  | fuel + 1, bytes =>
      match bytes.toByteArray.utf8DecodeChar? 0 with
      | some char => char :: decodeScalarsIn fuel (bytes.drop char.utf8Size)
      | none =>
          Utf16.replacement ::
            decodeScalarsIn fuel (bytes.drop (illFormedLength bytes))

/-- Every round takes at least one byte away. -/
def decodeScalars (bytes : Bytes) : List Char :=
  decodeScalarsIn bytes.length bytes

def decode (bytes : Bytes) : CodeUnits :=
  (decodeScalars bytes).flatMap Utf16.units

theorem decodeScalarsIn_succ {fuel : ℕ} {bytes : Bytes} {char : Char}
    (hread : bytes.toByteArray.utf8DecodeChar? 0 = some char) :
    decodeScalarsIn (fuel + 1) bytes =
      char :: decodeScalarsIn fuel (bytes.drop char.utf8Size) := by
  cases bytes with
  | nil => cases hread
  | cons first rest => simp only [decodeScalarsIn, hread]

theorem decodeScalarsIn_encodeScalars {fuel : ℕ} {scalars : List Char}
    (hfuel : (encodeScalars scalars).length ≤ fuel) :
    decodeScalarsIn fuel (encodeScalars scalars) = scalars := by
  induction scalars generalizing fuel with
  | nil =>
      cases fuel with
      | zero => rfl
      | succ fuel => rfl
  | cons char rest ih =>
      have hsplit : encodeScalars (char :: rest) =
          String.utf8EncodeChar char ++ encodeScalars rest :=
        List.flatMap_cons
      have hsize : (String.utf8EncodeChar char).length = char.utf8Size :=
        String.length_utf8EncodeChar char
      have hpos := char.utf8Size_pos
      have hread :
          (encodeScalars (char :: rest)).toByteArray.utf8DecodeChar? 0 =
            some char := by
        rw [hsplit, List.toByteArray_append]
        exact ByteArray.utf8DecodeChar?_utf8EncodeChar_append
      have hdrop : (encodeScalars (char :: rest)).drop char.utf8Size =
          encodeScalars rest := by
        rw [hsplit, ← hsize, List.drop_left]
      have hlength : (encodeScalars (char :: rest)).length =
          char.utf8Size + (encodeScalars rest).length := by
        rw [hsplit, List.length_append, hsize]
      cases fuel with
      | zero => omega
      | succ fuel =>
          rw [decodeScalarsIn_succ hread, hdrop, ih (by omega)]

theorem decode_encode (text : CodeUnits) :
    decode (encode text) = Utf16.toWellFormed text := by
  rw [decode, decodeScalars, encode,
    decodeScalarsIn_encodeScalars (Nat.le_refl _), Utf16.toWellFormed]

end Utf8

end TsCommons.Foundations
