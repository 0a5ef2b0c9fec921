import Mathlib.Data.List.Basic
import Mathlib.Tactic.Common

/-!
# Base64 and hexadecimal digits

Three bytes are written as four digits of six bits, and what is left over as
two or three digits and the padding.  A reader takes both alphabets and skips
every other character, so that the padding needs no case of its own.  In
hexadecimal digits a byte is written as two, and a reader stops at the first
two that are none.
-/

namespace TsCommons.Foundations

abbrev Bytes := List UInt8

/-- The UTF-16 code units of a text. -/
abbrev CodeUnits := List UInt16

namespace Base64

/-- The code unit of a digit below 64. -/
def digit (value : ℕ) : UInt16 :=
  if value < 26 then UInt16.ofNat (65 + value)
  else if value < 52 then UInt16.ofNat (71 + value)
  else if value < 62 then UInt16.ofNat (value - 4)
  else if value = 62 then 43
  else 47

/-- The value of a digit of the standard or of the URL-safe alphabet. -/
def value (unit : UInt16) : Option ℕ :=
  let code := unit.toNat
  if 65 ≤ code ∧ code ≤ 90 then some (code - 65)
  else if 97 ≤ code ∧ code ≤ 122 then some (code - 71)
  else if 48 ≤ code ∧ code ≤ 57 then some (code + 4)
  else if code = 43 ∨ code = 45 then some 62
  else if code = 47 ∨ code = 95 then some 63
  else none

def padding : UInt16 := 61

def encode : Bytes → CodeUnits
  | [] => []
  | [first] =>
      [digit (first.toNat / 4), digit (first.toNat % 4 * 16),
        padding, padding]
  | [first, second] =>
      [digit (first.toNat / 4),
        digit (first.toNat % 4 * 16 + second.toNat / 16),
        digit (second.toNat % 16 * 4), padding]
  | first :: second :: third :: rest =>
      digit (first.toNat / 4) ::
        digit (first.toNat % 4 * 16 + second.toNat / 16) ::
        digit (second.toNat % 16 * 4 + third.toNat / 64) ::
        digit (third.toNat % 64) :: encode rest

/-- The bytes of the digits; six bits that are left over make none. -/
def join : List ℕ → Bytes
  | first :: second :: third :: fourth :: rest =>
      UInt8.ofNat (first * 4 + second / 16) ::
        UInt8.ofNat (second % 16 * 16 + third / 4) ::
        UInt8.ofNat (third % 4 * 64 + fourth) :: join rest
  | [first, second, third] =>
      [UInt8.ofNat (first * 4 + second / 16),
        UInt8.ofNat (second % 16 * 16 + third / 4)]
  | [first, second] => [UInt8.ofNat (first * 4 + second / 16)]
  | [_] => []
  | [] => []

def decode (units : CodeUnits) : Bytes := join (units.filterMap value)

theorem value_digit {sextet : ℕ} (hlt : sextet < 64) :
    value (digit sextet) = some sextet := by
  have hall : ∀ sextet : Fin 64, value (digit sextet) = some sextet.val := by
    decide +kernel
  exact hall ⟨sextet, hlt⟩

theorem digit_lt (sextet : ℕ) : (digit sextet).toNat < 128 := by
  have hall : ∀ sextet : Fin 63, (digit sextet.val).toNat < 128 := by decide
  by_cases hlt : sextet < 63
  · exact hall ⟨sextet, hlt⟩
  · rw [digit, if_neg (by omega), if_neg (by omega), if_neg (by omega),
      if_neg (by omega)]
    decide

theorem lt_of_mem_encode {bytes : Bytes} {unit : UInt16}
    (hmem : unit ∈ encode bytes) : unit.toNat < 128 := by
  have hpadding : padding.toNat < 128 := by decide
  induction bytes using encode.induct with
  | case1 => cases hmem
  | case2 first =>
      simp only [encode, List.mem_cons, List.not_mem_nil, or_false] at hmem
      rcases hmem with rfl | rfl | rfl | rfl
      · exact digit_lt _
      · exact digit_lt _
      · exact hpadding
      · exact hpadding
  | case3 first second =>
      simp only [encode, List.mem_cons, List.not_mem_nil, or_false] at hmem
      rcases hmem with rfl | rfl | rfl | rfl
      · exact digit_lt _
      · exact digit_lt _
      · exact digit_lt _
      · exact hpadding
  | case4 first second third rest ih =>
      simp only [encode, List.mem_cons] at hmem
      rcases hmem with rfl | rfl | rfl | rfl | hrest
      · exact digit_lt _
      · exact digit_lt _
      · exact digit_lt _
      · exact digit_lt _
      · exact ih hrest

@[simp] theorem value_padding : value padding = none := rfl

theorem ofNat_eq (byte : UInt8) {joined : ℕ} (hjoined : joined = byte.toNat) :
    UInt8.ofNat joined = byte := by
  rw [hjoined, UInt8.ofNat_toNat]

theorem decode_encode (bytes : Bytes) : decode (encode bytes) = bytes := by
  induction bytes using encode.induct with
  | case1 => rfl
  | case2 first =>
      have hfirst := first.toNat_lt
      simp (disch := omega) only [decode, encode, List.filterMap_cons,
        List.filterMap_nil, value_digit, value_padding, join]
      rw [ofNat_eq first (by omega)]
  | case3 first second =>
      have hfirst := first.toNat_lt
      have hsecond := second.toNat_lt
      simp (disch := omega) only [decode, encode, List.filterMap_cons,
        List.filterMap_nil, value_digit, value_padding, join]
      rw [ofNat_eq first (by omega),
        ofNat_eq second (by omega)]
  | case4 first second third rest ih =>
      have hfirst := first.toNat_lt
      have hsecond := second.toNat_lt
      have hthird := third.toNat_lt
      have hrest : join ((encode rest).filterMap value) = rest := ih
      simp (disch := omega) only [decode, encode, List.filterMap_cons,
        value_digit, join]
      rw [ofNat_eq first (by omega),
        ofNat_eq second (by omega),
        ofNat_eq third (by omega), hrest]

example : encode [77, 97, 110, 77] =
    [84, 87, 70, 117, 84, 81, 61, 61] := by decide +kernel

end Base64

namespace Hex

/-- The code of a digit below sixteen, where `letter` is that of ten. -/
def code (letter value : ℕ) : ℕ :=
  if value < 10 then 48 + value else letter + (value - 10)

def value (code : ℕ) : Option ℕ :=
  if 48 ≤ code ∧ code ≤ 57 then some (code - 48)
  else if 65 ≤ code ∧ code ≤ 70 then some (code - 55)
  else if 97 ≤ code ∧ code ≤ 102 then some (code - 87)
  else none

def digit (value : ℕ) : UInt16 := UInt16.ofNat (code 97 value)

/-- `buffer.toString('hex')`. -/
def encode (bytes : Bytes) : CodeUnits :=
  bytes.flatMap fun byte => [digit (byte.toNat / 16), digit (byte.toNat % 16)]

/-- `Buffer.from(text, 'hex')`. -/
def decode : CodeUnits → Bytes
  | high :: low :: rest =>
      match value high.toNat, value low.toNat with
      | some first, some second =>
          UInt8.ofNat (first * 16 + second) :: decode rest
      | _, _ => []
  | _ => []

theorem value_digit {nibble : ℕ} (hlt : nibble < 16) :
    value (digit nibble).toNat = some nibble := by
  have hall : ∀ nibble : Fin 16,
      value (digit nibble.val).toNat = some nibble.val := by decide
  exact hall ⟨nibble, hlt⟩

theorem lt_of_mem_encode {bytes : Bytes} {unit : UInt16}
    (hmem : unit ∈ encode bytes) : unit.toNat < 128 := by
  have hall : ∀ nibble : Fin 16, (digit nibble.val).toNat < 128 := by decide
  obtain ⟨byte, -, hdigit⟩ := List.mem_flatMap.mp hmem
  have hlt := byte.toNat_lt
  rcases List.mem_cons.mp hdigit with rfl | hlow
  · exact hall ⟨byte.toNat / 16, by omega⟩
  · rw [List.mem_singleton.mp hlow]
    exact hall ⟨byte.toNat % 16, by omega⟩

theorem decode_encode (bytes : Bytes) : decode (encode bytes) = bytes := by
  induction bytes with
  | nil => rfl
  | cons byte rest ih =>
      have hlt := byte.toNat_lt
      have hjoined : byte.toNat / 16 * 16 + byte.toNat % 16 = byte.toNat := by
        omega
      change decode (digit (byte.toNat / 16) :: digit (byte.toNat % 16) ::
        encode rest) = _
      rw [decode, value_digit (by omega), value_digit (by omega), ih]
      simp only [hjoined, UInt8.ofNat_toNat]

end Hex

end TsCommons.Foundations
