import TsCommons.Foundations.Base64

/-!
# UTF-16

A text of ECMAScript is a list of code units in which a surrogate need not
stand in a pair.  Such a one becomes the replacement character where the text
is read as a list of scalar values.
-/

namespace TsCommons.Foundations

namespace Utf16

def replacement : Char := '\uFFFD'

def IsHigh (unit : UInt16) : Prop := 0xD800 ≤ unit.toNat ∧ unit.toNat < 0xDC00

def IsLow (unit : UInt16) : Prop := 0xDC00 ≤ unit.toNat ∧ unit.toNat < 0xE000

instance (unit : UInt16) : Decidable (IsHigh unit) :=
  inferInstanceAs (Decidable (_ ∧ _))

instance (unit : UInt16) : Decidable (IsLow unit) :=
  inferInstanceAs (Decidable (_ ∧ _))

/-- The scalar value of a pair of surrogates. -/
def pair (high low : UInt16) : Char :=
  Char.ofNat
    (0x10000 + (high.toNat - 0xD800) * 0x400 + (low.toNat - 0xDC00))

def single (unit : UInt16) : Char :=
  if IsHigh unit ∨ IsLow unit then replacement else Char.ofNat unit.toNat

def scalars : CodeUnits → List Char
  | [] => []
  | [unit] => [single unit]
  | first :: second :: rest =>
      if IsHigh first ∧ IsLow second then pair first second :: scalars rest
      else single first :: scalars (second :: rest)

def units (char : Char) : CodeUnits :=
  if char.toNat < 0x10000 then [UInt16.ofNat char.toNat]
  else [UInt16.ofNat (0xD800 + (char.toNat - 0x10000) / 0x400),
    UInt16.ofNat (0xDC00 + (char.toNat - 0x10000) % 0x400)]

/-- `String.prototype.toWellFormed`. -/
def toWellFormed (text : CodeUnits) : CodeUnits := (scalars text).flatMap units

/-- `String.prototype.isWellFormed`. -/
def IsWellFormed : CodeUnits → Prop
  | [] => True
  | [unit] => ¬ (IsHigh unit ∨ IsLow unit)
  | first :: second :: rest =>
      if IsHigh first ∧ IsLow second then IsWellFormed rest
      else ¬ (IsHigh first ∨ IsLow first) ∧ IsWellFormed (second :: rest)

instance IsWellFormed.decidable :
    (text : CodeUnits) → Decidable (IsWellFormed text)
  | [] => inferInstanceAs (Decidable True)
  | [unit] => inferInstanceAs (Decidable (¬ (IsHigh unit ∨ IsLow unit)))
  | first :: second :: rest =>
      have := IsWellFormed.decidable rest
      have := IsWellFormed.decidable (second :: rest)
      inferInstanceAs (Decidable (
        if IsHigh first ∧ IsLow second then IsWellFormed rest
        else ¬ (IsHigh first ∨ IsLow first) ∧ IsWellFormed (second :: rest)))

variable {high low unit : UInt16} {text : CodeUnits}

theorem toNat_ofNat {code : ℕ} (hvalid : code.isValidChar) :
    (Char.ofNat code).toNat = code := by
  rw [Char.ofNat, dif_pos hvalid]
  rfl

theorem ofNat_eq_unit (unit : UInt16) {code : ℕ}
    (hcode : code = unit.toNat) : UInt16.ofNat code = unit := by
  rw [hcode, UInt16.ofNat_toNat]

theorem units_pair (hhigh : IsHigh high) (hlow : IsLow low) :
    units (pair high low) = [high, low] := by
  obtain ⟨hhighGe, hhighLt⟩ := hhigh
  obtain ⟨hlowGe, hlowLt⟩ := hlow
  have hvalid : (0x10000 + (high.toNat - 0xD800) * 0x400 +
      (low.toNat - 0xDC00)).isValidChar := by
    right
    omega
  rw [units, pair, toNat_ofNat hvalid, if_neg (by omega),
    ofNat_eq_unit high (by omega), ofNat_eq_unit low (by omega)]

theorem units_single (hsingle : ¬ (IsHigh unit ∨ IsLow unit)) :
    units (single unit) = [unit] := by
  have hlt := unit.toNat_lt
  have hvalid : unit.toNat.isValidChar := by
    rw [IsHigh, IsLow] at hsingle
    by_cases hsmall : unit.toNat < 0xD800
    · exact .inl hsmall
    · right
      omega
  rw [units, single, if_neg hsingle, toNat_ofNat hvalid, if_pos (by omega),
    UInt16.ofNat_toNat]

theorem units_single_of_surrogate (hsurrogate : IsHigh unit ∨ IsLow unit) :
    units (single unit) = [0xFFFD] := by
  rw [single, if_pos hsurrogate]
  rfl

theorem ne_of_surrogate (hsurrogate : IsHigh unit ∨ IsLow unit) :
    0xFFFD ≠ unit := by
  rintro rfl
  exact absurd hsurrogate (by decide)

theorem toWellFormed_pair (hhigh : IsHigh high) (hlow : IsLow low)
    (rest : CodeUnits) :
    toWellFormed (high :: low :: rest) = high :: low :: toWellFormed rest := by
  rw [toWellFormed, scalars, if_pos ⟨hhigh, hlow⟩, List.flatMap_cons,
    units_pair hhigh hlow]
  rfl

theorem toWellFormed_single {first second : UInt16}
    (hpair : ¬ (IsHigh first ∧ IsLow second)) (rest : CodeUnits) :
    toWellFormed (first :: second :: rest) =
      units (single first) ++ toWellFormed (second :: rest) := by
  rw [toWellFormed, scalars, if_neg hpair, List.flatMap_cons]
  rfl

/-- A text stays as it is if and only if its surrogates stand in pairs. -/
theorem toWellFormed_eq_iff : toWellFormed text = text ↔ IsWellFormed text := by
  induction text using scalars.induct with
  | case1 => exact iff_of_true rfl trivial
  | case2 unit =>
      have heq : toWellFormed [unit] = units (single unit) :=
        List.append_nil _
      rw [heq, IsWellFormed]
      by_cases hsurrogate : IsHigh unit ∨ IsLow unit
      · rw [units_single_of_surrogate hsurrogate]
        refine iff_of_false (fun hsame => ?_) (not_not_intro hsurrogate)
        exact ne_of_surrogate hsurrogate (List.singleton_inj.mp hsame)
      · exact iff_of_true (units_single hsurrogate) hsurrogate
  | case3 first second rest hpair ih =>
      rw [toWellFormed_pair hpair.1 hpair.2, IsWellFormed, if_pos hpair, ← ih]
      simp
  | case4 first second rest hpair ih =>
      rw [toWellFormed_single hpair, IsWellFormed, if_neg hpair, ← ih]
      by_cases hsurrogate : IsHigh first ∨ IsLow first
      · rw [units_single_of_surrogate hsurrogate]
        refine iff_of_false (fun hsame => ?_) fun hboth => hboth.1 hsurrogate
        exact ne_of_surrogate hsurrogate (List.cons.inj hsame).1
      · rw [units_single hsurrogate]
        simp [hsurrogate]

/-! ## Texts of scalar values -/

theorem scalars_cons (hsingle : ¬ (IsHigh unit ∨ IsLow unit))
    (rest : CodeUnits) :
    scalars (unit :: rest) = Char.ofNat unit.toNat :: scalars rest := by
  have hchar : single unit = Char.ofNat unit.toNat := if_neg hsingle
  cases rest with
  | nil => exact congrArg ([·]) hchar
  | cons second rest =>
      rw [scalars, if_neg fun hpair => hsingle (.inl hpair.1), hchar]

theorem toWellFormed_of_lt (hascii : ∀ unit ∈ text, unit.toNat < 128) :
    toWellFormed text = text := by
  induction text with
  | nil => rfl
  | cons unit rest ih =>
      rw [List.forall_mem_cons] at hascii
      have hlt := hascii.1
      have hsingle : ¬ (IsHigh unit ∨ IsLow unit) := by
        rw [IsHigh, IsLow]
        omega
      have hchar : Char.ofNat unit.toNat = single unit := (if_neg hsingle).symm
      have hrest : (scalars rest).flatMap units = rest := ih hascii.2
      rw [toWellFormed, scalars_cons hsingle, List.flatMap_cons, hchar,
        units_single hsingle, hrest]
      rfl

theorem scalars_units_append (char : Char) (rest : CodeUnits) :
    scalars (units char ++ rest) = char :: scalars rest := by
  have hvalid : char.toNat.isValidChar := char.valid
  unfold units
  split
  · rename_i hsmall
    have hunit : (UInt16.ofNat char.toNat).toNat = char.toNat :=
      UInt16.toNat_ofNat_of_lt' hsmall
    have hsingle : ¬ (IsHigh (UInt16.ofNat char.toNat) ∨
        IsLow (UInt16.ofNat char.toNat)) := by
      rw [IsHigh, IsLow, hunit]
      rcases hvalid with hlow | hhigh
      · omega
      · omega
    rw [List.singleton_append, scalars_cons hsingle, hunit, Char.ofNat_toNat]
  · rename_i hlarge
    have hbound : char.toNat < 0x110000 := by
      rcases hvalid with hlow | hhigh
      · omega
      · exact hhigh.2
    have hhigh :
        (UInt16.ofNat (0xD800 + (char.toNat - 0x10000) / 0x400)).toNat =
          0xD800 + (char.toNat - 0x10000) / 0x400 :=
      UInt16.toNat_ofNat_of_lt' (by rw [UInt16.size]; omega)
    have hlow :
        (UInt16.ofNat (0xDC00 + (char.toNat - 0x10000) % 0x400)).toNat =
          0xDC00 + (char.toNat - 0x10000) % 0x400 :=
      UInt16.toNat_ofNat_of_lt' (by rw [UInt16.size]; omega)
    have hpair :
        IsHigh (UInt16.ofNat (0xD800 + (char.toNat - 0x10000) / 0x400)) ∧
          IsLow (UInt16.ofNat (0xDC00 + (char.toNat - 0x10000) % 0x400)) := by
      rw [IsHigh, IsLow, hhigh, hlow]
      omega
    have hcode : 0x10000 +
        (0xD800 + (char.toNat - 0x10000) / 0x400 - 0xD800) * 0x400 +
        (0xDC00 + (char.toNat - 0x10000) % 0x400 - 0xDC00) = char.toNat := by
      omega
    rw [List.cons_append, List.cons_append, List.nil_append, scalars,
      if_pos hpair, pair, hhigh, hlow, hcode, Char.ofNat_toNat]

theorem scalars_flatMap_units (chars : List Char) :
    scalars (chars.flatMap units) = chars := by
  induction chars with
  | nil => rfl
  | cons char rest ih =>
      rw [List.flatMap_cons, scalars_units_append, ih]

theorem toWellFormed_toWellFormed (text : CodeUnits) :
    toWellFormed (toWellFormed text) = toWellFormed text := by
  rw [toWellFormed, toWellFormed, scalars_flatMap_units]

def ofString (text : String) : CodeUnits := text.toList.flatMap units

theorem toWellFormed_ofString (text : String) :
    toWellFormed (ofString text) = ofString text := by
  rw [toWellFormed, ofString, scalars_flatMap_units]

theorem ofString_inj {first second : String} :
    ofString first = ofString second ↔ first = second := by
  constructor
  · intro hunits
    have hchars := congrArg scalars hunits
    rw [ofString, ofString, scalars_flatMap_units, scalars_flatMap_units]
      at hchars
    exact String.toList_inj.mp hchars
  · rintro rfl
    rfl

end Utf16

end TsCommons.Foundations
