import TsCommons.Foundations.Doubles
import TsCommons.Foundations.Numerals
import TsCommons.Foundations.Objects
import Mathlib.Data.ENat.Basic

/-!
# Semantic versions

The constructor of the base class freezes the object before the constructor of
`SemVer` defines its fields, so no version is ever created.
-/

namespace TsCommons.Contracts

open Foundations

inductive Field
  | undefined
  | text (value : Text)
  | number (value : ℕ∞)
deriving DecidableEq

inductive Thrown
  | typeError
  | error (message : Text)
deriving DecidableEq

abbrev SemVer := JsObject Field

namespace SemVer

/-- `Number(part)` for decimal digits. -/
def number (part : Text) : ℕ∞ :=
  let value := toDouble (Text.digitsValue part)
  if value < 2 ^ 1024 then value else ⊤

/-- The constructor of `ValueObject`. -/
def valueObject (value : Text) : Option (JsObject Field) := do
  let this ← JsObject.empty.define "_value" .undefined
  let this ← this.assign "_value" (.text value)
  return this.freeze

/-- The constructor; `none` is a `TypeError`. -/
def construct (value : Text) : Option SemVer := do
  let this ← valueObject value
  let this ← this.define "major" .undefined
  let this ← this.define "minor" .undefined
  let this ← this.define "patch" .undefined
  let parts := (value.splitOn '.').map number
  let this ← this.assign "major" (.number (parts[0]?.getD 0))
  let this ← this.assign "minor" (.number (parts[1]?.getD 0))
  this.assign "patch" (.number (parts[2]?.getD 0))

/-- `\d+` and what follows it. -/
def digits (next : Text → Bool) (text : Text) : Bool :=
  text.takeWhile Char.isDigit ≠ [] && next (text.dropWhile Char.isDigit)

/-- `\.` and what follows it. -/
def dot (next : Text → Bool) : Text → Bool
  | '.' :: rest => next rest
  | _ => false

/-- `/^\d+\.\d+\.\d+$/.test(version)` -/
def test (version : Text) : Bool :=
  digits (dot (digits (dot (digits (· = []))))) version

def create (version : Text) : Except Thrown SemVer :=
  if test version then
    match construct version with
    | some semVer => .ok semVer
    | none => .error .typeError
  else .error (.error ("Invalid semver: ".toList ++ version))

def getMajor (this : SemVer) : Field := (this.get "major").getD .undefined

def getMinor (this : SemVer) : Field := (this.get "minor").getD .undefined

def getPatch (this : SemVer) : Field := (this.get "patch").getD .undefined

/-- `first >= second` for numbers; `undefined` is not comparable. -/
def greaterOrEqual : Field → Field → Bool
  | .number first, .number second => second ≤ first
  | _, _ => false

def isCompatibleWith (this other : SemVer) : Bool :=
  getMajor this = getMajor other &&
    greaterOrEqual (getMinor this) (getMinor other)

/-! ## The texts of versions -/

/-- Three dot-separated sequences of decimal digits. -/
def IsVersion (version : Text) : Prop :=
  ∃ major minor patch, Text.IsDecimal major ∧ Text.IsDecimal minor ∧
    Text.IsDecimal patch ∧ version = major ++ '.' :: (minor ++ '.' :: patch)

variable {next : Text → Bool} {text decimal rest version : Text}

theorem digits_append (hdecimal : Text.IsDecimal decimal)
    (hrest : rest.takeWhile Char.isDigit = []) :
    digits next (decimal ++ rest) = next rest := by
  have hdrop : rest.dropWhile Char.isDigit = rest := by
    have happend := List.takeWhile_append_dropWhile (p := Char.isDigit)
      (l := rest)
    rwa [hrest, List.nil_append] at happend
  rw [digits, List.takeWhile_append_of_pos hdecimal.2,
    List.dropWhile_append_of_pos hdecimal.2, hrest, hdrop, List.append_nil]
  simp [hdecimal.1]

theorem exists_of_digits (htest : digits next text = true) :
    ∃ decimal rest, Text.IsDecimal decimal ∧ text = decimal ++ rest ∧
      next rest = true := by
  rw [digits, Bool.and_eq_true, decide_eq_true_iff] at htest
  exact ⟨text.takeWhile Char.isDigit, text.dropWhile Char.isDigit,
    ⟨htest.1, fun _ => List.mem_takeWhile_imp⟩,
    List.takeWhile_append_dropWhile.symm, htest.2⟩

theorem exists_of_dot (htest : dot next text = true) :
    ∃ rest, text = '.' :: rest ∧ next rest = true := by
  unfold dot at htest
  split at htest
  · exact ⟨_, rfl, htest⟩
  · cases htest

theorem test_eq_true_iff : test version = true ↔ IsVersion version := by
  constructor
  · intro htest
    obtain ⟨major, afterMajor, hmajor, rfl, hdot⟩ := exists_of_digits htest
    obtain ⟨fromMinor, rfl, hdigits⟩ := exists_of_dot hdot
    obtain ⟨minor, afterMinor, hminor, rfl, hdot₂⟩ := exists_of_digits hdigits
    obtain ⟨fromPatch, rfl, hdigits₂⟩ := exists_of_dot hdot₂
    obtain ⟨patch, behind, hpatch, rfl, hend⟩ := exists_of_digits hdigits₂
    rw [of_decide_eq_true hend, List.append_nil]
    exact ⟨major, minor, patch, hmajor, hminor, hpatch, rfl⟩
  · rintro ⟨major, minor, patch, hmajor, hminor, hpatch, rfl⟩
    have hpatchEnd :
        digits (· = []) (patch ++ []) = decide (([] : Text) = []) :=
      digits_append hpatch rfl
    rw [List.append_nil] at hpatchEnd
    rw [test, digits_append hmajor rfl, dot, digits_append hminor rfl, dot,
      hpatchEnd]
    rfl

/-! ## Creation and compatibility -/

theorem construct_eq_none (value : Text) : construct value = none := by
  rw [construct]
  cases hthis : valueObject value with
  | none => rfl
  | some this =>
      have hfrozen : this.Frozen := by
        rw [valueObject] at hthis
        obtain ⟨defined, -, hassigned⟩ := Option.bind_eq_some_iff.mp hthis
        obtain ⟨assigned, -, hfreeze⟩ := Option.bind_eq_some_iff.mp hassigned
        rw [← Option.some.inj hfreeze]
        exact JsObject.frozen_freeze assigned
      simp [hfrozen.define_eq_none]

theorem not_created (version : Text) (semVer : SemVer) :
    create version ≠ .ok semVer := by
  rw [create, construct_eq_none]
  split <;> simp

theorem isCompatibleWith_iff {this other : SemVer}
    {major minor otherMajor otherMinor : ℕ∞}
    (hmajor : getMajor this = .number major)
    (hminor : getMinor this = .number minor)
    (hotherMajor : getMajor other = .number otherMajor)
    (hotherMinor : getMinor other = .number otherMinor) :
    isCompatibleWith this other = true ↔
      major = otherMajor ∧ otherMinor ≤ minor := by
  rw [isCompatibleWith, hmajor, hminor, hotherMajor, hotherMinor,
    Bool.and_eq_true, decide_eq_true_iff, greaterOrEqual, decide_eq_true_iff,
    Field.number.injEq]

/-- A text is accepted as a version if and only if it is one, and the versions
that are created from it are compatible with themselves, with what those are
compatible with that they are compatible with, and with those that have the
same major and no greater minor number. -/
structure Usable (version : Text) : Prop where
  accepted : (∃ semVer, create version = .ok semVer) ↔ IsVersion version
  reflexive : ∀ semVer, create version = .ok semVer →
    isCompatibleWith semVer semVer = true
  transitive : ∀ first, create version = .ok first →
    ∀ second third secondText thirdText, create secondText = .ok second →
      create thirdText = .ok third → isCompatibleWith first second = true →
        isCompatibleWith second third = true →
          isCompatibleWith first third = true
  compatible_iff : ∀ semVer, create version = .ok semVer →
    ∀ other otherText, create otherText = .ok other →
      (isCompatibleWith semVer other = true ↔
        getMajor semVer = getMajor other ∧
          greaterOrEqual (getMinor semVer) (getMinor other) = true)

theorem usable_iff (version : Text) : Usable version ↔ ¬ IsVersion version := by
  constructor
  · intro husable hversion
    obtain ⟨semVer, hcreated⟩ := husable.accepted.mpr hversion
    exact not_created version semVer hcreated
  · intro hversion
    refine ⟨iff_of_false ?_ hversion, ?_, ?_, ?_⟩
    · rintro ⟨semVer, hcreated⟩
      exact not_created version semVer hcreated
    · exact fun semVer hcreated => absurd hcreated (not_created _ _)
    · exact fun first hcreated => absurd hcreated (not_created _ _)
    · exact fun semVer hcreated => absurd hcreated (not_created _ _)

theorem create_throws_typeError :
    create "1.2.3".toList = .error .typeError ∧
      IsVersion "1.2.3".toList ∧ ¬ Usable "1.2.3".toList := by
  have hversion : IsVersion "1.2.3".toList :=
    ⟨['1'], ['2'], ['3'], by decide, by decide, by decide, rfl⟩
  have htest : create "1.2.3".toList = .error .typeError := by
    rw [create, test_eq_true_iff.mpr hversion, construct_eq_none]
    rfl
  refine ⟨htest, hversion, fun husable => ?_⟩
  obtain ⟨semVer, hcreated⟩ := husable.accepted.mpr hversion
  rw [htest] at hcreated
  cases hcreated

end SemVer

end TsCommons.Contracts
