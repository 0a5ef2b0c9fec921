import TsCommons.Foundations.JsonEquality

/-!
# Value objects

Values that are objects or arrays are compared through their JSON texts, all
others by strict equality.  A text shows the order in which an object lists
its keys, so two value objects are equal when their values are, order
included.
-/

namespace TsCommons.Kernel

open Foundations

variable {N : Type} {format : Json.NumberFormat N}

/-- `value` is plain data: its numbers are finite and the keys of an object
distinct. -/
structure ValueObject (format : Json.NumberFormat N) where
  value : Json N
  plain : Json.WellFormed format value

namespace ValueObject

variable [DecidableEq N]

/-- `value === otherValue` for a primitive `value`. -/
def strictEquals : Json N → Json N → Bool
  | .null, .null => true
  | .bool value, .bool otherValue => value = otherValue
  | .number value, .number otherValue => value = otherValue
  | .string value, .string otherValue => value = otherValue
  | _, _ => false

def compareTo (this : ValueObject format) (otherValue : Json N) : Bool :=
  match this.value with
  | .array _ | .object _ =>
      Json.stringify format this.value = Json.stringify format otherValue
  | _ => strictEquals this.value otherValue

def equals (this other : ValueObject format) : Bool :=
  this.compareTo other.value

variable {this other third : ValueObject format}

/-- Two value objects are equal if and only if they hold the same value, with
the same order of keys. -/
theorem equals_eq_true_iff :
    this.equals other = true ↔ this.value = other.value := by
  have htext : decide (Json.stringify format this.value =
      Json.stringify format other.value) = true ↔
        this.value = other.value := by
    rw [decide_eq_true_iff]
    constructor
    · exact Json.stringify_injective this.plain other.plain
    · intro heq
      rw [heq]
  unfold equals compareTo
  split
  · exact htext
  · exact htext
  · rename_i harray hobject
    cases hthis : this.value with
    | array items => exact absurd hthis (harray items)
    | object fields => exact absurd hthis (hobject fields)
    | _ => cases other.value <;> simp [strictEquals]

theorem equals_equivalence :
    Equivalence fun this other : ValueObject format =>
      this.equals other = true where
  refl _ := equals_eq_true_iff.mpr rfl
  symm hequals := equals_eq_true_iff.mpr (equals_eq_true_iff.mp hequals).symm
  trans hfirst hsecond := equals_eq_true_iff.mpr
    ((equals_eq_true_iff.mp hfirst).trans (equals_eq_true_iff.mp hsecond))

/-- `equals` is an equivalence, and it tells for two value objects whether
they have the same content exactly when they have not, or list the keys of
their objects in the same order. -/
theorem equals_iff_sameContent_iff (format : Json.NumberFormat N) :
    (Equivalence fun this other : ValueObject format =>
      this.equals other = true) ∧
    ∀ this other : ValueObject format,
      (this.equals other = true ↔
        Json.SameContent this.value other.value) ↔
      (Json.SameContent this.value other.value →
        Json.SameKeyOrder this.value other.value) := by
  refine ⟨equals_equivalence, fun this other => ?_⟩
  rw [equals_eq_true_iff, Json.eq_iff_sameContent this.plain other.plain]
  tauto

/-- An amount of money. -/
def money : ValueObject Json.decimal where
  value := .object
    [("amount".toList, .number 5), ("currency".toList, .string "USD".toList)]
  plain := by simp [Json.WellFormed, Json.WellFormedFields, Json.decimal]

def moneyCurrencyFirst : ValueObject Json.decimal where
  value := .object
    [("currency".toList, .string "USD".toList), ("amount".toList, .number 5)]
  plain := by simp [Json.WellFormed, Json.WellFormedFields, Json.decimal]

theorem equals_money_currencyFirst :
    money.equals moneyCurrencyFirst = false ∧
      Json.SameContent money.value moneyCurrencyFirst.value := by
  refine ⟨by decide +kernel, ?_⟩
  rw [money, moneyCurrencyFirst, Json.SameContent, Json.SameFields,
    Json.SameFields, Json.SameFields]
  refine ⟨fun key => ?_, ⟨.number 5, rfl, ?_⟩,
    ⟨.string "USD".toList, rfl, ?_⟩, trivial⟩
  · simp only [List.map_cons, List.map_nil, List.mem_cons, List.not_mem_nil,
      or_false]
    exact or_comm
  · rw [Json.SameContent]
  · rw [Json.SameContent]

end ValueObject

end TsCommons.Kernel
