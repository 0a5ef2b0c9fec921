import TsCommons.Foundations.InsertionMap

/-!
# Objects and their integrity

The own data properties of an ECMAScript object.  A field of a class is
defined, an assignment of strict code is set; either throws where the object
does not allow it.  A frozen object allows neither.
-/

namespace TsCommons.Foundations

structure Property (V : Type) where
  value : V
  writable : Bool
  configurable : Bool
deriving DecidableEq

structure JsObject (V : Type) where
  properties : InsertionMap String (Property V)
  extensible : Bool
deriving DecidableEq

namespace JsObject

variable {V : Type} {object : JsObject V}

def empty : JsObject V := ⟨.empty, true⟩

def get (object : JsObject V) (name : String) : Option V :=
  (object.properties.get name).map Property.value

def write (object : JsObject V) (name : String) (property : Property V) :
    JsObject V :=
  { object with properties := object.properties.set name property }

/-- A field of a class is defined; `none` is a `TypeError`. -/
def define (object : JsObject V) (name : String) (value : V) :
    Option (JsObject V) :=
  match object.properties.get name with
  | some property =>
      if property.configurable then
        some (object.write name ⟨value, true, true⟩)
      else none
  | none =>
      if object.extensible then some (object.write name ⟨value, true, true⟩)
      else none

/-- `object[name] = value` in strict code; `none` is a `TypeError`. -/
def assign (object : JsObject V) (name : String) (value : V) :
    Option (JsObject V) :=
  match object.properties.get name with
  | some property =>
      if property.writable then
        some (object.write name { property with value := value })
      else none
  | none =>
      if object.extensible then some (object.write name ⟨value, true, true⟩)
      else none

/-- `Object.freeze(object)` -/
def freeze (object : JsObject V) : JsObject V where
  properties := object.properties.mapValues fun property =>
    { property with writable := false, configurable := false }
  extensible := false

def Frozen (object : JsObject V) : Prop :=
  object.extensible = false ∧
    ∀ name property, object.properties.get name = some property →
      property.writable = false ∧ property.configurable = false

theorem frozen_freeze (object : JsObject V) : object.freeze.Frozen := by
  refine ⟨rfl, ?_⟩
  intro name property hget
  rw [freeze, InsertionMap.get_mapValues] at hget
  obtain ⟨old, -, rfl⟩ := Option.map_eq_some_iff.mp hget
  exact ⟨rfl, rfl⟩

theorem Frozen.define_eq_none (hfrozen : object.Frozen) (name : String)
    (value : V) : object.define name value = none := by
  rw [define]
  cases hget : object.properties.get name with
  | none => simp [hfrozen.1]
  | some property => simp [(hfrozen.2 name property hget).2]

end JsObject

end TsCommons.Foundations
