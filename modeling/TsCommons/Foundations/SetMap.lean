import TsCommons.Foundations.InsertionMap
import TsCommons.Foundations.InsertionSet

/-!
# Maps of sets

A relation kept as a map from keys to sets: a value is added to the set of a
key, which is made if it is not there, and a set that becomes empty is dropped
from the map.
-/

namespace TsCommons.Foundations

variable {κ ν : Type*} [DecidableEq κ] [DecidableEq ν]

def addToSet (map : InsertionMap κ (InsertionSet ν)) (key : κ) (value : ν) :
    InsertionMap κ (InsertionSet ν) :=
  map.set key (((map.get key).getD .empty).add value)

def removeFromSet (map : InsertionMap κ (InsertionSet ν)) (key : κ)
    (value : ν) : InsertionMap κ (InsertionSet ν) :=
  match map.get key with
  | none => map
  | some set =>
      if (set.delete value).size = 0 then map.delete key
      else map.set key (set.delete value)

/-- `map.get(key)?.delete(value)`, which keeps a set that becomes empty. -/
def deleteAt (map : InsertionMap κ (InsertionSet ν)) (key : κ) (value : ν) :
    InsertionMap κ (InsertionSet ν) :=
  match map.get key with
  | none => map
  | some set => map.set key (set.delete value)

/-- `[...(map.get(key) ?? [])]`. -/
def elementsAt (map : InsertionMap κ (InsertionSet ν)) (key : κ) : List ν :=
  ((map.get key).getD .empty).elements

def NoEmptySet (map : InsertionMap κ (InsertionSet ν)) : Prop :=
  ∀ key set, map.get key = some set → set.size ≠ 0

variable {map : InsertionMap κ (InsertionSet ν)} {key other : κ} {value : ν}

theorem elementsAt_addToSet :
    elementsAt (addToSet map key value) other =
      if other = key then InsertionSet.place value (elementsAt map key)
      else elementsAt map other := by
  simp only [elementsAt, addToSet, InsertionMap.get_set]
  split
  · rfl
  · rfl

theorem elementsAt_removeFromSet :
    elementsAt (removeFromSet map key value) other =
      if other = key then (elementsAt map key).filter (· ≠ value)
      else elementsAt map other := by
  unfold removeFromSet
  cases hget : map.get key with
  | none =>
      by_cases heq : other = key
      · simp [elementsAt, heq, hget, InsertionSet.empty]
      · rw [if_neg heq]
  | some set =>
      have hdelete : (elementsAt map key).filter (· ≠ value) =
          (set.delete value).elements := by
        rw [elementsAt, hget]
        rfl
      rw [hdelete]
      by_cases hempty : (set.delete value).size = 0
      · simp only [if_pos hempty, elementsAt, InsertionMap.get_delete]
        split
        · exact (List.length_eq_zero_iff.mp hempty).symm
        · rfl
      · simp only [if_neg hempty, elementsAt, InsertionMap.get_set]
        split
        · rfl
        · rfl

theorem elementsAt_deleteAt :
    elementsAt (deleteAt map key value) other =
      if other = key then (elementsAt map key).filter (· ≠ value)
      else elementsAt map other := by
  unfold deleteAt
  cases hget : map.get key with
  | none =>
      by_cases heq : other = key
      · simp [elementsAt, heq, hget, InsertionSet.empty]
      · rw [if_neg heq]
  | some set =>
      by_cases heq : other = key
      · subst heq
        simp only [elementsAt, hget, InsertionMap.get_set_self, if_true]
        rfl
      · simp only [elementsAt, InsertionMap.get_set_of_ne _ _ heq, if_neg heq]

omit [DecidableEq ν] in
theorem elementsAt_delete :
    elementsAt (map.delete key) other =
      if other = key then [] else elementsAt map other := by
  simp only [elementsAt, InsertionMap.get_delete]
  split
  · rfl
  · rfl

/-! ## One value under many keys -/

theorem mem_elementsAt_foldl_addToSet {keys : List κ} {found : ν} :
    found ∈ elementsAt
        (keys.foldl (fun map key => addToSet map key value) map) other ↔
      found = value ∧ other ∈ keys ∨ found ∈ elementsAt map other := by
  induction keys generalizing map with
  | nil => simp
  | cons first rest ih =>
      rw [List.foldl_cons, ih, elementsAt_addToSet]
      by_cases heq : other = first
      · rw [if_pos heq, InsertionSet.mem_place]
        simp [heq]
        tauto
      · rw [if_neg heq]
        simp [heq]

theorem mem_elementsAt_foldl_deleteAt {keys : List κ} {found : ν} :
    found ∈ elementsAt
        (keys.foldl (fun map key => deleteAt map key value) map) other ↔
      found ∈ elementsAt map other ∧ ¬(found = value ∧ other ∈ keys) := by
  induction keys generalizing map with
  | nil => simp
  | cons first rest ih =>
      rw [List.foldl_cons, ih, elementsAt_deleteAt]
      by_cases heq : other = first
      · rw [if_pos heq, List.mem_filter]
        simp [heq]
        tauto
      · rw [if_neg heq]
        simp [heq]

theorem NoEmptySet.addToSet (hmap : NoEmptySet map) (key : κ) (value : ν) :
    NoEmptySet (addToSet map key value) := by
  intro other set hget
  rw [Foundations.addToSet, InsertionMap.get_set] at hget
  by_cases heq : other = key
  · rw [if_pos heq, Option.some.injEq] at hget
    intro hempty
    rw [← hget, InsertionSet.size_eq_zero_iff] at hempty
    exact hempty value (InsertionSet.mem_add.mpr (.inl rfl))
  · rw [if_neg heq] at hget
    exact hmap other set hget

theorem NoEmptySet.removeFromSet (hmap : NoEmptySet map) (key : κ)
    (value : ν) : NoEmptySet (removeFromSet map key value) := by
  unfold Foundations.removeFromSet
  cases hkey : map.get key with
  | none => exact hmap
  | some found =>
      intro other set hget
      by_cases hempty : (found.delete value).size = 0
      · simp only [if_pos hempty, InsertionMap.get_delete] at hget
        by_cases heq : other = key
        · rw [if_pos heq] at hget
          cases hget
        · rw [if_neg heq] at hget
          exact hmap other set hget
      · simp only [if_neg hempty, InsertionMap.get_set] at hget
        by_cases heq : other = key
        · rw [if_pos heq, Option.some.injEq] at hget
          rw [← hget]
          exact hempty
        · rw [if_neg heq] at hget
          exact hmap other set hget

end TsCommons.Foundations
