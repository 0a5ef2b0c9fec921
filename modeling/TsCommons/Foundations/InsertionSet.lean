import Mathlib.Data.List.Nodup
import Mathlib.Tactic.Tauto

/-!
# Insertion-ordered sets

A finite set that remembers the order in which its elements were first added:
adding an element that is there keeps its place, and an element that is
deleted and added again goes to the end.
-/

namespace TsCommons.Foundations

/-- A finite set whose elements stand in insertion order. -/
structure InsertionSet (α : Type*) where
  elements : List α
  nodup : elements.Nodup
deriving DecidableEq

namespace InsertionSet

variable {α : Type*}

instance : Membership α (InsertionSet α) where
  mem set element := element ∈ set.elements

theorem mem_def {set : InsertionSet α} {element : α} :
    element ∈ set ↔ element ∈ set.elements := Iff.rfl

def empty : InsertionSet α := ⟨[], List.nodup_nil⟩

def size (set : InsertionSet α) : ℕ := set.elements.length

@[simp] theorem not_mem_empty (element : α) :
    element ∉ (empty : InsertionSet α) := List.not_mem_nil

theorem size_eq_zero_iff {set : InsertionSet α} :
    set.size = 0 ↔ ∀ element, element ∉ set := by
  rw [size, List.length_eq_zero_iff, List.eq_nil_iff_forall_not_mem]
  rfl

variable [DecidableEq α]

instance (element : α) (set : InsertionSet α) : Decidable (element ∈ set) :=
  inferInstanceAs (Decidable (element ∈ set.elements))

def place (element : α) (elements : List α) : List α :=
  if element ∈ elements then elements else elements ++ [element]

theorem mem_place {element other : α} {elements : List α} :
    other ∈ place element elements ↔ other = element ∨ other ∈ elements := by
  unfold place
  split
  · rename_i hmem
    refine ⟨Or.inr, fun hother => ?_⟩
    rcases hother with rfl | hother
    · exact hmem
    · exact hother
  · simp [or_comm]

theorem nodup_place (element : α) {elements : List α}
    (hnodup : elements.Nodup) : (place element elements).Nodup := by
  unfold place
  split
  · exact hnodup
  · rename_i hnew
    rw [← List.concat_eq_append]
    exact hnodup.concat hnew

def add (set : InsertionSet α) (element : α) : InsertionSet α where
  elements := place element set.elements
  nodup := nodup_place element set.nodup

def delete (set : InsertionSet α) (element : α) : InsertionSet α where
  elements := set.elements.filter (· ≠ element)
  nodup := set.nodup.sublist List.filter_sublist

@[simp] theorem mem_add {set : InsertionSet α} {element other : α} :
    other ∈ set.add element ↔ other = element ∨ other ∈ set :=
  mem_place

@[simp] theorem mem_delete {set : InsertionSet α} {element other : α} :
    other ∈ set.delete element ↔ other ∈ set ∧ other ≠ element := by
  simp [mem_def, delete]

theorem mem_foldl_add {set : InsertionSet α} {elements : List α}
    {other : α} :
    other ∈ elements.foldl add set ↔ other ∈ elements ∨ other ∈ set := by
  induction elements generalizing set with
  | nil => simp
  | cons first rest ih =>
      rw [List.foldl_cons, ih, mem_add, List.mem_cons]
      tauto

theorem size_add {set : InsertionSet α} {element : α}
    (hnew : element ∉ set) : (set.add element).size = set.size + 1 := by
  rw [mem_def] at hnew
  simp [size, add, place, hnew]

/-- `new Set(elements)` -/
def ofList (elements : List α) : InsertionSet α := elements.foldl add empty

theorem mem_ofList {elements : List α} {element : α} :
    element ∈ ofList elements ↔ element ∈ elements := by
  rw [ofList, mem_foldl_add]
  simp

theorem elements_foldl_add {set : InsertionSet α} {elements : List α}
    (hnodup : (set.elements ++ elements).Nodup) :
    (elements.foldl add set).elements = set.elements ++ elements := by
  induction elements generalizing set with
  | nil => exact (List.append_nil _).symm
  | cons element rest ih =>
      have hnew : element ∉ set.elements := fun hmem =>
        (List.nodup_append.mp hnodup).2.2 _ hmem _ List.mem_cons_self rfl
      have helements : (set.add element).elements = set.elements ++ [element] :=
        if_neg hnew
      rw [List.foldl_cons, ih, helements, List.append_assoc,
        List.singleton_append]
      rwa [helements, List.append_assoc, List.singleton_append]

end InsertionSet

end TsCommons.Foundations
