import TsCommons.Foundations.InsertionMap
import Mathlib.Data.List.ReduceOption

/-!
# Iterating over a map that changes

The data of a map are its records, of which those of deleted keys stay behind
empty.  A loop visits the records by a cursor, so that a deleted entry is not
visited, an entry that is written keeps its place, and a new one is visited
last.
-/

namespace TsCommons.Foundations

variable {κ ν : Type*}

namespace MapData

variable [DecidableEq κ]

def putRecord (key : κ) (value : ν) :
    List (Option (κ × ν)) → List (Option (κ × ν))
  | [] => [some (key, value)]
  | none :: rest => none :: putRecord key value rest
  | some (key', value') :: rest =>
      if key' = key then some (key, value) :: rest
      else some (key', value') :: putRecord key value rest

def deleteRecord (key : κ) (records : List (Option (κ × ν))) :
    List (Option (κ × ν)) :=
  records.map fun record => record.filter fun entry => entry.1 ≠ key

theorem reduceOption_putRecord (key : κ) (value : ν)
    (records : List (Option (κ × ν))) :
    (putRecord key value records).reduceOption =
      InsertionMap.put key value records.reduceOption := by
  induction records with
  | nil => rfl
  | cons record rest ih =>
      cases record with
      | none =>
          rw [putRecord, List.reduceOption_cons_of_none,
            List.reduceOption_cons_of_none, ih]
      | some entry =>
          obtain ⟨key', value'⟩ := entry
          by_cases heq : key' = key
          · simp [putRecord, InsertionMap.put, heq]
          · simp [putRecord, InsertionMap.put, heq, ih]

theorem reduceOption_deleteRecord (key : κ)
    (records : List (Option (κ × ν))) :
    (deleteRecord key records).reduceOption =
      records.reduceOption.filter fun entry => entry.1 ≠ key := by
  induction records with
  | nil => rfl
  | cons record rest ih =>
      rw [deleteRecord] at ih ⊢
      cases record with
      | none => simpa using ih
      | some entry =>
          obtain ⟨key', value'⟩ := entry
          by_cases heq : key' = key
          · simpa [heq, Option.filter] using ih
          · simpa [heq, Option.filter] using ih

end MapData

/-- The records of a map, with empty ones for keys that were deleted. -/
structure MapData (κ ν : Type*) where
  records : List (Option (κ × ν))
  nodup : (records.reduceOption.map Prod.fst).Nodup
deriving DecidableEq

namespace MapData

def empty : MapData κ ν := ⟨[], List.nodup_nil⟩

/-- The map of the entries in their order. -/
def toMap (data : MapData κ ν) : InsertionMap κ ν :=
  ⟨data.records.reduceOption, data.nodup⟩

/-- What a loop has still to visit if the map does not change again. -/
def remaining (data : MapData κ ν) (cursor : ℕ) : List (κ × ν) :=
  (data.records.drop cursor).reduceOption

/-- The first record that is not empty, and the cursor behind it. -/
def advance : List (Option (κ × ν)) → ℕ → Option ((κ × ν) × ℕ)
  | [], _ => none
  | none :: rest, cursor => advance rest (cursor + 1)
  | some entry :: _, cursor => some (entry, cursor + 1)

def next (data : MapData κ ν) (cursor : ℕ) : Option ((κ × ν) × ℕ) :=
  advance (data.records.drop cursor) cursor

section Loops

variable {data : MapData κ ν} {cursor later : ℕ} {entry : κ × ν}
  {records : List (Option (κ × ν))}

theorem advance_eq_none (hnone : advance records cursor = none) :
    records.reduceOption = [] := by
  induction records generalizing cursor with
  | nil => rfl
  | cons record rest ih =>
      cases record with
      | none => exact (List.reduceOption_cons_of_none rest).trans (ih hnone)
      | some found => cases hnone

theorem advance_eq_some
    (hsome : advance records cursor = some (entry, later)) :
    ∃ count, later = cursor + count ∧
      records.reduceOption = entry :: (records.drop count).reduceOption := by
  induction records generalizing cursor with
  | nil => cases hsome
  | cons record rest ih =>
      cases record with
      | none =>
          obtain ⟨count, rfl, hrest⟩ := ih hsome
          refine ⟨count + 1, by omega, ?_⟩
          rw [List.reduceOption_cons_of_none, hrest, List.drop_succ_cons]
      | some found =>
          cases hsome
          refine ⟨1, rfl, ?_⟩
          rw [List.reduceOption_cons_of_some, List.drop_succ_cons,
            List.drop_zero]

theorem remaining_of_next_eq_none (hnext : data.next cursor = none) :
    data.remaining cursor = [] :=
  advance_eq_none hnext

theorem remaining_of_next (hnext : data.next cursor = some (entry, later)) :
    data.remaining cursor = entry :: data.remaining later := by
  obtain ⟨count, rfl, hrest⟩ := advance_eq_some hnext
  rw [remaining, hrest, remaining, List.drop_drop]

theorem mem_remaining :
    entry ∈ data.remaining cursor ↔ some entry ∈ data.records.drop cursor :=
  List.reduceOption_mem_iff

theorem remaining_zero (data : MapData κ ν) :
    data.remaining 0 = data.toMap.entries := rfl

theorem remaining_sublist (data : MapData κ ν) (cursor : ℕ) :
    (data.remaining cursor).Sublist data.toMap.entries :=
  (List.drop_sublist cursor data.records).filterMap id

theorem nodup_remaining (data : MapData κ ν) (cursor : ℕ) :
    ((data.remaining cursor).map Prod.fst).Nodup :=
  data.nodup.sublist ((data.remaining_sublist cursor).map Prod.fst)

end Loops

variable [DecidableEq κ]

def get (data : MapData κ ν) (key : κ) : Option ν := data.toMap.get key

def set (data : MapData κ ν) (key : κ) (value : ν) : MapData κ ν where
  records := putRecord key value data.records
  nodup := by
    rw [reduceOption_putRecord]
    exact InsertionMap.nodup_put key value data.nodup

def delete (data : MapData κ ν) (key : κ) : MapData κ ν where
  records := deleteRecord key data.records
  nodup := by
    rw [reduceOption_deleteRecord]
    exact data.nodup.sublist (List.filter_sublist.map Prod.fst)

variable {data : MapData κ ν} {cursor : ℕ} {key other : κ} {value : ν}
  {entry : κ × ν}

theorem toMap_set : (data.set key value).toMap = data.toMap.set key value :=
  InsertionMap.ext (reduceOption_putRecord key value data.records)

theorem toMap_delete : (data.delete key).toMap = data.toMap.delete key :=
  InsertionMap.ext (reduceOption_deleteRecord key data.records)

theorem get_set :
    (data.set key value).get other =
      if other = key then some value else data.get other := by
  rw [get, toMap_set, InsertionMap.get_set]
  rfl

theorem get_delete :
    (data.delete key).get other =
      if other = key then none else data.get other := by
  rw [get, toMap_delete, InsertionMap.get_delete]
  rfl

theorem get_of_mem_remaining (hmem : entry ∈ data.remaining cursor) :
    data.get entry.1 = some entry.2 :=
  InsertionMap.get_eq_some_iff.mpr ((data.remaining_sublist cursor).subset hmem)

theorem mem_remaining_zero :
    entry ∈ data.remaining 0 ↔ data.get entry.1 = some entry.2 := by
  rw [remaining_zero]
  exact InsertionMap.get_eq_some_iff.symm

theorem mem_drop_putRecord {records : List (Option (κ × ν))}
    (hne : entry.1 ≠ key) :
    some entry ∈ (putRecord key value records).drop cursor ↔
      some entry ∈ records.drop cursor := by
  have hnew : (some entry : Option (κ × ν)) ≠ some (key, value) := by
    rintro heq
    cases heq
    exact hne rfl
  induction records generalizing cursor with
  | nil =>
      cases cursor with
      | zero => simpa [putRecord] using hnew
      | succ cursor => simp [putRecord]
  | cons record rest ih =>
      cases record with
      | none =>
          cases cursor with
          | zero =>
              have hrest := @ih 0
              simpa [putRecord] using hrest
          | succ cursor => simpa [putRecord] using ih
      | some found =>
          obtain ⟨key', value'⟩ := found
          by_cases heq : key' = key
          · have hold : (some entry : Option (κ × ν)) ≠
                some (key', value') := by
              rintro hsame
              cases hsame
              exact hne heq
            cases cursor with
            | zero =>
                rw [putRecord, if_pos heq, List.drop_zero, List.drop_zero,
                  List.mem_cons, List.mem_cons, or_iff_right hnew,
                  or_iff_right hold]
            | succ cursor => rw [putRecord, if_pos heq]; rfl
          · cases cursor with
            | zero =>
                rw [putRecord, if_neg heq, List.drop_zero, List.drop_zero,
                  List.mem_cons, List.mem_cons]
                exact or_congr_right (@ih 0)
            | succ cursor =>
                rw [putRecord, if_neg heq, List.drop_succ_cons,
                  List.drop_succ_cons]
                exact ih

/-- A write does not move the entries of other keys. -/
theorem mem_remaining_set (hne : entry.1 ≠ key) :
    entry ∈ (data.set key value).remaining cursor ↔
      entry ∈ data.remaining cursor := by
  rw [mem_remaining, mem_remaining]
  exact mem_drop_putRecord hne

theorem eq_of_mem_remaining_set
    (hmem : entry ∈ (data.set key value).remaining cursor)
    (hkey : entry.1 = key) : entry.2 = value := by
  have hget := get_of_mem_remaining hmem
  rw [get_set, if_pos hkey, Option.some.injEq] at hget
  exact hget.symm

theorem mem_remaining_delete :
    entry ∈ (data.delete key).remaining cursor ↔
      entry ∈ data.remaining cursor ∧ entry.1 ≠ key := by
  have hdrop : (data.delete key).remaining cursor =
      (data.remaining cursor).filter fun entry => entry.1 ≠ key := by
    rw [remaining, remaining, ← reduceOption_deleteRecord]
    simp only [delete, deleteRecord, List.map_drop]
  rw [hdrop, List.mem_filter, decide_eq_true_eq]

end MapData

end TsCommons.Foundations
