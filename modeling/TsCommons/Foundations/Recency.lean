import Mathlib.Data.List.Basic
import Mathlib.Data.List.Nodup
import Mathlib.Tactic.Common

/-!
# Lists in order of recency

Items that have a key stand in a list, the one that was recorded last first.
Recording an item takes the place of the item with its key, forgetting a key
drops it.  A search from the front then finds the most recent item that passes
a test.
-/

namespace TsCommons.Foundations

variable {α κ : Type*} [DecidableEq κ]

/-- Drop the item with the key. -/
def forget (key : α → κ) (k : κ) (items : List α) : List α :=
  items.filter fun item => key item ≠ k

/-- Put an item in front, in the place of the one with its key. -/
def record (key : α → κ) (x : α) (items : List α) : List α :=
  x :: forget key (key x) items

variable {key : α → κ} {k other : κ} {x y : α} {items : List α}
  {test : α → Bool}

theorem mem_forget : y ∈ forget key k items ↔ y ∈ items ∧ key y ≠ k := by
  simp [forget]

theorem nodup_forget (hnodup : (items.map key).Nodup) :
    ((forget key k items).map key).Nodup :=
  hnodup.sublist (List.filter_sublist.map key)

theorem nodup_record (hnodup : (items.map key).Nodup) :
    ((record key x items).map key).Nodup := by
  rw [record, List.map_cons]
  apply List.nodup_cons.mpr
  constructor
  · intro hmem
    obtain ⟨y, hy, hkey⟩ := List.mem_map.mp hmem
    exact (mem_forget.mp hy).2 hkey
  · exact nodup_forget hnodup

theorem find?_forget_of_none (hfind : items.find? test = none) :
    (forget key k items).find? test = none := by
  rw [List.find?_eq_none] at hfind ⊢
  intro y hy
  exact hfind y (mem_forget.mp hy).1

theorem find?_forget_of_some (hfind : items.find? test = some y)
    (hne : key y ≠ k) : (forget key k items).find? test = some y := by
  unfold forget
  induction items with
  | nil => cases hfind
  | cons item rest ih =>
      by_cases htest : test item = true
      · rw [List.find?_cons_of_pos htest, Option.some.injEq] at hfind
        subst y
        rw [List.filter_cons_of_pos (by simpa using hne),
          List.find?_cons_of_pos htest]
      · rw [List.find?_cons_of_neg htest] at hfind
        by_cases hkey : key item = k
        · rw [List.filter_cons_of_neg (by simpa using hkey)]
          exact ih hfind
        · rw [List.filter_cons_of_pos (by simpa using hkey),
            List.find?_cons_of_neg htest]
          exact ih hfind

theorem find?_record_of_pos (htest : test x = true) :
    (record key x items).find? test = some x :=
  List.find?_cons_of_pos htest

theorem find?_record_of_neg (htest : ¬ test x = true) :
    (record key x items).find? test =
      (forget key (key x) items).find? test :=
  List.find?_cons_of_neg htest

theorem find?_key_of_mem (hnodup : (items.map key).Nodup) (hy : y ∈ items) :
    items.find? (fun item => key item = key y) = some y := by
  cases hfind : items.find? fun item => key item = key y with
  | none =>
      rw [List.find?_eq_none] at hfind
      exact absurd (by simp) (hfind y hy)
  | some z =>
      have hkey : key z = key y := by simpa using List.find?_some hfind
      have hz := List.mem_of_find?_eq_some hfind
      rw [List.inj_on_of_nodup_map hnodup hz hy hkey]

theorem find?_key_forget (items : List α) (k other : κ) :
    (forget key k items).find? (fun item => key item = other) =
      if other = k then none
      else items.find? fun item => key item = other := by
  by_cases hother : other = k
  · subst other
    rw [if_pos rfl, List.find?_eq_none]
    intro y hy
    simpa using (mem_forget.mp hy).2
  · rw [if_neg hother]
    cases hfind : items.find? fun item => key item = other with
    | none => exact find?_forget_of_none hfind
    | some y =>
        apply find?_forget_of_some hfind
        have hkey : key y = other := by
          simpa using List.find?_some hfind
        rw [hkey]
        exact hother

theorem find?_key_record (x : α) (items : List α) (other : κ) :
    (record key x items).find? (fun item => key item = other) =
      if other = key x then some x
      else items.find? fun item => key item = other := by
  by_cases hother : other = key x
  · rw [if_pos hother, find?_record_of_pos (by simpa using hother.symm)]
  · rw [if_neg hother, find?_record_of_neg (by simpa using Ne.symm hother),
      find?_key_forget, if_neg hother]

end TsCommons.Foundations
