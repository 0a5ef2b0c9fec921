import Mathlib.Data.List.Basic
import Mathlib.Data.List.Count
import Mathlib.Data.List.Perm.Basic
import Mathlib.Tactic.Common

/-!
# Iterating over a list that changes

A loop visits the items of a list by a cursor, while items are pushed at the
end of the list or spliced out of it.  The cursor does not move with the items:
after a splice ahead of it the other unvisited items are still to come, but a
splice behind it moves the next item into the visited part.
-/

namespace TsCommons.Foundations

variable {α : Type*} {items : List α} {cursor index : ℕ} {x y : α}

/-- What the loop has still to visit if the list does not change again. -/
def unvisited (items : List α) (cursor : ℕ) : List α := items.drop cursor

@[simp] theorem unvisited_zero (items : List α) :
    unvisited items 0 = items := rfl

theorem unvisited_eq_nil (hend : items.length ≤ cursor) :
    unvisited items cursor = [] :=
  List.drop_eq_nil_of_le hend

theorem unvisited_eq_cons (hitem : items[cursor]? = some x) :
    unvisited items cursor = x :: unvisited items (cursor + 1) := by
  obtain ⟨hlt, rfl⟩ := List.getElem?_eq_some_iff.mp hitem
  exact List.drop_eq_getElem_cons hlt

theorem unvisited_push (items : List α) (cursor : ℕ) (x : α) :
    unvisited (items ++ [x]) cursor =
      unvisited items cursor ++ if cursor ≤ items.length then [x] else [] := by
  unfold unvisited
  rw [List.drop_append]
  congr 1
  by_cases hle : cursor ≤ items.length
  · rw [if_pos hle, Nat.sub_eq_zero_of_le hle, List.drop_zero]
  · rw [if_neg hle]
    apply List.drop_eq_nil_of_le
    rw [List.length_singleton]
    omega

theorem unvisited_splice_behind (hbehind : index < cursor) :
    unvisited (items.eraseIdx index) cursor =
      unvisited items (cursor + 1) := by
  unfold unvisited
  apply List.ext_getElem?
  intro offset
  have hle : ¬ cursor + offset < index := by omega
  rw [List.getElem?_drop, List.getElem?_drop, List.getElem?_eraseIdx,
    if_neg hle]
  congr 1
  omega

theorem unvisited_splice_ahead (hahead : cursor ≤ index) :
    unvisited (items.eraseIdx index) cursor =
      (unvisited items cursor).eraseIdx (index - cursor) := by
  unfold unvisited
  apply List.ext_getElem?
  intro offset
  rw [List.getElem?_drop, List.getElem?_eraseIdx, List.getElem?_eraseIdx,
    List.getElem?_drop, List.getElem?_drop]
  by_cases hbefore : offset < index - cursor
  · rw [if_pos hbefore, if_pos (by omega)]
  · rw [if_neg hbefore, if_neg (by omega), Nat.add_assoc]

section Count

variable [DecidableEq α]

theorem count_unvisited_le (items : List α) (cursor : ℕ) (y : α) :
    (unvisited items cursor).count y ≤ items.count y :=
  (List.drop_sublist cursor items).count_le y

theorem count_unvisited_next (hitem : items[cursor]? = some x) (y : α) :
    (unvisited items cursor).count y =
      (unvisited items (cursor + 1)).count y + if x = y then 1 else 0 := by
  rw [unvisited_eq_cons hitem, List.count_cons]
  simp only [beq_iff_eq]

/-- A splice changes only how often the item that is taken out occurs. -/
theorem count_splice (hitem : items[index]? = some x) (y : α) :
    items.count y =
      (items.eraseIdx index).count y + if x = y then 1 else 0 := by
  obtain ⟨hlt, hget⟩ := List.getElem?_eq_some_iff.mp hitem
  have hcount := (List.getElem_cons_eraseIdx_perm hlt).count_eq y
  rw [List.count_cons, hget] at hcount
  simp only [beq_iff_eq] at hcount
  exact hcount.symm

theorem count_unvisited_splice_ahead (hahead : cursor ≤ index)
    (hitem : items[index]? = some x) (y : α) :
    (unvisited items cursor).count y =
      (unvisited (items.eraseIdx index) cursor).count y +
        if x = y then 1 else 0 := by
  rw [unvisited_splice_ahead hahead]
  apply count_splice
  unfold unvisited
  rw [List.getElem?_drop, Nat.add_sub_cancel' hahead]
  exact hitem

/-- A splice behind the cursor takes the turn of the item at the cursor. -/
theorem count_unvisited_splice_behind (items : List α)
    (hbehind : index < cursor) (y : α) :
    (unvisited items cursor).count y =
      (unvisited (items.eraseIdx index) cursor).count y +
        if items[cursor]? = some y then 1 else 0 := by
  rw [unvisited_splice_behind hbehind]
  cases hitem : items[cursor]? with
  | none =>
      have hend := List.getElem?_eq_none_iff.mp hitem
      rw [unvisited_eq_nil hend, unvisited_eq_nil (Nat.le_succ_of_le hend)]
      simp
  | some x =>
      rw [count_unvisited_next hitem y]
      simp only [Option.some.injEq]

end Count

end TsCommons.Foundations
