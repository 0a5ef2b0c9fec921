import Mathlib.Data.List.Basic
import Mathlib.Tactic.Common

/-!
# Turning some occurrences of a value

The first occurrences of a value in a list, or the last ones, are turned into
another value; everything else stays in its place.  A pass over the list that
asks a test of every element does this if the test tells the chosen elements
from all others.
-/

namespace TsCommons.Foundations

variable {α β : Type*} [DecidableEq β]

def turnFirst (old new : β) : ℕ → List β → List β
  | 0, values => values
  | _, [] => []
  | count + 1, value :: values =>
      if value = old then new :: turnFirst old new count values
      else value :: turnFirst old new (count + 1) values

@[simp] theorem turnFirst_zero (old new : β) (values : List β) :
    turnFirst old new 0 values = values := by
  cases values with
  | nil => rfl
  | cons value values => rfl

def turnLast (old new : β) (count : ℕ) (values : List β) : List β :=
  (turnFirst old new count values.reverse).reverse

section Pass

variable {f : α → β} {old new : β} {test : α → Prop} [DecidablePred test]
  {list : List α} {count : ℕ}

theorem map_eq_turnFirst
    (hchosen : ∀ x ∈ (list.filter (f · = old)).take count, test x)
    (hleft : ∀ x ∈ (list.filter (f · = old)).drop count, ¬ test x)
    (hother : ∀ x ∈ list, f x ≠ old → f x ≠ new → ¬ test x) :
    list.map (fun x => if test x then new else f x) =
      turnFirst old new count (list.map f) := by
  induction list generalizing count with
  | nil =>
      cases count with
      | zero => rfl
      | succ count => rfl
  | cons x list ih =>
      have hothers : ∀ y ∈ list, f y ≠ old → f y ≠ new → ¬ test y :=
        fun y hy => hother y (List.mem_cons_of_mem x hy)
      by_cases hold : f x = old
      · rw [List.filter_cons_of_pos (by simpa using hold)] at hchosen hleft
        cases count with
        | zero =>
            have htest : ¬ test x := hleft x List.mem_cons_self
            have hrest : list.map (fun x => if test x then new else f x) =
                turnFirst old new 0 (list.map f) :=
              ih (by simp) (fun y hy => hleft y (List.mem_cons_of_mem x hy))
                hothers
            rw [List.map_cons, if_neg htest, hrest, turnFirst_zero,
              turnFirst_zero, List.map_cons]
        | succ count =>
            rw [List.take_succ_cons] at hchosen
            rw [List.drop_succ_cons] at hleft
            have htest : test x := hchosen x List.mem_cons_self
            have hrest := ih
              (fun y hy => hchosen y (List.mem_cons_of_mem x hy)) hleft hothers
            rw [List.map_cons, if_pos htest, hrest, List.map_cons, turnFirst,
              if_pos hold]
      · rw [List.filter_cons_of_neg (by simpa using hold)] at hchosen hleft
        have hrest := ih hchosen hleft hothers
        have hhead : (if test x then new else f x) = f x := by
          by_cases hnew : f x = new
          · rw [hnew, ite_self]
          · rw [if_neg (hother x List.mem_cons_self hold hnew)]
        rw [List.map_cons, hhead, hrest, List.map_cons]
        cases count with
        | zero => rw [turnFirst_zero, turnFirst_zero]
        | succ count => rw [turnFirst, if_neg hold]

theorem map_eq_turnLast
    (hchosen : ∀ x ∈ (list.filter (f · = old)).reverse.take count, test x)
    (hleft : ∀ x ∈ (list.filter (f · = old)).reverse.drop count, ¬ test x)
    (hother : ∀ x ∈ list, f x ≠ old → f x ≠ new → ¬ test x) :
    list.map (fun x => if test x then new else f x) =
      turnLast old new count (list.map f) := by
  rw [← List.filter_reverse] at hchosen hleft
  rw [turnLast, ← List.map_reverse, ← map_eq_turnFirst hchosen hleft,
    List.map_reverse, List.reverse_reverse]
  intro x hx
  exact hother x (List.mem_reverse.mp hx)

end Pass

end TsCommons.Foundations
