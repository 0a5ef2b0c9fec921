import Mathlib.Data.List.Nodup
import Mathlib.Logic.Function.Basic

/-!
# Lists of references

The contents of objects are a function of their references.  Two lists of
references may show the same contents without holding the same objects; a
write to an object tells the two apart.
-/

namespace TsCommons.Foundations

variable {α β : Type*} [DecidableEq α] {f : α → β} {a : α} {value : β}
  {list left right : List α}

/-- A list does not show what is written to an object that it does not
hold. -/
theorem map_update_of_not_mem (hmem : a ∉ list) :
    list.map (Function.update f a value) = list.map f := by
  apply List.map_congr_left
  intro item hitem
  have hne : item ≠ a := by
    rintro rfl
    exact hmem hitem
  exact Function.update_of_ne hne value f

theorem map_update_of_mem [DecidableEq β] (hmem : a ∈ list)
    (hnodup : (list.map f).Nodup) :
    list.map (Function.update f a value) =
      (list.map f).map fun item => if item = f a then value else item := by
  rw [List.map_map]
  apply List.map_congr_left
  intro item hitem
  by_cases heq : item = a
  · rw [heq, Function.update_self, Function.comp, if_pos rfl]
  · have hne : f item ≠ f a := fun hsame =>
      heq (List.inj_on_of_nodup_map hnodup hitem hmem hsame)
    rw [Function.update_of_ne heq, Function.comp, if_neg hne]

theorem map_update_ne (hmem : a ∈ list) (hchanged : f a ≠ value) :
    list.map (Function.update f a value) ≠ list.map f := by
  intro hsame
  have hvalue := List.map_inj_left.mp hsame a hmem
  rw [Function.update_self] at hvalue
  exact hchanged hvalue.symm

/-- Two lists with the same contents have the same contents after a write to
an object if and only if it changes nothing, or both hold the object, or
neither does. -/
theorem map_update_eq_iff [DecidableEq β] (hnodup : (right.map f).Nodup)
    (hsame : left.map f = right.map f) :
    left.map (Function.update f a value) =
        right.map (Function.update f a value) ↔
      f a = value ∨ (a ∈ left ↔ a ∈ right) := by
  by_cases hchanged : f a = value
  · subst hchanged
    rw [Function.update_eq_self]
    exact iff_of_true hsame (.inl rfl)
  by_cases hleft : a ∈ left
  · by_cases hright : a ∈ right
    · rw [map_update_of_mem hright hnodup, ← hsame,
        map_update_of_mem hleft (hsame ▸ hnodup)]
      exact iff_of_true rfl (.inr (iff_of_true hleft hright))
    · rw [map_update_of_not_mem hright, ← hsame]
      exact iff_of_false (map_update_ne hleft hchanged) (by simp [*])
  · rw [map_update_of_not_mem hleft, hsame]
    by_cases hright : a ∈ right
    · exact iff_of_false (map_update_ne hright hchanged).symm (by simp [*])
    · rw [map_update_of_not_mem hright]
      exact iff_of_true rfl (.inr (iff_of_false hleft hright))

end TsCommons.Foundations
