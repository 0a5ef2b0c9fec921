import Mathlib.Data.List.Sort
import Mathlib.Data.List.Nodup
import Mathlib.Tactic.Common

/-!
# The order of pairs under a stable sort

In a list without duplicates the elements come in a certain order, and the
list is known once its elements and the order of every two of them are.  A
stable sort by a total preorder changes the order of two elements exactly
where the preorder says so.
-/

namespace TsCommons.Foundations

open List (Sublist)

variable {α : Type*} {xs ys : List α} {a b : α}

/-! ## Pairs in a list without duplicates -/

/-- The first of the two elements comes before the second. -/
def Precedes (xs : List α) (a b : α) : Prop := [a, b].Sublist xs

instance [DecidableEq α] (xs : List α) (a b : α) :
    Decidable (Precedes xs a b) :=
  inferInstanceAs (Decidable ([a, b].Sublist xs))

theorem Precedes.left_mem (hab : Precedes xs a b) : a ∈ xs :=
  List.Sublist.subset hab List.mem_cons_self

theorem Precedes.right_mem (hab : Precedes xs a b) : b ∈ xs :=
  List.Sublist.subset hab (List.mem_cons_of_mem a List.mem_cons_self)

theorem pairwise_precedes (xs : List α) : xs.Pairwise (Precedes xs) :=
  List.pairwise_of_forall_sublist id

theorem Precedes.ne (hnodup : xs.Nodup) (hab : Precedes xs a b) : a ≠ b :=
  List.Pairwise.forall_sublist hnodup hab

theorem precedes_cons {first : α} :
    Precedes (first :: xs) a b ↔ Precedes xs a b ∨ a = first ∧ b ∈ xs := by
  rw [Precedes, List.sublist_cons_iff]
  constructor
  · rintro (hrest | ⟨rest, heq, hsub⟩)
    · exact Or.inl hrest
    · cases heq
      exact Or.inr ⟨rfl, List.singleton_sublist.mp hsub⟩
  · rintro (hrest | ⟨rfl, hmem⟩)
    · exact Or.inl hrest
    · exact Or.inr ⟨[b], rfl, List.singleton_sublist.mpr hmem⟩

theorem Precedes.not_symm (hnodup : xs.Nodup) (hab : Precedes xs a b) :
    ¬ Precedes xs b a := by
  induction xs with
  | nil => exact absurd hab.left_mem List.not_mem_nil
  | cons first xs ih =>
      obtain ⟨hfirst, hrest⟩ := List.nodup_cons.mp hnodup
      intro hba
      rcases precedes_cons.mp hab with hlater | ⟨rfl, hb⟩
      · rcases precedes_cons.mp hba with hback | ⟨rfl, -⟩
        · exact ih hrest hlater hback
        · exact hfirst hlater.right_mem
      · rcases precedes_cons.mp hba with hback | ⟨rfl, -⟩
        · exact hfirst hback.right_mem
        · exact hfirst hb

theorem precedes_total (ha : a ∈ xs) (hb : b ∈ xs) (hne : a ≠ b) :
    Precedes xs a b ∨ Precedes xs b a := by
  induction xs with
  | nil => exact absurd ha List.not_mem_nil
  | cons first xs ih =>
      rw [precedes_cons, precedes_cons]
      rcases List.mem_cons.mp ha with rfl | hlater
      · have hmem := (List.mem_cons.mp hb).resolve_left hne.symm
        exact Or.inl (Or.inr ⟨rfl, hmem⟩)
      · rcases List.mem_cons.mp hb with rfl | hmem
        · exact Or.inr (Or.inr ⟨rfl, hlater⟩)
        · exact (ih hlater hmem).imp Or.inl Or.inl

theorem precedes_of_append_cons {before after : List α} (hafter : b ∈ after) :
    Precedes (before ++ a :: after) a b :=
  ((List.singleton_sublist.mpr hafter).cons_cons a).trans
    (List.sublist_append_right before (a :: after))

theorem Precedes.mem_before {before after : List α}
    (hnodup : (before ++ b :: after).Nodup)
    (hab : Precedes (before ++ b :: after) a b) : a ∈ before := by
  refine (List.mem_append.mp hab.left_mem).resolve_right fun hmem => ?_
  rcases List.mem_cons.mp hmem with rfl | hafter
  · exact hab.ne hnodup rfl
  · exact hab.not_symm hnodup (precedes_of_append_cons hafter)

theorem Precedes.mem_after {before after : List α}
    (hnodup : (before ++ a :: after).Nodup)
    (hab : Precedes (before ++ a :: after) a b) : b ∈ after := by
  rcases List.mem_append.mp hab.right_mem with hbefore | hmem
  · obtain ⟨earlier, later, rfl⟩ := List.append_of_mem hbefore
    rw [List.append_assoc, List.cons_append] at hnodup hab
    refine absurd (precedes_of_append_cons ?_) (hab.not_symm hnodup)
    exact List.mem_append_right later List.mem_cons_self
  · exact (List.mem_cons.mp hmem).resolve_left (hab.ne hnodup).symm

/-- The elements and the order of every two of them make the list. -/
theorem eq_of_precedes (hnodup : xs.Nodup) (hperm : xs.Perm ys)
    (horder : ∀ a b, Precedes xs a b → Precedes ys a b) : xs = ys := by
  have hxs : xs.Pairwise (Precedes ys) :=
    (pairwise_precedes xs).imp (horder _ _)
  refine List.Perm.eq_of_pairwise ?_ hxs (pairwise_precedes ys) hperm
  intro a b _ _ hab hba
  exact absurd hba (hab.not_symm (hperm.nodup_iff.mp hnodup))

/-! ## Sorting -/

section Sorting

variable (r : α → α → Prop) [DecidableRel r] [Std.Total r] [IsTrans α r]

/-- A stable sort moves `b` behind `a` only if `b` is strictly greater. -/
theorem precedes_insertionSort_iff (hnodup : xs.Nodup) :
    Precedes (xs.insertionSort r) a b ↔
      a ∈ xs ∧ b ∈ xs ∧ r a b ∧ (r b a → Precedes xs a b) := by
  have hperm : (xs.insertionSort r).Perm xs := List.perm_insertionSort r xs
  have hsorted : (xs.insertionSort r).Nodup := hperm.nodup_iff.mpr hnodup
  constructor
  · intro hab
    have ha : a ∈ xs := hperm.mem_iff.mp hab.left_mem
    have hb : b ∈ xs := hperm.mem_iff.mp hab.right_mem
    have hr : r a b := (xs.pairwise_insertionSort r).forall_sublist hab
    refine ⟨ha, hb, hr, fun hback => ?_⟩
    refine (precedes_total ha hb (hab.ne hsorted)).resolve_right fun hba => ?_
    exact hab.not_symm hsorted (List.pair_sublist_insertionSort hback hba)
  · rintro ⟨ha, hb, hr, hstable⟩
    by_cases hback : r b a
    · exact List.pair_sublist_insertionSort hr (hstable hback)
    · have hne : a ≠ b := fun heq => hback (heq ▸ hr)
      refine (precedes_total (hperm.mem_iff.mpr ha) (hperm.mem_iff.mpr hb)
        hne).resolve_right fun hba => ?_
      exact hback ((xs.pairwise_insertionSort r).forall_sublist hba)

/-- Two orders of the same elements are sorted into one list exactly when
elements that compare equal come in the same order. -/
theorem insertionSort_eq_iff (hnodup : xs.Nodup) (hperm : xs.Perm ys) :
    xs.insertionSort r = ys.insertionSort r ↔
      ∀ a b, r a b → r b a → Precedes xs a b → Precedes ys a b := by
  have hother : ys.Nodup := hperm.nodup_iff.mp hnodup
  constructor
  · intro heq a b hr hback hab
    have hsorted : Precedes (xs.insertionSort r) a b :=
      List.pair_sublist_insertionSort hr hab
    rw [heq] at hsorted
    exact ((precedes_insertionSort_iff r hother).mp hsorted).2.2.2 hback
  · intro horder
    have hsortedPerm : (xs.insertionSort r).Perm (ys.insertionSort r) :=
      ((List.perm_insertionSort r xs).trans hperm).trans
        (List.perm_insertionSort r ys).symm
    refine eq_of_precedes ?_ hsortedPerm fun a b hab => ?_
    · exact (List.perm_insertionSort r xs).nodup_iff.mpr hnodup
    · obtain ⟨ha, hb, hr, hstable⟩ :=
        (precedes_insertionSort_iff r hnodup).mp hab
      refine (precedes_insertionSort_iff r hother).mpr
        ⟨hperm.mem_iff.mp ha, hperm.mem_iff.mp hb, hr, fun hback => ?_⟩
      exact horder a b hr hback (hstable hback)

end Sorting

end TsCommons.Foundations
