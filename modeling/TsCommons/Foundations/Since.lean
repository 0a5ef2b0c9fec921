import Mathlib.Data.List.Induction
import Mathlib.Tactic.Common

/-!
# What began in a history and has not ended since

A history is a list of labels, the last one at its end.  Something begins at a
label, which may depend on the labels before it, and goes on until a label
that ends it.
-/

namespace TsCommons.Foundations

variable {ι : Type*} {Begins : List ι → ι → Prop} {Ends : ι → Prop}
  {labels : List ι} {label : ι}

/-- A label of the history begins it, and none of those after it ends it. -/
def Since (Begins : List ι → ι → Prop) (Ends : ι → Prop) (labels : List ι) :
    Prop :=
  ∃ before label after, labels = before ++ label :: after ∧
    Begins before label ∧ ∀ later ∈ after, ¬ Ends later

@[simp] theorem not_since_nil : ¬ Since Begins Ends [] := by
  rintro ⟨before, label, after, hsplit, -⟩
  simp at hsplit

theorem since_concat_iff :
    Since Begins Ends (labels ++ [label]) ↔
      Begins labels label ∨ Since Begins Ends labels ∧ ¬ Ends label := by
  constructor
  · rintro ⟨before, first, after, hsplit, hbegins, hstays⟩
    rcases List.eq_nil_or_concat after with rfl | ⟨rest, last, rfl⟩
    · obtain ⟨hbefore, hlast⟩ := List.append_inj' hsplit rfl
      rw [hbefore, List.singleton_inj.mp hlast]
      exact .inl hbegins
    · rw [List.concat_eq_append, ← List.cons_append,
        ← List.append_assoc] at hsplit
      obtain ⟨hlabels, hlast⟩ := List.append_inj' hsplit rfl
      rw [List.concat_eq_append] at hstays
      obtain ⟨hrest, hlabel⟩ := List.forall_mem_append.mp hstays
      refine .inr ⟨⟨before, first, rest, hlabels, hbegins, hrest⟩, ?_⟩
      rw [List.singleton_inj.mp hlast]
      exact hlabel last List.mem_cons_self
  · rintro (hbegins | ⟨⟨before, first, after, rfl, hbegins, hstays⟩, hlabel⟩)
    · exact ⟨labels, label, [], rfl, hbegins, List.forall_mem_nil _⟩
    · refine ⟨before, first, after ++ [label], by simp, hbegins, ?_⟩
      exact List.forall_mem_append.mpr
        ⟨hstays, List.forall_mem_singleton.mpr hlabel⟩

theorem Since.append {after : List ι} (hsince : Since Begins Ends labels)
    (hstays : ∀ later ∈ after, ¬ Ends later) :
    Since Begins Ends (labels ++ after) := by
  obtain ⟨before, label, rest, rfl, hbegins, hrest⟩ := hsince
  exact ⟨before, label, rest ++ after, by simp, hbegins,
    List.forall_mem_append.mpr ⟨hrest, hstays⟩⟩

/-! ## At every label -/

variable {P : List ι → ι → Prop}

/-- Every label of the history has the property, which may depend on the
labels before it. -/
def AtEvery (P : List ι → ι → Prop) (labels : List ι) : Prop :=
  ∀ before label after, labels = before ++ label :: after → P before label

theorem atEvery_nil : AtEvery P [] := by
  intro before label after hsplit
  simp at hsplit

theorem AtEvery.concat (hevery : AtEvery P labels) (hlast : P labels label) :
    AtEvery P (labels ++ [label]) := by
  intro before first after hsplit
  rcases List.eq_nil_or_concat after with rfl | ⟨rest, last, rfl⟩
  · obtain ⟨hlabels, hlabel⟩ := List.append_inj' hsplit rfl
    rw [← hlabels, ← List.singleton_inj.mp hlabel]
    exact hlast
  · rw [List.concat_eq_append, ← List.cons_append,
      ← List.append_assoc] at hsplit
    exact hevery before first rest (List.append_inj' hsplit rfl).1

end TsCommons.Foundations
