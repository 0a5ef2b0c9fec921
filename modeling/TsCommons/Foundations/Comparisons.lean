import Mathlib.Data.List.Sort
import Mathlib.Tactic.Common

/-!
# Lists sorted by a comparison

A comparison tells of two elements which one is less.  Comparisons are taken
one after another: a later one decides where the earlier ones call two
elements equal.  A list that is sorted by one comparison is in the order of
another one if the first agrees with it.
-/

namespace TsCommons.Foundations

open Std (TransCmp OrientedCmp ReflCmp)

variable {α γ : Type*}

/-- The first element is not greater than the second. -/
def NotAfter (cmp : α → α → Ordering) (first second : α) : Prop :=
  (cmp first second).isLE = true

instance (cmp : α → α → Ordering) : DecidableRel (NotAfter cmp) :=
  fun first second =>
    inferInstanceAs (Decidable ((cmp first second).isLE = true))

instance (cmp : α → α → Ordering) [TransCmp cmp] : Std.Total (NotAfter cmp) :=
  ⟨fun first second => by
    by_cases hle : (cmp first second).isLE = true
    · exact .inl hle
    · refine .inr ?_
      rw [NotAfter, OrientedCmp.lt_of_not_isLE hle]
      rfl⟩

instance (cmp : α → α → Ordering) [TransCmp cmp] : IsTrans α (NotAfter cmp) :=
  ⟨fun _ _ _ => TransCmp.isLE_trans⟩

def sortedBy (cmp : α → α → Ordering) (list : List α) : List α :=
  list.insertionSort (NotAfter cmp)

section Sorted

variable {cmp order : α → α → Ordering} {list : List α}

theorem perm_sortedBy (cmp : α → α → Ordering) (list : List α) :
    (sortedBy cmp list).Perm list :=
  List.perm_insertionSort (NotAfter cmp) list

theorem pairwise_sortedBy (cmp : α → α → Ordering) [TransCmp cmp]
    (list : List α) : (sortedBy cmp list).Pairwise (NotAfter cmp) :=
  List.pairwise_insertionSort (NotAfter cmp) list

/-- A list that is sorted by a comparison is in an order that tells no more
elements apart if and only if the comparison follows the order. -/
theorem pairwise_sortedBy_iff [TransCmp cmp] [OrientedCmp order]
    (heq : ∀ first ∈ list, ∀ second ∈ list, cmp first second = .eq →
      order first second = .eq) :
    (sortedBy cmp list).Pairwise (NotAfter order) ↔
      ∀ first ∈ list, ∀ second ∈ list, order first second = .lt →
        cmp first second = .lt := by
  have hmem : ∀ {x : α}, x ∈ sortedBy cmp list ↔ x ∈ list :=
    (perm_sortedBy cmp list).mem_iff
  constructor
  · intro hpairwise
    have hahead : (sortedBy cmp list).Pairwise fun first second =>
        order first second = .lt → cmp first second = .lt := by
      refine (pairwise_sortedBy cmp list).imp_of_mem ?_
      intro first second hfirst hsecond hle hlt
      cases hcmp : cmp first second with
      | lt => rfl
      | eq =>
          have hsame := heq first (hmem.mp hfirst) second (hmem.mp hsecond) hcmp
          rw [hsame] at hlt
          cases hlt
      | gt =>
          rw [NotAfter, hcmp] at hle
          cases hle
    have hbehind : (sortedBy cmp list).Pairwise fun first second =>
        order second first = .lt → cmp second first = .lt := by
      refine hpairwise.imp ?_
      intro first second hle hlt
      exact absurd hle (OrientedCmp.not_isLE_of_lt hlt)
    have hself : ∀ x ∈ sortedBy cmp list,
        order x x = .lt → cmp x x = .lt := by
      intro x _ hlt
      have hsame : order x x = .eq := ReflCmp.compare_self
      rw [hsame] at hlt
      cases hlt
    intro first hfirst second hsecond
    exact List.Pairwise.forall_of_forall_of_flip hself hahead hbehind
      (hmem.mpr hfirst) (hmem.mpr hsecond)
  · intro hfollows
    refine (pairwise_sortedBy cmp list).imp_of_mem ?_
    intro first second hfirst hsecond hle
    by_contra hnot
    have hlt : order second first = .lt := OrientedCmp.lt_of_not_isLE hnot
    have hcmp := hfollows second (hmem.mp hsecond) first (hmem.mp hfirst) hlt
    exact OrientedCmp.not_isLE_of_lt hcmp hle

end Sorted

/-! ## One comparison after another -/

/-- The first clause that tells the elements apart decides. -/
def compareAll (family : γ → α → α → Ordering) :
    List γ → α → α → Ordering
  | [], _, _ => .eq
  | clause :: clauses, first, second =>
      (family clause first second).then
        (compareAll family clauses first second)

section All

variable {family other : γ → α → α → Ordering} {clauses : List γ}
  {first second : α}

theorem transCmp_compareAll (hfamily : ∀ clause, TransCmp (family clause))
    (clauses : List γ) : TransCmp (compareAll family clauses) := by
  induction clauses with
  | nil => exact { eq_swap := rfl, isLE_trans := fun _ _ => rfl }
  | cons clause clauses ih =>
      have hclause := hfamily clause
      exact inferInstanceAs (TransCmp
        (compareLex (family clause) (compareAll family clauses)))

theorem orientedCmp_compareAll
    (hfamily : ∀ clause, OrientedCmp (family clause)) (clauses : List γ) :
    OrientedCmp (compareAll family clauses) := by
  induction clauses with
  | nil => exact { eq_swap := rfl }
  | cons clause clauses ih =>
      have hclause := hfamily clause
      exact inferInstanceAs (OrientedCmp
        (compareLex (family clause) (compareAll family clauses)))

theorem compareAll_eq_eq_iff :
    compareAll family clauses first second = .eq ↔
      ∀ clause ∈ clauses, family clause first second = .eq := by
  induction clauses with
  | nil => simp [compareAll]
  | cons clause clauses ih => simp [compareAll, ih]

theorem compareAll_append_of_eq {before : List γ}
    (hbefore : ∀ clause ∈ before, family clause first second = .eq)
    (clauses : List γ) :
    compareAll family (before ++ clauses) first second =
      compareAll family clauses first second := by
  induction before with
  | nil => rfl
  | cons clause before ih =>
      rw [List.cons_append, compareAll, hbefore clause List.mem_cons_self,
        Ordering.eq_then]
      exact ih fun later hlater =>
        hbefore later (List.mem_cons_of_mem clause hlater)

theorem compareAll_eq_lt_iff :
    compareAll family clauses first second = .lt ↔
      ∃ before clause after, clauses = before ++ clause :: after ∧
        (∀ earlier ∈ before, family earlier first second = .eq) ∧
        family clause first second = .lt := by
  constructor
  · intro hlt
    induction clauses with
    | nil => cases hlt
    | cons clause clauses ih =>
        rcases Ordering.then_eq_lt.mp hlt with hclause | ⟨heq, hrest⟩
        · exact ⟨[], clause, clauses, rfl, by simp, hclause⟩
        · obtain ⟨before, deciding, after, rfl, hbefore, hdecides⟩ := ih hrest
          refine ⟨clause :: before, deciding, after, rfl, ?_, hdecides⟩
          intro earlier hearlier
          rcases List.mem_cons.mp hearlier with rfl | hmem
          · exact heq
          · exact hbefore earlier hmem
  · rintro ⟨before, clause, after, rfl, hbefore, hdecides⟩
    rw [compareAll_append_of_eq hbefore, compareAll, hdecides]
    rfl

/-- Where the clauses of two families call the same elements equal, one family
follows the other if and only if it does at each clause that decides. -/
theorem follows_compareAll_iff
    (heq : ∀ clause ∈ clauses, family clause first second = .eq ↔
      other clause first second = .eq) :
    (compareAll other clauses first second = .lt →
        compareAll family clauses first second = .lt) ↔
      ∀ before clause after, clauses = before ++ clause :: after →
        (∀ earlier ∈ before, other earlier first second = .eq) →
        other clause first second = .lt → family clause first second = .lt := by
  constructor
  · rintro hfollows before clause after rfl hbefore hlt
    have hfamily : ∀ earlier ∈ before, family earlier first second = .eq :=
      fun earlier hearlier =>
        (heq earlier (List.mem_append_left _ hearlier)).mpr
          (hbefore earlier hearlier)
    have hall := hfollows
      (compareAll_eq_lt_iff.mpr ⟨before, clause, after, rfl, hbefore, hlt⟩)
    rw [compareAll_append_of_eq hfamily, compareAll,
      Ordering.then_eq_lt] at hall
    rcases hall with hclause | ⟨hsame, -⟩
    · exact hclause
    · rw [heq clause (by simp), hlt] at hsame
      cases hsame
  · intro hfollows hlt
    obtain ⟨before, clause, after, rfl, hbefore, hdecides⟩ :=
      compareAll_eq_lt_iff.mp hlt
    refine compareAll_eq_lt_iff.mpr ⟨before, clause, after, rfl, ?_,
      hfollows before clause after rfl hbefore hdecides⟩
    intro earlier hearlier
    exact (heq earlier (List.mem_append_left _ hearlier)).mpr
      (hbefore earlier hearlier)

end All

end TsCommons.Foundations
