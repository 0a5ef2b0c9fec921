import Mathlib.Data.List.Perm.Basic
import TsCommons.Foundations.InsertionMap

/-!
# Rows that are found by a key

A list of rows with distinct keys is a partial function from keys to rows.  An
edit inserts, removes or amends the row of one key, so a list of edits of
distinct keys can be read key by key.
-/

namespace TsCommons.Foundations.KeyedRows

variable {ρ κ σ : Type*} [DecidableEq κ] {key : ρ → κ}
  {rows left right : List ρ} {row : ρ} {index : κ}

/-- The row with the key. -/
def rowOf (key : ρ → κ) (rows : List ρ) (index : κ) : Option ρ :=
  rows.find? fun row => key row = index

theorem mem_and_key_of_rowOf (hrow : rowOf key rows index = some row) :
    row ∈ rows ∧ key row = index := by
  refine ⟨List.mem_of_find?_eq_some hrow, ?_⟩
  simpa using List.find?_some hrow

theorem rowOf_eq_none_iff :
    rowOf key rows index = none ↔ ∀ row ∈ rows, key row ≠ index := by
  simp [rowOf]

theorem rowOf_eq_some_iff (hnodup : (rows.map key).Nodup) :
    rowOf key rows index = some row ↔ row ∈ rows ∧ key row = index := by
  refine ⟨mem_and_key_of_rowOf, ?_⟩
  rintro ⟨hmem, hkey⟩
  cases hrow : rowOf key rows index with
  | none => exact absurd hkey (rowOf_eq_none_iff.mp hrow row hmem)
  | some found =>
      obtain ⟨hfound, hsame⟩ := mem_and_key_of_rowOf hrow
      rw [List.inj_on_of_nodup_map hnodup hfound hmem (hsame.trans hkey.symm)]

theorem rowOf_key_of_mem (hnodup : (rows.map key).Nodup) (hmem : row ∈ rows) :
    rowOf key rows (key row) = some row :=
  (rowOf_eq_some_iff hnodup).mpr ⟨hmem, rfl⟩

theorem get_indexBy_eq_rowOf (hnodup : (rows.map key).Nodup) :
    (InsertionMap.indexBy key rows).get index = rowOf key rows index := by
  apply Option.ext
  intro row
  rw [InsertionMap.get_eq_some_iff, InsertionMap.entries_indexBy hnodup,
    rowOf_eq_some_iff hnodup, List.mem_map]
  constructor
  · rintro ⟨other, hother, heq⟩
    cases heq
    exact ⟨hother, rfl⟩
  · rintro ⟨hmem, rfl⟩
    exact ⟨row, hmem, rfl⟩

omit [DecidableEq κ] in
/-- What is made of some of the rows under their own keys has distinct keys
when the rows have. -/
theorem map_filterMap_sublist {τ : Type*} {f : ρ → Option τ} {label : τ → κ}
    (hlabel : ∀ row ∈ rows, ∀ made, f row = some made →
      label made = key row) :
    ((rows.filterMap f).map label).Sublist (rows.map key) := by
  induction rows with
  | nil => exact List.Sublist.slnil
  | cons row rows ih =>
      have hrest := ih fun other hother =>
        hlabel other (List.mem_cons_of_mem row hother)
      cases hmade : f row with
      | none =>
          rw [List.filterMap_cons_none hmade]
          exact hrest.cons (key row)
      | some made =>
          rw [List.filterMap_cons_some hmade, List.map_cons, List.map_cons,
            hlabel row List.mem_cons_self made hmade]
          exact hrest.cons_cons (key row)

section Shapes

variable {shape : ρ → σ}
  (hshape : ∀ first second, shape first = shape second →
    key first = key second)

include hshape

omit [DecidableEq κ] in
theorem nodup_map_of_nodup (hnodup : (rows.map key).Nodup) :
    (rows.map shape).Nodup := by
  apply List.Nodup.map_on _ hnodup.of_map
  intro first hfirst second hsecond hsame
  exact List.inj_on_of_nodup_map hnodup hfirst hsecond
    (hshape first second hsame)

theorem map_rowOf_of_subset (hright : (right.map key).Nodup)
    (hsubset : ∀ seen, seen ∈ left.map shape → seen ∈ right.map shape)
    (hrow : rowOf key left index = some row) :
    (rowOf key right index).map shape = some (shape row) := by
  obtain ⟨hmem, hkey⟩ := mem_and_key_of_rowOf hrow
  obtain ⟨other, hother, hseen⟩ := List.mem_map.mp
    (hsubset (shape row) (List.mem_map_of_mem hmem))
  rw [← hkey, ← hshape other row hseen, rowOf_key_of_mem hright hother,
    Option.map_some, hseen]

/-- Rows seen through a shape that shows the key are the same up to their
order if and only if every key has the same shape in both. -/
theorem perm_map_iff (hleft : (left.map key).Nodup)
    (hright : (right.map key).Nodup) :
    (left.map shape).Perm (right.map shape) ↔
      ∀ index, (rowOf key left index).map shape =
        (rowOf key right index).map shape := by
  have hmem : ∀ {rows : List ρ}, (rows.map key).Nodup → ∀ seen,
      seen ∈ rows.map shape ↔
        ∃ index, (rowOf key rows index).map shape = some seen := by
    intro rows hrows seen
    simp only [List.mem_map, Option.map_eq_some_iff, rowOf_eq_some_iff hrows]
    constructor
    · rintro ⟨row, hrow, hseen⟩
      exact ⟨key row, row, ⟨hrow, rfl⟩, hseen⟩
    · rintro ⟨index, row, ⟨hrow, -⟩, hseen⟩
      exact ⟨row, hrow, hseen⟩
  rw [List.perm_ext_iff_of_nodup (nodup_map_of_nodup hshape hleft)
    (nodup_map_of_nodup hshape hright)]
  constructor
  · intro hsame index
    cases hrow : rowOf key left index with
    | some row =>
        exact (map_rowOf_of_subset hshape hright (fun seen => (hsame seen).mp)
          hrow).symm
    | none =>
        cases hother : rowOf key right index with
        | none => rfl
        | some other =>
            have hback := map_rowOf_of_subset hshape hleft
              (fun seen => (hsame seen).mpr) hother
            rw [hrow] at hback
            cases hback
  · intro hsame seen
    rw [hmem hleft, hmem hright]
    simp only [hsame]

end Shapes

/-! ## Edits -/

/-- One edit of the row of one key. -/
inductive Edit (ρ κ : Type*)
  | insert (row : ρ)
  | remove (index : κ)
  | amend (index : κ) (change : ρ → ρ)

namespace Edit

def target (key : ρ → κ) : Edit ρ κ → κ
  | insert row => key row
  | remove index => index
  | amend index _ => index

/-- What the edit makes of the row of its key. -/
def result : Edit ρ κ → Option ρ → Option ρ
  | insert row, _ => some row
  | remove _, _ => none
  | amend _ change, row => row.map change

def apply (key : ρ → κ) (rows : List ρ) : Edit ρ κ → List ρ
  | insert row => rows ++ [row]
  | remove index => rows.filter fun row => key row ≠ index
  | amend index change =>
      rows.map fun row => if key row = index then change row else row

/-- Only a new key is inserted, and an amended row keeps its key. -/
def Fits (key : ρ → κ) (edit : Edit ρ κ) (old : Option ρ) : Prop :=
  match edit with
  | insert _ => old = none
  | remove _ => True
  | amend index change => ∀ row, key row = index → key (change row) = index

theorem rowOf_insert (hnew : rowOf key rows (key row) = none) :
    rowOf key (rows ++ [row]) index =
      if index = key row then some row else rowOf key rows index := by
  rw [rowOf, List.find?_append, ← rowOf]
  split
  · rename_i heq
    subst heq
    rw [hnew]
    simp
  · rename_i hne
    simp [Ne.symm hne]

theorem rowOf_remove (rows : List ρ) (gone index : κ) :
    rowOf key (rows.filter fun row => key row ≠ gone) index =
      if index = gone then none else rowOf key rows index := by
  split
  · rename_i heq
    simp [rowOf, heq]
  · rename_i hne
    rw [rowOf, List.find?_filter, rowOf]
    congr 1
    funext row
    by_cases heq : key row = index
    · simp [heq, hne]
    · simp [heq]

theorem key_amend {place : κ} {change : ρ → ρ}
    (hkeeps : ∀ row, key row = place → key (change row) = place) (row : ρ) :
    key (if key row = place then change row else row) = key row := by
  split
  · rename_i hplace
    rw [hkeeps row hplace, hplace]
  · rfl

theorem rowOf_amend {place : κ} {change : ρ → ρ}
    (hkeeps : ∀ row, key row = place → key (change row) = place)
    (rows : List ρ) (index : κ) :
    rowOf key (rows.map fun row => if key row = place then change row else row)
        index =
      if index = place then (rowOf key rows index).map change
      else rowOf key rows index := by
  have hfind : rowOf key
      (rows.map fun row => if key row = place then change row else row) index =
        (rowOf key rows index).map fun row =>
          if key row = place then change row else row := by
    rw [rowOf, List.find?_map, rowOf]
    congr 2
    funext row
    rw [Function.comp_apply, key_amend hkeeps]
  rw [hfind]
  cases hrow : rowOf key rows index with
  | none => simp
  | some row => simp [(mem_and_key_of_rowOf hrow).2, apply_ite some]

theorem rowOf_apply {edit : Edit ρ κ}
    (hfits : edit.Fits key (rowOf key rows (edit.target key))) :
    rowOf key (edit.apply key rows) index =
      if index = edit.target key then edit.result (rowOf key rows index)
      else rowOf key rows index := by
  cases edit with
  | insert row => exact rowOf_insert hfits
  | remove gone => exact rowOf_remove rows gone index
  | amend place change => exact rowOf_amend hfits rows index

theorem nodup_apply {edit : Edit ρ κ}
    (hfits : edit.Fits key (rowOf key rows (edit.target key)))
    (hnodup : (rows.map key).Nodup) :
    ((edit.apply key rows).map key).Nodup := by
  cases edit with
  | insert row =>
      have hnew := rowOf_eq_none_iff.mp hfits
      rw [apply, List.map_append, List.nodup_append]
      refine ⟨hnodup, List.nodup_singleton _, ?_⟩
      intro first hfirst second hsecond hsame
      obtain ⟨old, hold, hkey⟩ := List.mem_map.mp hfirst
      rw [List.map_singleton, List.mem_singleton] at hsecond
      exact hnew old hold (by rw [hkey, hsame, hsecond]; rfl)
  | remove gone => exact hnodup.sublist (List.filter_sublist.map key)
  | amend place change =>
      rw [apply, List.map_map]
      have hkeys :
          (key ∘ fun row => if key row = place then change row else row) =
            key := funext (key_amend hfits)
      rw [hkeys]
      exact hnodup

end Edit

/-! ## Lists of edits -/

section Edits

variable {edits : List (Edit ρ κ)} {edit : Edit ρ κ}

def applyAll (key : ρ → κ) (edits : List (Edit ρ κ)) (rows : List ρ) : List ρ :=
  edits.foldl (fun rows edit => edit.apply key rows) rows

/-- Edits of distinct keys, each of which fits the rows as they stand. -/
structure Independent (key : ρ → κ) (edits : List (Edit ρ κ))
    (rows : List ρ) : Prop where
  distinct : (edits.map (Edit.target key)).Nodup
  fits : ∀ edit ∈ edits, edit.Fits key (rowOf key rows (edit.target key))

/-- The first edit leaves the rows of the others as they were. -/
theorem Independent.tail (hall : Independent key (edit :: edits) rows) :
    Independent key edits (edit.apply key rows) := by
  have hdistinct := hall.distinct
  rw [List.map_cons, List.nodup_cons] at hdistinct
  refine ⟨hdistinct.2, fun other hother => ?_⟩
  rw [Edit.rowOf_apply (hall.fits edit List.mem_cons_self), if_neg]
  · exact hall.fits other (List.mem_cons_of_mem edit hother)
  · intro hsame
    exact hdistinct.1 (List.mem_map.mpr ⟨other, hother, hsame⟩)

theorem nodup_applyAll (hall : Independent key edits rows)
    (hnodup : (rows.map key).Nodup) :
    ((applyAll key edits rows).map key).Nodup := by
  induction edits generalizing rows with
  | nil => exact hnodup
  | cons edit edits ih =>
      have hfits := hall.fits edit List.mem_cons_self
      exact ih hall.tail (Edit.nodup_apply hfits hnodup)

theorem rowOf_applyAll_of_not_mem (hall : Independent key edits rows)
    (hnone : ∀ edit ∈ edits, edit.target key ≠ index) :
    rowOf key (applyAll key edits rows) index = rowOf key rows index := by
  induction edits generalizing rows with
  | nil => rfl
  | cons edit edits ih =>
      have hfits := hall.fits edit List.mem_cons_self
      have hhead := hnone edit List.mem_cons_self
      rw [applyAll, List.foldl_cons, ← applyAll,
        ih hall.tail fun other hother =>
          hnone other (List.mem_cons_of_mem edit hother),
        Edit.rowOf_apply hfits, if_neg (Ne.symm hhead)]

theorem rowOf_applyAll_of_mem (hall : Independent key edits rows)
    (hmem : edit ∈ edits) :
    rowOf key (applyAll key edits rows) (edit.target key) =
      edit.result (rowOf key rows (edit.target key)) := by
  induction edits generalizing rows with
  | nil => cases hmem
  | cons first edits ih =>
      have hfits := hall.fits first List.mem_cons_self
      have hdistinct := hall.distinct
      rw [List.map_cons, List.nodup_cons] at hdistinct
      rw [applyAll, List.foldl_cons, ← applyAll]
      rcases List.mem_cons.mp hmem with rfl | hrest
      · rw [rowOf_applyAll_of_not_mem hall.tail fun other hother hsame =>
            hdistinct.1 (List.mem_map.mpr ⟨other, hother, hsame⟩),
          Edit.rowOf_apply hfits, if_pos rfl]
      · rw [ih hall.tail hrest, Edit.rowOf_apply hfits, if_neg]
        intro hsame
        exact hdistinct.1 (List.mem_map.mpr ⟨edit, hrest, hsame⟩)

end Edits

end TsCommons.Foundations.KeyedRows
