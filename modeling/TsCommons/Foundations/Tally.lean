import TsCommons.Foundations.InsertionMap

/-!
# Items gathered under their keys

Each item starts an entry under its key or changes the entry that is there.
The entry of a key is what the items with that key make of it, in their order.
-/

namespace TsCommons.Foundations

variable {α κ ν : Type*} [DecidableEq κ]

/-- What the items make of an entry that does not exist before them. -/
def gather (start : α → ν) (change : ν → α → ν) : List α → Option ν
  | [] => none
  | first :: rest => some (rest.foldl change (start first))

/-- The entry after one more item. -/
def gatherOne (start : α → ν) (change : ν → α → ν) (item : α) :
    Option ν → ν
  | none => start item
  | some entry => change entry item

theorem gather_concat (start : α → ν) (change : ν → α → ν) (items : List α)
    (item : α) :
    gather start change (items ++ [item]) =
      some (gatherOne start change item (gather start change items)) := by
  cases items with
  | nil => rfl
  | cons first rest => exact congrArg some (List.foldl_concat ..)

namespace InsertionMap

/-- The map after one more item. -/
def tallyOne (key : α → κ) (start : α → ν) (change : ν → α → ν)
    (map : InsertionMap κ ν) (item : α) : InsertionMap κ ν :=
  map.set (key item) (gatherOne start change item (map.get (key item)))

def tally (key : α → κ) (start : α → ν) (change : ν → α → ν)
    (items : List α) : InsertionMap κ ν :=
  items.foldl (tallyOne key start change) empty

variable {key : α → κ} {start : α → ν} {change : ν → α → ν}
  {items : List α}

theorem get_tally (index : κ) :
    (tally key start change items).get index =
      gather start change (items.filter fun item => key item = index) := by
  induction items using List.reverseRecOn with
  | nil => rfl
  | append_singleton items item ih =>
      have hconcat : tally key start change (items ++ [item]) =
          tallyOne key start change (tally key start change items) item :=
        List.foldl_concat ..
      rw [hconcat, tallyOne, get_set, List.filter_append]
      by_cases heq : key item = index
      · subst heq
        rw [if_pos rfl, ih, List.filter_singleton, decide_eq_true rfl,
          cond_true, gather_concat]
      · rw [if_neg (Ne.symm heq), ih, List.filter_singleton,
          decide_eq_false heq, cond_false, List.append_nil]

/-- An entry is what the items with its key, of which there are some, make
of it. -/
theorem exists_of_mem_tally {index : κ} {entry : ν}
    (hmem : (index, entry) ∈ (tally key start change items).entries) :
    ∃ first rest, (items.filter fun item => key item = index) =
        first :: rest ∧ entry = rest.foldl change (start first) := by
  have hget := get_eq_some_iff.mpr hmem
  rw [get_tally] at hget
  cases hitems : items.filter fun item => key item = index with
  | nil => rw [hitems] at hget; cases hget
  | cons first rest =>
      rw [hitems] at hget
      exact ⟨first, rest, rfl, (Option.some.inj hget).symm⟩

theorem exists_entry_of_mem {item : α} (hitem : item ∈ items) :
    ∃ entry, (key item, entry) ∈ (tally key start change items).entries := by
  have hmem : item ∈ items.filter fun other => key other = key item :=
    List.mem_filter.mpr ⟨hitem, decide_eq_true rfl⟩
  obtain ⟨first, rest, hitems⟩ :=
    List.exists_cons_of_ne_nil (List.ne_nil_of_mem hmem)
  refine ⟨rest.foldl change (start first), get_eq_some_iff.mp ?_⟩
  rw [get_tally, hitems]
  rfl

end InsertionMap

end TsCommons.Foundations
