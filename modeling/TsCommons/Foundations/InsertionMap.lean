import Mathlib.Data.List.Nodup
import Mathlib.Data.List.Induction
import Mathlib.Tactic.Common

/-!
# Insertion-ordered maps

A finite map that remembers the order in which its keys were first inserted:
writing an existing key keeps its place, writing a new key appends it, and a
deleted key that is written again goes to the end.  Keys are pairwise distinct
by construction.
-/

namespace TsCommons.Foundations

/-- A finite map whose entries stand in insertion order. -/
structure InsertionMap (κ ν : Type*) where
  entries : List (κ × ν)
  nodup : (entries.map Prod.fst).Nodup
deriving DecidableEq

namespace InsertionMap

variable {κ ν : Type*}

@[ext] theorem ext {left right : InsertionMap κ ν}
    (hentries : left.entries = right.entries) : left = right := by
  cases left
  cases right
  simpa using hentries

def empty : InsertionMap κ ν := ⟨[], List.nodup_nil⟩

def size (map : InsertionMap κ ν) : ℕ := map.entries.length

def keys (map : InsertionMap κ ν) : List κ := map.entries.map Prod.fst

def values (map : InsertionMap κ ν) : List ν := map.entries.map Prod.snd

variable [DecidableEq κ]

/-- The value of the first entry with the key. -/
def lookup (key : κ) : List (κ × ν) → Option ν
  | [] => none
  | (key', value) :: rest =>
      if key' = key then some value else lookup key rest

/-- Overwrite the entry with the key in place, or append one. -/
def put (key : κ) (value : ν) : List (κ × ν) → List (κ × ν)
  | [] => [(key, value)]
  | (key', value') :: rest =>
      if key' = key then (key, value) :: rest
      else (key', value') :: put key value rest

theorem mem_keys_put (key other : κ) (value : ν) (entries : List (κ × ν)) :
    other ∈ (put key value entries).map Prod.fst ↔
      other = key ∨ other ∈ entries.map Prod.fst := by
  induction entries with
  | nil => simp [put]
  | cons entry rest ih =>
      obtain ⟨key', value'⟩ := entry
      by_cases heq : key' = key
      · subst key'
        simp [put]
      · simp only [put, if_neg heq, List.map_cons, List.mem_cons, ih]
        tauto

theorem nodup_put (key : κ) (value : ν) {entries : List (κ × ν)}
    (hnodup : (entries.map Prod.fst).Nodup) :
    ((put key value entries).map Prod.fst).Nodup := by
  induction entries with
  | nil => simp [put]
  | cons entry rest ih =>
      obtain ⟨key', value'⟩ := entry
      simp only [List.map_cons, List.nodup_cons] at hnodup
      by_cases heq : key' = key
      · subst key'
        simpa [put] using hnodup
      · simp only [put, if_neg heq, List.map_cons, List.nodup_cons,
          mem_keys_put, not_or]
        exact ⟨⟨heq, hnodup.1⟩, ih hnodup.2⟩

def get (map : InsertionMap κ ν) (key : κ) : Option ν :=
  lookup key map.entries

def set (map : InsertionMap κ ν) (key : κ) (value : ν) :
    InsertionMap κ ν where
  entries := put key value map.entries
  nodup := nodup_put key value map.nodup

def delete (map : InsertionMap κ ν) (key : κ) : InsertionMap κ ν where
  entries := map.entries.filter fun entry => entry.1 ≠ key
  nodup := map.nodup.sublist (List.filter_sublist.map Prod.fst)

def has (map : InsertionMap κ ν) (key : κ) : Bool := (map.get key).isSome

/-- Keep the entries that satisfy a test on key and value. -/
def filter (map : InsertionMap κ ν) (keep : κ → ν → Bool) :
    InsertionMap κ ν where
  entries := map.entries.filter fun entry => keep entry.1 entry.2
  nodup := map.nodup.sublist (List.filter_sublist.map Prod.fst)

@[simp] theorem get_empty (key : κ) :
    (empty : InsertionMap κ ν).get key = none := rfl

theorem lookup_put (key other : κ) (value : ν) (entries : List (κ × ν)) :
    lookup other (put key value entries) =
      if other = key then some value else lookup other entries := by
  induction entries with
  | nil => simp [put, lookup, eq_comm]
  | cons entry rest ih =>
      obtain ⟨key', value'⟩ := entry
      by_cases heq : key' = key
      · subst key'
        by_cases hother : other = key
        · simp [put, lookup, hother]
        · simp [put, lookup, hother, Ne.symm hother]
      · simp only [put, if_neg heq, lookup, ih]
        by_cases hkey : key' = other
        · subst other
          simp [heq]
        · simp [hkey]

theorem get_set (map : InsertionMap κ ν) (key other : κ) (value : ν) :
    (map.set key value).get other =
      if other = key then some value else map.get other :=
  lookup_put key other value map.entries

@[simp] theorem get_set_self (map : InsertionMap κ ν) (key : κ) (value : ν) :
    (map.set key value).get key = some value := by
  simp [get_set]

theorem get_set_of_ne (map : InsertionMap κ ν) {key other : κ} (value : ν)
    (hne : other ≠ key) : (map.set key value).get other = map.get other := by
  simp [get_set, hne]

theorem lookup_filter_key (key other : κ) (entries : List (κ × ν)) :
    lookup other (entries.filter fun entry => entry.1 ≠ key) =
      if other = key then none else lookup other entries := by
  induction entries with
  | nil => simp [lookup]
  | cons entry rest ih =>
      obtain ⟨key', value'⟩ := entry
      by_cases heq : key' = key
      · subst key'
        rw [List.filter_cons_of_neg (by simp), ih]
        by_cases hother : other = key
        · simp [hother]
        · simp [lookup, hother, Ne.symm hother]
      · rw [List.filter_cons_of_pos (by simpa using heq)]
        simp only [lookup, ih]
        by_cases hkey : key' = other
        · subst other
          simp [heq]
        · simp [hkey]

theorem get_delete (map : InsertionMap κ ν) (key other : κ) :
    (map.delete key).get other =
      if other = key then none else map.get other :=
  lookup_filter_key key other map.entries

@[simp] theorem get_delete_self (map : InsertionMap κ ν) (key : κ) :
    (map.delete key).get key = none := by
  simp [get_delete]

theorem get_delete_of_ne (map : InsertionMap κ ν) {key other : κ}
    (hne : other ≠ key) : (map.delete key).get other = map.get other := by
  simp [get_delete, hne]

theorem lookup_eq_some_iff {key : κ} {value : ν} {entries : List (κ × ν)}
    (hnodup : (entries.map Prod.fst).Nodup) :
    lookup key entries = some value ↔ (key, value) ∈ entries := by
  induction entries with
  | nil => simp [lookup]
  | cons entry rest ih =>
      obtain ⟨key', value'⟩ := entry
      simp only [List.map_cons, List.nodup_cons] at hnodup
      by_cases heq : key' = key
      · subst key'
        have hnotmem : (key, value) ∉ rest := by
          intro hmem
          exact hnodup.1 (List.mem_map.mpr ⟨_, hmem, rfl⟩)
        simp [lookup, hnotmem, eq_comm]
      · simp [lookup, heq, Ne.symm heq, ih hnodup.2]

theorem get_eq_some_iff {map : InsertionMap κ ν} {key : κ} {value : ν} :
    map.get key = some value ↔ (key, value) ∈ map.entries :=
  lookup_eq_some_iff map.nodup

theorem mem_values_iff {map : InsertionMap κ ν} {value : ν} :
    value ∈ map.values ↔ ∃ key, map.get key = some value := by
  simp [values, get_eq_some_iff]

theorem mem_keys_iff {map : InsertionMap κ ν} {key : κ} :
    key ∈ map.keys ↔ (map.get key).isSome := by
  simp [keys, Option.isSome_iff_exists, get_eq_some_iff]

theorem map_fst_put_of_mem {key : κ} (value : ν) {entries : List (κ × ν)}
    (hmem : key ∈ entries.map Prod.fst) :
    (put key value entries).map Prod.fst = entries.map Prod.fst := by
  induction entries with
  | nil => simp at hmem
  | cons entry rest ih =>
      obtain ⟨key', value'⟩ := entry
      by_cases heq : key' = key
      · subst key'
        simp [put]
      · have hrest : key ∈ rest.map Prod.fst := by
          simpa [Ne.symm heq] using hmem
        simp [put, heq, ih hrest]

/-- Writing an existing key keeps every key in its place. -/
theorem keys_set_of_get {map : InsertionMap κ ν} {key : κ} {old : ν}
    (value : ν) (hget : map.get key = some old) :
    (map.set key value).keys = map.keys := by
  apply map_fst_put_of_mem value
  exact mem_keys_iff.mpr (by rw [hget]; rfl)

/-- A write exchanges the value of its key for the new one. -/
theorem countP_values_put (key : κ) (value : ν) (test : ν → Bool)
    {entries : List (κ × ν)} (hnodup : (entries.map Prod.fst).Nodup) :
    ((put key value entries).map Prod.snd).countP test +
        (lookup key entries).toList.countP test =
      (entries.map Prod.snd).countP test + [value].countP test := by
  induction entries with
  | nil => simp [put, lookup]
  | cons entry rest ih =>
      obtain ⟨key', value'⟩ := entry
      simp only [List.map_cons, List.nodup_cons] at hnodup
      by_cases heq : key' = key
      · subst key'
        simp [put, lookup, List.countP_cons]
        omega
      · have hrest := ih hnodup.2
        simp only [put, lookup, if_neg heq, List.map_cons,
          List.countP_cons] at hrest ⊢
        omega

theorem countP_values_set (map : InsertionMap κ ν) (key : κ) (value : ν)
    (test : ν → Bool) :
    (map.set key value).values.countP test +
        (map.get key).toList.countP test =
      map.values.countP test + [value].countP test :=
  countP_values_put key value test map.nodup

theorem put_of_not_mem {key : κ} (value : ν) {entries : List (κ × ν)}
    (hnew : key ∉ entries.map Prod.fst) :
    put key value entries = entries ++ [(key, value)] := by
  induction entries with
  | nil => rfl
  | cons entry rest ih =>
      obtain ⟨key', value'⟩ := entry
      simp only [List.map_cons, List.mem_cons, not_or] at hnew
      rw [put, if_neg (Ne.symm hnew.1), ih hnew.2, List.cons_append]

theorem put_of_lookup {key : κ} {value : ν} {entries : List (κ × ν)}
    (hlookup : lookup key entries = some value) :
    put key value entries = entries := by
  induction entries with
  | nil => cases hlookup
  | cons entry rest ih =>
      obtain ⟨key', value'⟩ := entry
      by_cases heq : key' = key
      · subst key'
        rw [lookup, if_pos rfl, Option.some.injEq] at hlookup
        rw [put, if_pos rfl, hlookup]
      · rw [lookup, if_neg heq] at hlookup
        rw [put, if_neg heq, ih hlookup]

/-- Writing what is there changes nothing. -/
theorem set_of_get {map : InsertionMap κ ν} {key : κ} {value : ν}
    (hget : map.get key = some value) : map.set key value = map :=
  ext (put_of_lookup hget)

/-- A write that takes out and brings in no value of a kind leaves those of
the kind as they were. -/
theorem filter_values_put {key : κ} {value : ν} {test : ν → Bool}
    {entries : List (κ × ν)} (hnew : test value = false)
    (hold : ∀ old ∈ lookup key entries, test old = false) :
    ((put key value entries).map Prod.snd).filter test =
      (entries.map Prod.snd).filter test := by
  induction entries with
  | nil => simp [put, hnew]
  | cons entry rest ih =>
      obtain ⟨key', value'⟩ := entry
      by_cases heq : key' = key
      · subst key'
        have hgone := hold value' (by simp [lookup])
        simp [put, hnew, hgone]
      · rw [lookup, if_neg heq] at hold
        simp only [put, if_neg heq, List.map_cons, List.filter_cons, ih hold]

theorem filter_values_set {map : InsertionMap κ ν} {key : κ} {value : ν}
    {test : ν → Bool} (hnew : test value = false)
    (hold : ∀ old ∈ map.get key, test old = false) :
    (map.set key value).values.filter test = map.values.filter test :=
  filter_values_put hnew hold

/-- A deletion that takes out no value of a kind leaves those of the kind as
they were. -/
theorem filter_values_delete {map : InsertionMap κ ν} {key : κ}
    {test : ν → Bool} (hold : ∀ old ∈ map.get key, test old = false) :
    (map.delete key).values.filter test = map.values.filter test := by
  simp only [values, delete, List.filter_map, List.filter_filter]
  congr 1
  apply List.filter_congr
  rintro ⟨key', value'⟩ hmem
  by_cases heq : key' = key
  · have hgone := hold value' (get_eq_some_iff.mpr (heq ▸ hmem))
    simp [heq, hgone]
  · simp [heq]

/-! ## Maps that agree outside some keys -/

/-- The maps have the same keys in the same order, and the same values under
those that are not hidden. -/
structure SameOutside (hidden : κ → Prop) (left right : InsertionMap κ ν) :
    Prop where
  keys : left.keys = right.keys
  get : ∀ key, ¬ hidden key → left.get key = right.get key

section SameOutside

variable {hidden : κ → Prop} {left right : InsertionMap κ ν} {key : κ}
  {value other : ν}

theorem keys_set (map : InsertionMap κ ν) (key : κ) (value : ν) :
    (map.set key value).keys =
      if key ∈ map.keys then map.keys else map.keys ++ [key] := by
  split
  · rename_i hmem
    exact map_fst_put_of_mem value hmem
  · rename_i hnew
    simp only [keys, set, put_of_not_mem value hnew, List.map_append]
    rfl

theorem keys_delete (map : InsertionMap κ ν) (key : κ) :
    (map.delete key).keys = map.keys.filter (· ≠ key) := by
  rw [keys, keys, delete, List.filter_map]
  rfl

theorem SameOutside.refl (hidden : κ → Prop) (map : InsertionMap κ ν) :
    SameOutside hidden map map :=
  ⟨rfl, fun _ _ => rfl⟩

theorem SameOutside.mono {visible : κ → Prop}
    (hsame : SameOutside hidden left right)
    (hall : ∀ key, hidden key → visible key) :
    SameOutside visible left right :=
  ⟨hsame.keys, fun key hkey => hsame.get key fun h => hkey (hall key h)⟩

/-- A hidden key may be written with different values. -/
theorem SameOutside.set (hsame : SameOutside hidden left right)
    (hvalue : ¬ hidden key → value = other) :
    SameOutside hidden (left.set key value) (right.set key other) := by
  refine ⟨by rw [keys_set, keys_set, hsame.keys], fun index hindex => ?_⟩
  rw [get_set, get_set]
  split
  · rename_i heq
    rw [hvalue (heq ▸ hindex)]
  · exact hsame.get index hindex

/-- A key that is written with one value is no longer hidden. -/
theorem SameOutside.set_self (hsame : SameOutside hidden left right)
    (key : κ) (value : ν) :
    SameOutside (fun index => hidden index ∧ index ≠ key)
      (left.set key value) (right.set key value) := by
  refine ⟨by rw [keys_set, keys_set, hsame.keys], fun index hindex => ?_⟩
  rw [get_set, get_set]
  split
  · rfl
  · rename_i hne
    exact hsame.get index fun hidden => hindex ⟨hidden, hne⟩

theorem SameOutside.delete (hsame : SameOutside hidden left right)
    (key : κ) :
    SameOutside (fun index => hidden index ∧ index ≠ key)
      (left.delete key) (right.delete key) := by
  refine ⟨by rw [keys_delete, keys_delete, hsame.keys],
    fun index hindex => ?_⟩
  rw [get_delete, get_delete]
  split
  · rfl
  · rename_i hne
    exact hsame.get index fun hidden => hindex ⟨hidden, hne⟩

theorem SameOutside.isSome_get (hsame : SameOutside hidden left right)
    (key : κ) : (left.get key).isSome = (right.get key).isSome := by
  rw [Bool.eq_iff_iff, ← mem_keys_iff, ← mem_keys_iff, hsame.keys]

theorem SameOutside.get_eq_none (hsame : SameOutside hidden left right)
    (hnone : left.get key = none) : right.get key = none := by
  have hright := hsame.isSome_get key
  rw [hnone] at hright
  exact Option.isNone_iff_eq_none.mp (by simpa using hright.symm)

/-- A key that the maps do not have need not be hidden. -/
theorem SameOutside.of_get_eq_none (hsame : SameOutside hidden left right)
    (hnone : left.get key = none) :
    SameOutside (fun index => hidden index ∧ index ≠ key) left right := by
  refine ⟨hsame.keys, fun index hindex => ?_⟩
  by_cases heq : index = key
  · subst heq
    rw [hnone, hsame.get_eq_none hnone]
  · exact hsame.get index fun hidden => hindex ⟨hidden, heq⟩

theorem entries_eq_filterMap_keys (map : InsertionMap κ ν) :
    map.entries =
      map.keys.filterMap fun key => (map.get key).map fun value =>
        (key, value) := by
  rw [keys, List.filterMap_map]
  symm
  rw [List.filterMap_congr (g := some), List.filterMap_some]
  intro entry hentry
  have hget : map.get entry.1 = some entry.2 := get_eq_some_iff.mpr hentry
  rw [Function.comp_apply, hget]
  rfl

theorem foldl_entries {β : Type*} (map : InsertionMap κ ν)
    (next : β → κ × ν → β) (first : β) :
    map.entries.foldl next first =
      map.keys.foldl (fun result key =>
        ((map.get key).map fun value => next result (key, value)).getD result)
        first := by
  rw [entries_eq_filterMap_keys, List.foldl_filterMap]
  congr 1
  funext result key
  cases map.get key with
  | none => rfl
  | some value => rfl

theorem SameOutside.eq (hsame : SameOutside hidden left right)
    (hnone : ∀ key, ¬ hidden key) : left = right := by
  apply ext
  rw [entries_eq_filterMap_keys, entries_eq_filterMap_keys, hsame.keys]
  apply List.filterMap_congr
  intro key _
  rw [hsame.get key (hnone key)]

end SameOutside

/-! ## Values under keys of their own -/

section IndexBy

variable {key : ν → κ} {values : List ν} {index : κ} {value : ν}

/-- The map to which the values are written in turn. -/
def indexBy (key : ν → κ) (values : List ν) : InsertionMap κ ν :=
  values.foldl (fun map value => map.set (key value) value) empty

theorem get_indexBy_concat :
    (indexBy key (values ++ [value])).get index =
      if index = key value then some value
      else (indexBy key values).get index := by
  rw [indexBy, List.foldl_concat, get_set, indexBy]

theorem mem_of_get_indexBy
    (hget : (indexBy key values).get index = some value) :
    value ∈ values ∧ key value = index := by
  induction values using List.reverseRec with
  | nil => cases hget
  | append_singleton values last ih =>
      rw [get_indexBy_concat] at hget
      split at hget
      · rename_i heq
        rw [← Option.some.inj hget]
        exact ⟨List.mem_append_right values List.mem_cons_self, heq.symm⟩
      · obtain ⟨hmem, hkey⟩ := ih hget
        exact ⟨List.mem_append_left _ hmem, hkey⟩

theorem exists_get_indexBy (key : ν → κ) (hmem : value ∈ values) :
    ∃ last, (indexBy key values).get (key value) = some last := by
  induction values using List.reverseRec with
  | nil => cases hmem
  | append_singleton values last ih =>
      rw [get_indexBy_concat]
      by_cases heq : key value = key last
      · exact ⟨last, if_pos heq⟩
      · rw [if_neg heq]
        rcases List.mem_append.mp hmem with hold | hnew
        · exact ih hold
        · exact absurd (congrArg key (List.mem_singleton.mp hnew)) heq

theorem eq_nil_of_size_indexBy (hsize : (indexBy key values).size = 0) :
    values = [] := by
  apply List.eq_nil_iff_forall_not_mem.mpr
  intro value hmem
  obtain ⟨last, hget⟩ := exists_get_indexBy key hmem
  rw [get_eq_some_iff, List.length_eq_zero_iff.mp hsize] at hget
  cases hget

/-- Every value is kept if and only if no two different ones share a key. -/
theorem mem_values_indexBy_iff :
    (∀ value, value ∈ (indexBy key values).values ↔ value ∈ values) ↔
      ∀ first ∈ values, ∀ second ∈ values,
        key first = key second → first = second := by
  constructor
  · intro hall first hfirst second hsecond hsame
    obtain ⟨_, hget⟩ := mem_values_iff.mp ((hall first).mpr hfirst)
    obtain ⟨_, hother⟩ := mem_values_iff.mp ((hall second).mpr hsecond)
    obtain ⟨-, rfl⟩ := mem_of_get_indexBy hget
    obtain ⟨-, rfl⟩ := mem_of_get_indexBy hother
    rw [hsame, hother] at hget
    exact (Option.some.inj hget).symm
  · intro hdistinct value
    refine ⟨fun hmem => ?_, fun hmem => ?_⟩
    · obtain ⟨index, hget⟩ := mem_values_iff.mp hmem
      exact (mem_of_get_indexBy hget).1
    · obtain ⟨last, hget⟩ := exists_get_indexBy key hmem
      obtain ⟨hlast, hkey⟩ := mem_of_get_indexBy hget
      rw [hdistinct last hlast value hmem hkey] at hget
      exact mem_values_iff.mpr ⟨_, hget⟩

/-- Values with keys of their own stand in their order. -/
theorem entries_indexBy (hnodup : (values.map key).Nodup) :
    (indexBy key values).entries =
      values.map fun value => (key value, value) := by
  induction values using List.reverseRec with
  | nil => rfl
  | append_singleton values last ih =>
      rw [List.map_append, List.nodup_append] at hnodup
      obtain ⟨hvalues, -, hnew⟩ := hnodup
      have hentries := ih hvalues
      have hnone : key last ∉ (indexBy key values).entries.map Prod.fst := by
        rw [hentries, List.map_map]
        intro hmem
        exact hnew (key last) hmem (key last) (by simp) rfl
      rw [List.map_append, ← hentries]
      rw [indexBy, List.foldl_concat, ← indexBy]
      exact put_of_not_mem last hnone

end IndexBy

/-! ## Other values under the same keys -/

section MapValues

variable {μ : Type*}

def mapValues (f : ν → μ) (map : InsertionMap κ ν) : InsertionMap κ μ where
  entries := map.entries.map fun entry => (entry.1, f entry.2)
  nodup := by
    rw [List.map_map]
    exact map.nodup

omit [DecidableEq κ] in
theorem values_mapValues (f : ν → μ) (map : InsertionMap κ ν) :
    (map.mapValues f).values = map.values.map f := by
  simp [values, mapValues]

omit [DecidableEq κ] in
theorem mapValues_congr {f g : ν → μ} {map : InsertionMap κ ν}
    (hsame : ∀ value ∈ map.values, f value = g value) :
    map.mapValues f = map.mapValues g := by
  apply ext
  apply List.map_congr_left
  intro entry hentry
  rw [hsame entry.2 (List.mem_map.mpr ⟨entry, hentry, rfl⟩)]

theorem lookup_mapValues (f : ν → μ) (key : κ) (entries : List (κ × ν)) :
    lookup key (entries.map fun entry => (entry.1, f entry.2)) =
      (lookup key entries).map f := by
  induction entries with
  | nil => rfl
  | cons entry rest ih =>
      obtain ⟨key', value'⟩ := entry
      by_cases heq : key' = key
      · simp [lookup, heq]
      · simp [lookup, heq, ih]

theorem get_mapValues (f : ν → μ) (map : InsertionMap κ ν) (key : κ) :
    (map.mapValues f).get key = (map.get key).map f :=
  lookup_mapValues f key map.entries

theorem put_mapValues (f : ν → μ) (key : κ) (value : ν)
    (entries : List (κ × ν)) :
    (put key value entries).map (fun entry => (entry.1, f entry.2)) =
      put key (f value) (entries.map fun entry => (entry.1, f entry.2)) := by
  induction entries with
  | nil => rfl
  | cons entry rest ih =>
      obtain ⟨key', value'⟩ := entry
      by_cases heq : key' = key
      · simp [put, heq]
      · simp [put, heq, ih]

theorem mapValues_set (f : ν → μ) (map : InsertionMap κ ν) (key : κ)
    (value : ν) :
    (map.set key value).mapValues f = (map.mapValues f).set key (f value) :=
  ext (put_mapValues f key value map.entries)

theorem mapValues_delete (f : ν → μ) (map : InsertionMap κ ν) (key : κ) :
    (map.delete key).mapValues f = (map.mapValues f).delete key := by
  apply ext
  simp only [mapValues, delete, List.filter_map]
  rfl

end MapValues

end InsertionMap

end TsCommons.Foundations
