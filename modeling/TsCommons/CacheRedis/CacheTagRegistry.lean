import TsCommons.Foundations.SetMap
import TsCommons.Foundations.Since

/-!
# Tags of cache keys

The registry keeps two indexes, from tags to keys and from keys to tags, and
each operation updates both.  They are inverse to each other after every
history of calls, and hold what was tagged and not removed since.
-/

namespace TsCommons.CacheRedis

open Foundations

variable {T K : Type*} [DecidableEq T] [DecidableEq K]

structure CacheTagRegistry (T K : Type*) where
  tagToKeys : InsertionMap T (InsertionSet K)
  keyToTags : InsertionMap K (InsertionSet T)

namespace CacheTagRegistry

def empty : CacheTagRegistry T K := ⟨.empty, .empty⟩

def addToTagIndex (tagToKeys : InsertionMap T (InsertionSet K)) (key : K)
    (tag : T) : InsertionMap T (InsertionSet K) :=
  addToSet tagToKeys tag key

/-- The key has a set of tags even if none are given. -/
def addToKeyIndex (keyToTags : InsertionMap K (InsertionSet T)) (key : K)
    (tags : List T) : InsertionMap K (InsertionSet T) :=
  let existingTags := (keyToTags.get key).getD .empty
  keyToTags.set key (tags.foldl InsertionSet.add existingTags)

def tag (registry : CacheTagRegistry T K) (key : K) (tags : List T) :
    CacheTagRegistry T K where
  tagToKeys := tags.foldl
    (fun tagToKeys tag => addToTagIndex tagToKeys key tag) registry.tagToKeys
  keyToTags := addToKeyIndex registry.keyToTags key tags

def getKeysByTag (registry : CacheTagRegistry T K) (tag : T) : List K :=
  elementsAt registry.tagToKeys tag

def getTagsByKey (registry : CacheTagRegistry T K) (key : K) : List T :=
  elementsAt registry.keyToTags key

def removeKey (registry : CacheTagRegistry T K) (key : K) :
    CacheTagRegistry T K where
  tagToKeys :=
    match registry.keyToTags.get key with
    | none => registry.tagToKeys
    | some tags => tags.elements.foldl
        (fun tagToKeys tag => deleteAt tagToKeys tag key) registry.tagToKeys
  keyToTags := registry.keyToTags.delete key

/-- The registry without the tag, and the keys that carried it. -/
def removeTag (registry : CacheTagRegistry T K) (tag : T) :
    CacheTagRegistry T K × List K :=
  match registry.tagToKeys.get tag with
  | none => (registry, [])
  | some keys =>
      ({ tagToKeys := registry.tagToKeys.delete tag
         keyToTags := keys.elements.foldl
           (fun keyToTags key => deleteAt keyToTags key tag)
           registry.keyToTags },
        keys.elements)

inductive Call (T K : Type*)
  | tag (key : K) (tags : List T)
  | removeKey (key : K)
  | removeTag (tag : T)
  | clear

def apply (registry : CacheTagRegistry T K) :
    Call T K → CacheTagRegistry T K
  | .tag key tags => registry.tag key tags
  | .removeKey key => registry.removeKey key
  | .removeTag tag => (registry.removeTag tag).1
  | .clear => empty

def run (history : List (Call T K)) : CacheTagRegistry T K :=
  history.foldl apply empty

/-- The call tags the key with the tag. -/
def Tags (tag : T) (key : K) : Call T K → Prop
  | .tag other tags => other = key ∧ tag ∈ tags
  | _ => False

def Untags (tag : T) (key : K) : Call T K → Prop
  | .tag _ _ => False
  | .removeKey other => other = key
  | .removeTag other => other = tag
  | .clear => True

/-- The key was tagged with the tag after the last call that takes either
away. -/
def Carries (history : List (Call T K)) (tag : T) (key : K) : Prop :=
  Since (fun _ => Tags tag key) (Untags tag key) history

variable {registry : CacheTagRegistry T K} {tag other : T} {key found : K}
  {tags : List T}

/-! ## The two indexes -/

theorem mem_getKeysByTag_tag :
    found ∈ (registry.tag key tags).getKeysByTag other ↔
      found = key ∧ other ∈ tags ∨ found ∈ registry.getKeysByTag other :=
  mem_elementsAt_foldl_addToSet

theorem mem_getTagsByKey_tag :
    other ∈ (registry.tag key tags).getTagsByKey found ↔
      found = key ∧ other ∈ tags ∨ other ∈ registry.getTagsByKey found := by
  simp only [getTagsByKey, elementsAt, CacheTagRegistry.tag, addToKeyIndex,
    InsertionMap.get_set]
  by_cases heq : found = key
  · simp [heq, ← InsertionSet.mem_def, InsertionSet.mem_foldl_add]
  · simp [heq]

theorem mem_getKeysByTag_removeKey :
    found ∈ (registry.removeKey key).getKeysByTag other ↔
      found ∈ registry.getKeysByTag other ∧
        ¬(found = key ∧ other ∈ registry.getTagsByKey key) := by
  simp only [getKeysByTag, getTagsByKey, removeKey]
  cases hget : registry.keyToTags.get key with
  | none => simp [elementsAt, hget, InsertionSet.empty]
  | some tags =>
      rw [mem_elementsAt_foldl_deleteAt]
      simp [elementsAt, hget]

theorem mem_getTagsByKey_removeKey :
    other ∈ (registry.removeKey key).getTagsByKey found ↔
      other ∈ registry.getTagsByKey found ∧ found ≠ key := by
  simp only [getTagsByKey, removeKey, elementsAt_delete]
  split
  · rename_i heq
    simp [heq]
  · rename_i hne
    simp [hne]

/-- Removing a tag returns the keys that carry it. -/
theorem snd_removeTag :
    (registry.removeTag tag).2 = registry.getKeysByTag tag := by
  simp only [removeTag, getKeysByTag, elementsAt]
  cases hget : registry.tagToKeys.get tag with
  | none => rfl
  | some keys => rfl

theorem mem_getKeysByTag_removeTag :
    found ∈ (registry.removeTag tag).1.getKeysByTag other ↔
      found ∈ registry.getKeysByTag other ∧ other ≠ tag := by
  simp only [removeTag]
  cases hget : registry.tagToKeys.get tag with
  | none =>
      refine ⟨fun hmem => ⟨hmem, ?_⟩, And.left⟩
      rintro rfl
      simp [getKeysByTag, elementsAt, hget, InsertionSet.empty] at hmem
  | some keys =>
      simp only [getKeysByTag, elementsAt_delete]
      split
      · rename_i heq
        simp [heq]
      · rename_i hne
        simp [hne]

theorem mem_getTagsByKey_removeTag :
    other ∈ (registry.removeTag tag).1.getTagsByKey found ↔
      other ∈ registry.getTagsByKey found ∧
        ¬(other = tag ∧ found ∈ registry.getKeysByTag tag) := by
  simp only [removeTag, getKeysByTag]
  cases hget : registry.tagToKeys.get tag with
  | none => simp [elementsAt, hget, InsertionSet.empty]
  | some keys =>
      simp only [getTagsByKey, mem_elementsAt_foldl_deleteAt]
      simp [elementsAt, hget]

/-! ## Histories -/

/-- The indexes list each other. -/
def Inverse (registry : CacheTagRegistry T K) : Prop :=
  ∀ tag key,
    key ∈ registry.getKeysByTag tag ↔ tag ∈ registry.getTagsByKey key

theorem Inverse.apply (hinverse : Inverse registry) (call : Call T K) :
    Inverse (registry.apply call) := by
  intro tag key
  have hpair := hinverse tag key
  cases call with
  | tag other tags =>
      rw [CacheTagRegistry.apply, mem_getKeysByTag_tag, mem_getTagsByKey_tag,
        hpair]
  | removeKey other =>
      rw [CacheTagRegistry.apply, mem_getKeysByTag_removeKey,
        mem_getTagsByKey_removeKey, hpair]
      refine and_congr_right fun htag => not_congr ?_
      exact and_iff_left_of_imp fun heq => heq ▸ htag
  | removeTag other =>
      rw [CacheTagRegistry.apply, mem_getKeysByTag_removeTag,
        mem_getTagsByKey_removeTag, ← hpair]
      refine and_congr_right fun hkey => not_congr ?_
      exact (and_iff_left_of_imp fun heq => heq ▸ hkey).symm
  | clear => exact iff_of_false List.not_mem_nil List.not_mem_nil

theorem run_concat (history : List (Call T K)) (call : Call T K) :
    run (history ++ [call]) = (run history).apply call := by
  rw [run, List.foldl_append]
  rfl

theorem inverse_run (history : List (Call T K)) : Inverse (run history) := by
  induction history using List.reverseRecOn with
  | nil =>
      intro tag key
      exact iff_of_false List.not_mem_nil List.not_mem_nil
  | append_singleton history call ih =>
      rw [run_concat]
      exact ih.apply call

theorem mem_getTagsByKey_apply (hinverse : Inverse registry)
    (call : Call T K) :
    tag ∈ (registry.apply call).getTagsByKey key ↔
      Tags tag key call ∨
        tag ∈ registry.getTagsByKey key ∧ ¬Untags tag key call := by
  cases call with
  | tag other tags =>
      rw [apply, mem_getTagsByKey_tag]
      simp [Tags, Untags, eq_comm]
  | removeKey other =>
      rw [apply, mem_getTagsByKey_removeKey]
      simp [Tags, Untags, eq_comm]
  | removeTag other =>
      rw [apply, mem_getTagsByKey_removeTag, hinverse]
      simp only [Tags, Untags, false_or]
      refine and_congr_right fun htag => not_congr ?_
      rw [eq_comm, and_iff_left_iff_imp]
      rintro rfl
      exact htag
  | clear =>
      simp [apply, Tags, Untags, getTagsByKey, elementsAt, empty,
        InsertionSet.empty]

omit [DecidableEq T] [DecidableEq K] in
theorem carries_concat_iff {history : List (Call T K)} {call : Call T K} :
    Carries (history ++ [call]) tag key ↔
      Tags tag key call ∨ Carries history tag key ∧ ¬Untags tag key call := by
  unfold Carries
  rw [since_concat_iff]

theorem mem_getTagsByKey_run (history : List (Call T K)) :
    tag ∈ (run history).getTagsByKey key ↔ Carries history tag key := by
  induction history using List.reverseRecOn with
  | nil => exact iff_of_false List.not_mem_nil not_since_nil
  | append_singleton history call ih =>
      rw [run_concat, mem_getTagsByKey_apply (inverse_run history), ih,
        carries_concat_iff]

/-- After any history, a key is listed under a tag exactly when the tag is
listed under the key, and when the pair was tagged since they were removed;
removing the tag returns those keys, each once. -/
theorem indexes_hold_carried (history : List (Call T K)) (tag : T)
    (key : K) :
    (key ∈ (run history).getKeysByTag tag ↔
      tag ∈ (run history).getTagsByKey key) ∧
    (key ∈ (run history).getKeysByTag tag ↔ Carries history tag key) ∧
    (key ∈ ((run history).removeTag tag).2 ↔ Carries history tag key) ∧
    ((run history).removeTag tag).2.Nodup := by
  have hinverse := inverse_run history tag key
  have hcarries := hinverse.trans (mem_getTagsByKey_run history)
  refine ⟨hinverse, hcarries, ?_, ?_⟩
  · rw [snd_removeTag]
    exact hcarries
  · rw [snd_removeTag]
    exact InsertionSet.nodup _

end CacheTagRegistry

end TsCommons.CacheRedis
