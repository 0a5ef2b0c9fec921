import TsCommons.Foundations.InsertionMap
import Mathlib.Algebra.Order.Ring.Rat
import Mathlib.Data.Set.Card
import Mathlib.Logic.Function.Basic

/-!
# The cache port and the in-memory cache

A `CachePort` is given by what its operations answer and how they change the
state of the tier behind it; the clock reading of an operation is an argument.
`InMemoryCache` implements the port with lazy expiry and eviction of the oldest
entry.  `KeepsWrites` is the abstract view of a tier that is asked for no
lifetimes and has no need of evictions: a register for each key.
-/

namespace TsCommons.Cache

open Foundations

structure Duration where
  milliseconds : ℚ
  nonneg : 0 ≤ milliseconds
deriving DecidableEq

structure CachePort (S V : Type) where
  get : S → String → ℚ → Option V × S
  set : S → String → V → Option Duration → ℚ → S
  delete : S → String → S
  has : S → String → ℚ → Bool × S

/-- On the states that satisfy `ok`, and for calls on the keys of `keys`, the
tier behaves as one register for each key, with `content` as its value:
whatever is written without a lifetime stays until the key is written
again. -/
structure KeepsWrites {S V : Type} (port : CachePort S V)
    (keys : Set String) (content : S → String → Option V)
    (ok : S → Prop) : Prop where
  get_answer : ∀ tier, ∀ key ∈ keys, ∀ now, ok tier →
    (port.get tier key now).1 = content tier key
  get_ok : ∀ tier, ∀ key ∈ keys, ∀ now, ok tier →
    ok (port.get tier key now).2
  get_content : ∀ tier, ∀ key ∈ keys, ∀ now, ok tier →
    content (port.get tier key now).2 = content tier
  set_ok : ∀ tier, ∀ key ∈ keys, ∀ value now, ok tier →
    ok (port.set tier key value none now)
  set_content : ∀ tier, ∀ key ∈ keys, ∀ value now, ok tier →
    content (port.set tier key value none now) =
      Function.update (content tier) key (some value)
  delete_ok : ∀ tier, ∀ key ∈ keys, ok tier → ok (port.delete tier key)
  delete_content : ∀ tier, ∀ key ∈ keys, ok tier →
    content (port.delete tier key) =
      Function.update (content tier) key none

structure CacheEntry (V : Type) where
  value : V
  expiresAt : Option ℚ
deriving DecidableEq

/-- `Date.now() > entry.expiresAt`, false without an expiry. -/
def CacheEntry.expired {V : Type} (entry : CacheEntry V) (now : ℚ) : Bool :=
  match entry.expiresAt with
  | none => false
  | some expiresAt => now > expiresAt

structure InMemoryCache (V : Type) where
  store : InsertionMap String (CacheEntry V)
  maxEntries : ℕ∞

namespace InMemoryCache

variable {V : Type}

/-- `maxSize` is the option of that name; it defaults to 1000. -/
def create (maxSize : Option ℕ∞) : InMemoryCache V where
  store := .empty
  maxEntries := maxSize.getD 1000

def getSync (cache : InMemoryCache V) (key : String) (now : ℚ) :
    Option V × InMemoryCache V :=
  match cache.store.get key with
  | none => (none, cache)
  | some entry =>
      if entry.expired now then
        (none, { cache with store := cache.store.delete key })
      else (some entry.value, cache)

def evictOldest (cache : InMemoryCache V) : InMemoryCache V :=
  match cache.store.keys.head? with
  | none => cache
  | some firstKey => { cache with store := cache.store.delete firstKey }

def set (cache : InMemoryCache V) (key : String) (value : V)
    (ttl : Option Duration) (now : ℚ) : InMemoryCache V :=
  let room :=
    if cache.maxEntries ≤ cache.store.size ∧ ¬ cache.store.has key then
      cache.evictOldest
    else cache
  let expiresAt := ttl.map fun ttl => now + ttl.milliseconds
  { room with store := room.store.set key ⟨value, expiresAt⟩ }

def delete (cache : InMemoryCache V) (key : String) : InMemoryCache V :=
  { cache with store := cache.store.delete key }

def has (cache : InMemoryCache V) (key : String) (now : ℚ) :
    Bool × InMemoryCache V :=
  let option := cache.getSync key now
  (option.1.isSome, option.2)

def size (cache : InMemoryCache V) : ℕ := cache.store.size

def clear (cache : InMemoryCache V) : InMemoryCache V :=
  { cache with store := .empty }

def port : CachePort (InMemoryCache V) V where
  get := getSync
  set := set
  delete := delete
  has := has

/-! ## Entries -/

theorem getSync_fst_eq_some_iff {cache : InMemoryCache V} {key : String}
    {now : ℚ} {value : V} :
    (cache.getSync key now).1 = some value ↔
      ∃ entry, cache.store.get key = some entry ∧
        entry.expired now = false ∧ entry.value = value := by
  unfold getSync
  cases hentry : cache.store.get key with
  | none => simp
  | some entry =>
      cases hexpired : entry.expired now <;> simp [hexpired]

theorem getSync_of_get {cache : InMemoryCache V} {key : String} {now : ℚ}
    {entry : CacheEntry V} (hentry : cache.store.get key = some entry)
    (hlive : entry.expired now = false) :
    cache.getSync key now = (some entry.value, cache) := by
  simp [getSync, hentry, hlive]

/-- A read deletes an expired entry of its key and nothing else. -/
theorem get_of_getSync {cache : InMemoryCache V} {key other : String}
    {now : ℚ} {entry : CacheEntry V}
    (hentry : (cache.getSync key now).2.store.get other = some entry) :
    cache.store.get other = some entry := by
  unfold getSync at hentry
  cases hkey : cache.store.get key with
  | none => simpa [hkey] using hentry
  | some found =>
      cases hexpired : found.expired now with
      | false => simpa [hkey, hexpired] using hentry
      | true =>
          by_cases heq : other = key
          · subst other
            simp [hkey, hexpired] at hentry
          · simpa [hkey, hexpired, InsertionMap.get_delete_of_ne _ heq]
              using hentry

theorem getSync_of_not_expired {cache : InMemoryCache V} {key : String}
    {now : ℚ}
    (hlive : ∀ entry, cache.store.get key = some entry →
      entry.expired now = false) :
    (cache.getSync key now).2 = cache := by
  unfold getSync
  cases hentry : cache.store.get key with
  | none => rfl
  | some entry => simp [hlive entry hentry]

theorem get_of_evictOldest {cache : InMemoryCache V} {key : String}
    {entry : CacheEntry V}
    (hentry : cache.evictOldest.store.get key = some entry) :
    cache.store.get key = some entry := by
  unfold evictOldest at hentry
  cases hfirst : cache.store.keys.head? with
  | none => simpa [hfirst] using hentry
  | some firstKey =>
      by_cases heq : key = firstKey
      · subst key
        simp [hfirst] at hentry
      · simpa [hfirst, InsertionMap.get_delete_of_ne _ heq] using hentry

@[simp] theorem get_set_self (cache : InMemoryCache V) (key : String)
    (value : V) (ttl : Option Duration) (now : ℚ) :
    (cache.set key value ttl now).store.get key =
      some ⟨value, ttl.map fun ttl => now + ttl.milliseconds⟩ := by
  simp [set]

/-- A write may evict other entries but adds none. -/
theorem get_of_set_of_ne {cache : InMemoryCache V} {key other : String}
    {value : V} {ttl : Option Duration} {now : ℚ} {entry : CacheEntry V}
    (hne : other ≠ key)
    (hentry : (cache.set key value ttl now).store.get other = some entry) :
    cache.store.get other = some entry := by
  simp only [set, InsertionMap.get_set_of_ne _ _ hne] at hentry
  split_ifs at hentry with hfull
  · exact get_of_evictOldest hentry
  · exact hentry

theorem get_of_delete {cache : InMemoryCache V} {key other : String}
    {entry : CacheEntry V}
    (hentry : (cache.delete key).store.get other = some entry) :
    other ≠ key ∧ cache.store.get other = some entry := by
  by_cases heq : other = key
  · subst other
    simp [delete] at hentry
  · refine ⟨heq, ?_⟩
    simpa [delete, InsertionMap.get_delete_of_ne _ heq] using hentry

/-! ## The tier without lifetimes and evictions -/

def content (cache : InMemoryCache V) (key : String) : Option V :=
  (cache.store.get key).map CacheEntry.value

/-- There is room for all of the keys; no other key is stored, and no entry
has a lifetime. -/
def RoomFor (keys : Set String) (cache : InMemoryCache V) : Prop :=
  keys.encard ≤ cache.maxEntries ∧
    ∀ key entry, cache.store.get key = some entry →
      key ∈ keys ∧ entry.expiresAt = none

variable {keys : Set String}

theorem RoomFor.not_expired {cache : InMemoryCache V}
    (hroom : cache.RoomFor keys) {key : String} {now : ℚ}
    (entry : CacheEntry V) (hentry : cache.store.get key = some entry) :
    entry.expired now = false := by
  simp [CacheEntry.expired, (hroom.2 key entry hentry).2]

theorem RoomFor.size_lt {cache : InMemoryCache V}
    (hroom : cache.RoomFor keys) {key : String} (hkey : key ∈ keys)
    (hfree : cache.store.get key = none) :
    (cache.store.size : ℕ∞) < cache.maxEntries := by
  have hnot : key ∉ cache.store.keys := by
    rw [InsertionMap.mem_keys_iff, hfree]
    simp
  have hnodup : (key :: cache.store.keys).Nodup :=
    List.nodup_cons.mpr ⟨hnot, cache.store.nodup⟩
  have hsubset :
      ((key :: cache.store.keys).toFinset : Set String) ⊆ keys := by
    intro other hother
    rw [Finset.mem_coe, List.mem_toFinset, List.mem_cons] at hother
    rcases hother with rfl | hstored
    · exact hkey
    · obtain ⟨entry, hentry⟩ := Option.isSome_iff_exists.mp
        (InsertionMap.mem_keys_iff.mp hstored)
      exact (hroom.2 other entry hentry).1
  have hcard := (Set.encard_le_encard hsubset).trans hroom.1
  rw [Set.encard_coe_eq_coe_finsetCard, List.toFinset_card_of_nodup hnodup,
    List.length_cons] at hcard
  have hsize : cache.store.keys.length = cache.store.size :=
    List.length_map ..
  rw [hsize] at hcard
  exact lt_of_lt_of_le (by exact_mod_cast Nat.lt_succ_self _) hcard

theorem set_of_roomFor {cache : InMemoryCache V}
    (hroom : cache.RoomFor keys) {key : String} (hkey : key ∈ keys)
    (value : V) (ttl : Option Duration) (now : ℚ) :
    cache.set key value ttl now =
      { cache with
        store := cache.store.set key
          ⟨value, ttl.map fun ttl => now + ttl.milliseconds⟩ } := by
  have hnotFull :
      ¬ (cache.maxEntries ≤ cache.store.size ∧ ¬ cache.store.has key) := by
    rintro ⟨hfull, hfree⟩
    have hnone : cache.store.get key = none := by
      simpa [InsertionMap.has] using hfree
    exact absurd hfull (not_le.mpr (hroom.size_lt hkey hnone))
  unfold set
  rw [if_neg hnotFull]

/-- An in-memory cache with room for the keys is a register for each key. -/
theorem port_keepsWrites (keys : Set String) :
    KeepsWrites (port (V := V)) keys content (RoomFor keys) where
  get_answer := by
    intro cache key _ now hroom
    have hlive : ∀ entry, cache.store.get key = some entry →
        entry.expired now = false := hroom.not_expired
    unfold content
    cases hentry : cache.store.get key with
    | none => simp [port, getSync, hentry]
    | some entry => simp [port, getSync, hentry, hlive entry hentry]
  get_ok := by
    intro cache key _ now hroom
    have hsame : (port.get cache key now).2 = cache :=
      getSync_of_not_expired hroom.not_expired
    rwa [hsame]
  get_content := by
    intro cache key _ now hroom
    have hsame : (port.get cache key now).2 = cache :=
      getSync_of_not_expired hroom.not_expired
    rw [hsame]
  set_ok := by
    intro cache key hkey value now hroom
    simp only [port, set_of_roomFor hroom hkey]
    refine ⟨hroom.1, ?_⟩
    intro other entry hentry
    rw [InsertionMap.get_set] at hentry
    split_ifs at hentry with heq
    · rw [Option.some.injEq] at hentry
      rw [← hentry, heq]
      exact ⟨hkey, rfl⟩
    · exact hroom.2 other entry hentry
  set_content := by
    intro cache key hkey value now hroom
    simp only [port, set_of_roomFor hroom hkey]
    funext other
    by_cases heq : other = key
    · subst other
      simp [content]
    · simp [content, InsertionMap.get_set_of_ne _ _ heq, heq]
  delete_ok := by
    intro cache key _ hroom
    refine ⟨hroom.1, ?_⟩
    intro other entry hentry
    exact hroom.2 other entry (get_of_delete hentry).2
  delete_content := by
    intro cache key _ _
    funext other
    by_cases heq : other = key
    · subst other
      simp [content, port, delete]
    · simp [content, port, delete, InsertionMap.get_delete_of_ne _ heq, heq]

end InMemoryCache

end TsCommons.Cache
