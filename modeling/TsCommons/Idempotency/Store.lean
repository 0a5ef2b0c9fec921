import TsCommons.Foundations.InsertionMap
import Mathlib.Algebra.Order.Ring.Rat
import Mathlib.Tactic.Linarith

/-!
# The in-memory idempotency store

`InMemoryIdempotencyStore` maps the text of a key to an entry: a lock while
the result is absent, a cached result afterwards.  Every operation takes the
readings of `Date.now()` it makes as arguments, so the clock stays with the
caller.  Numbers of milliseconds are rationals.
-/

namespace TsCommons.Idempotency

open Foundations

structure IdempotencyKey where
  value : String
deriving DecidableEq, Repr

@[ext] theorem IdempotencyKey.ext {left right : IdempotencyKey}
    (hvalue : left.value = right.value) : left = right := by
  cases left
  cases right
  simpa using hvalue

structure StoreEntry (T : Type) where
  result : Option T
  expiresAt : ℚ
deriving DecidableEq

structure InMemoryIdempotencyStore (T : Type) where
  store : InsertionMap String (StoreEntry T)
deriving DecidableEq

namespace InMemoryIdempotencyStore

variable {T : Type}

def empty : InMemoryIdempotencyStore T := ⟨InsertionMap.empty⟩

/-- The entry tracked under a key, expired or not. -/
def entryOf (store : InMemoryIdempotencyStore T) (key : IdempotencyKey) :
    Option (StoreEntry T) :=
  store.store.get key.value

/-- `checkedAt` and `lockedAt` are the two clock readings, in that order. -/
def tryAcquire (store : InMemoryIdempotencyStore T) (key : IdempotencyKey)
    (ttlMs checkedAt lockedAt : ℚ) : Bool × InMemoryIdempotencyStore T :=
  let acquired : Bool × InMemoryIdempotencyStore T :=
    (true, ⟨store.store.set key.value ⟨none, lockedAt + ttlMs⟩⟩)
  match store.store.get key.value with
  | some existing =>
      if checkedAt ≤ existing.expiresAt then (false, store) else acquired
  | none => acquired

def getResult (store : InMemoryIdempotencyStore T) (key : IdempotencyKey)
    (now : ℚ) : Option T :=
  match store.store.get key.value with
  | none => none
  | some entry => if now > entry.expiresAt then none else entry.result

def storeResult (store : InMemoryIdempotencyStore T) (key : IdempotencyKey)
    (result : T) (ttlMs now : ℚ) : InMemoryIdempotencyStore T :=
  ⟨store.store.set key.value ⟨some result, now + ttlMs⟩⟩

def release (store : InMemoryIdempotencyStore T) (key : IdempotencyKey) :
    InMemoryIdempotencyStore T :=
  ⟨store.store.delete key.value⟩

/-- The number of entries removed, and the store without them. -/
def cleanup (store : InMemoryIdempotencyStore T) (now : ℚ) :
    ℕ × InMemoryIdempotencyStore T :=
  (store.store.entries.countP fun entry => now > entry.2.expiresAt,
    ⟨store.store.filter fun _ entry => ¬ now > entry.expiresAt⟩)

def size (store : InMemoryIdempotencyStore T) : ℕ := store.store.size

/-! ## What each operation does to the entry of a key -/

@[simp] theorem entryOf_empty (key : IdempotencyKey) :
    (empty : InMemoryIdempotencyStore T).entryOf key = none := rfl

theorem entryOf_set (store : InMemoryIdempotencyStore T)
    (key other : IdempotencyKey) (entry : StoreEntry T) :
    (InMemoryIdempotencyStore.mk (store.store.set key.value entry)).entryOf
        other =
      if other = key then some entry else store.entryOf other := by
  by_cases heq : other = key
  · subst other
    simp [entryOf]
  · have hvalue : other.value ≠ key.value :=
      fun hvalue => heq (IdempotencyKey.ext hvalue)
    simp [entryOf, InsertionMap.get_set_of_ne _ _ hvalue, heq]

theorem entryOf_storeResult (store : InMemoryIdempotencyStore T)
    (key other : IdempotencyKey) (result : T) (ttlMs now : ℚ) :
    (store.storeResult key result ttlMs now).entryOf other =
      if other = key then some ⟨some result, now + ttlMs⟩
      else store.entryOf other :=
  entryOf_set store key other _

theorem entryOf_release (store : InMemoryIdempotencyStore T)
    (key other : IdempotencyKey) :
    (store.release key).entryOf other =
      if other = key then none else store.entryOf other := by
  by_cases heq : other = key
  · subst other
    simp [entryOf, release]
  · have hvalue : other.value ≠ key.value :=
      fun hvalue => heq (IdempotencyKey.ext hvalue)
    simp [entryOf, release, InsertionMap.get_delete_of_ne _ hvalue, heq]

/-- An acquisition fails exactly on an entry that has not expired. -/
theorem tryAcquire_fst_eq_false_iff {store : InMemoryIdempotencyStore T}
    {key : IdempotencyKey} {ttlMs checkedAt lockedAt : ℚ} :
    (store.tryAcquire key ttlMs checkedAt lockedAt).1 = false ↔
      ∃ entry, store.entryOf key = some entry ∧ checkedAt ≤ entry.expiresAt := by
  unfold tryAcquire entryOf
  cases hentry : store.store.get key.value with
  | none => simp
  | some existing =>
      by_cases hlive : checkedAt ≤ existing.expiresAt
      · simp [hlive]
      · simp [hlive]

theorem tryAcquire_snd_of_false {store : InMemoryIdempotencyStore T}
    {key : IdempotencyKey} {ttlMs checkedAt lockedAt : ℚ}
    (hfst : (store.tryAcquire key ttlMs checkedAt lockedAt).1 = false) :
    (store.tryAcquire key ttlMs checkedAt lockedAt).2 = store := by
  obtain ⟨entry, hentry, hlive⟩ := tryAcquire_fst_eq_false_iff.mp hfst
  unfold entryOf at hentry
  simp [tryAcquire, hentry, hlive]

theorem tryAcquire_snd_of_true {store : InMemoryIdempotencyStore T}
    {key : IdempotencyKey} {ttlMs checkedAt lockedAt : ℚ}
    (hfst : (store.tryAcquire key ttlMs checkedAt lockedAt).1 = true) :
    (store.tryAcquire key ttlMs checkedAt lockedAt).2 =
      ⟨store.store.set key.value ⟨none, lockedAt + ttlMs⟩⟩ := by
  unfold tryAcquire at hfst ⊢
  cases hentry : store.store.get key.value with
  | none => simp
  | some existing =>
      by_cases hlive : checkedAt ≤ existing.expiresAt
      · simp [hentry, hlive] at hfst
      · simp [hlive]

theorem getResult_eq_some_iff {store : InMemoryIdempotencyStore T}
    {key : IdempotencyKey} {now : ℚ} {result : T} :
    store.getResult key now = some result ↔
      ∃ entry, store.entryOf key = some entry ∧ now ≤ entry.expiresAt ∧
        entry.result = some result := by
  unfold getResult entryOf
  cases hentry : store.store.get key.value with
  | none => simp
  | some entry =>
      by_cases hexpired : now > entry.expiresAt
      · simp [hexpired, not_le.mpr hexpired]
      · simp [hexpired, not_lt.mp hexpired]

/-- A cleanup drops the expired entries and no others. -/
theorem entryOf_cleanup (store : InMemoryIdempotencyStore T) (now : ℚ)
    (key : IdempotencyKey) :
    (store.cleanup now).2.entryOf key =
      (store.entryOf key).filter fun entry => now ≤ entry.expiresAt := by
  apply Option.ext
  intro entry
  simp only [cleanup, entryOf, InsertionMap.get_eq_some_iff,
    InsertionMap.filter, List.mem_filter, Option.filter_eq_some_iff]
  simp

theorem entryOf_cleanup_of_live {store : InMemoryIdempotencyStore T} {now : ℚ}
    {key : IdempotencyKey} {entry : StoreEntry T}
    (hentry : store.entryOf key = some entry) (hlive : now ≤ entry.expiresAt) :
    (store.cleanup now).2.entryOf key = some entry := by
  rw [entryOf_cleanup, hentry]
  simp [hlive]

theorem entryOf_cleanup_eq_some {store : InMemoryIdempotencyStore T} {now : ℚ}
    {key : IdempotencyKey} {entry : StoreEntry T}
    (hentry : (store.cleanup now).2.entryOf key = some entry) :
    store.entryOf key = some entry := by
  rw [entryOf_cleanup] at hentry
  exact (Option.filter_eq_some_iff.mp hentry).1

/-- The count a cleanup reports is the number of entries it removed. -/
theorem size_cleanup (store : InMemoryIdempotencyStore T) (now : ℚ) :
    (store.cleanup now).2.size + (store.cleanup now).1 = store.size := by
  simp only [cleanup, size, InsertionMap.size, InsertionMap.filter,
    ← List.countP_eq_length_filter]
  rw [List.length_eq_countP_add_countP
    (fun entry : String × StoreEntry T => decide (now > entry.2.expiresAt)),
    Nat.add_comm]
  simp

end InMemoryIdempotencyStore

end TsCommons.Idempotency
