import TsCommons.Foundations.InsertionMap
import Mathlib.Data.Int.Notation
import Mathlib.Tactic.Common

/-!
# The in-memory event store

Streams of events under string ids, and the list of the subscribed handlers.
An append is checked against the length of its stream before anything is
written.  A handler is the function object that was subscribed, so that two
handlers are equal when they are the same function.
-/

namespace TsCommons.EventSourcing

open Foundations

/-- What a rejected append rejects with. -/
structure ConcurrencyError where
  streamId : String
  expected : ℤ
  actual : ℕ
deriving DecidableEq

namespace ConcurrencyError

def name (_ : ConcurrencyError) : String := "ConcurrencyError"

def message (error : ConcurrencyError) : String :=
  "Concurrency conflict on stream \"" ++ error.streamId ++
    "\": expected version " ++ toString error.expected ++ ", got " ++
    toString error.actual

end ConcurrencyError

structure InMemoryEventStore (H Ev : Type*) where
  streams : InsertionMap String (List Ev)
  handlers : List H

namespace InMemoryEventStore

variable {H Ev : Type*}

def new : InMemoryEventStore H Ev := ⟨.empty, []⟩

/-- `streams.get(streamId) ?? []`. -/
def content (store : InMemoryEventStore H Ev) (streamId : String) : List Ev :=
  (store.streams.get streamId).getD []

/-- The part of `append` before its loops: the version check and the write. -/
def write (store : InMemoryEventStore H Ev) (streamId : String)
    (events : List Ev) (expectedVersion : ℤ) :
    Except ConcurrencyError (InMemoryEventStore H Ev) :=
  let current := store.content streamId
  if (current.length : ℤ) ≠ expectedVersion then
    .error ⟨streamId, expectedVersion, current.length⟩
  else
    .ok { store with streams := store.streams.set streamId (current ++ events) }

/-- The calls that the loops of `append` make when no handler changes the
list of the handlers: for each event, every handler in turn. -/
def deliveries (handlers : List H) (events : List Ev) : List (H × Ev) :=
  events.flatMap fun event => handlers.map fun handler => (handler, event)

/-- `append` with handlers that return without calling the store: the store
afterwards and the calls made. -/
def append (store : InMemoryEventStore H Ev) (streamId : String)
    (events : List Ev) (expectedVersion : ℤ) :
    Except ConcurrencyError (InMemoryEventStore H Ev × List (H × Ev)) :=
  (store.write streamId events expectedVersion).map fun updated =>
    (updated, deliveries store.handlers events)

/-- `events.slice(fromVersion)`, which counts a negative index from the end. -/
def getEvents (store : InMemoryEventStore H Ev) (streamId : String)
    (fromVersion : ℤ := 0) : List Ev :=
  let events := store.content streamId
  if 0 ≤ fromVersion then events.drop fromVersion.toNat
  else events.drop (events.length + fromVersion).toNat

def subscribe (store : InMemoryEventStore H Ev) (handler : H) :
    InMemoryEventStore H Ev :=
  { store with handlers := store.handlers ++ [handler] }

/-- The function that `subscribe` returns: it takes the first entry of the
handler out of the list, if there is one. -/
def unsubscribe [DecidableEq H] (store : InMemoryEventStore H Ev)
    (handler : H) : InMemoryEventStore H Ev :=
  match store.handlers.idxOf? handler with
  | none => store
  | some index => { store with handlers := store.handlers.eraseIdx index }

variable {store updated : InMemoryEventStore H Ev} {streamId : String}
  {events : List Ev} {expectedVersion : ℤ}

@[simp] theorem content_subscribe (store : InMemoryEventStore H Ev)
    (handler : H) (streamId : String) :
    (store.subscribe handler).content streamId = store.content streamId := rfl

@[simp] theorem content_unsubscribe [DecidableEq H]
    (store : InMemoryEventStore H Ev) (handler : H) (streamId : String) :
    (store.unsubscribe handler).content streamId =
      store.content streamId := by
  unfold unsubscribe
  split <;> rfl

theorem handlers_unsubscribe [DecidableEq H]
    (store : InMemoryEventStore H Ev) (handler : H) :
    (store.unsubscribe handler).handlers =
      store.handlers.eraseIdx (store.handlers.idxOf handler) := by
  unfold unsubscribe
  cases hindex : store.handlers.idxOf? handler with
  | none =>
      have hnone := List.idxOf?_eq_none_iff.mp hindex
      rw [List.idxOf_eq_length_iff.mpr hnone,
        List.eraseIdx_of_length_le (Nat.le_refl _)]
  | some index =>
      rw [List.idxOf_eq_getD_idxOf?, hindex]
      rfl

@[simp] theorem getEvents_zero (store : InMemoryEventStore H Ev)
    (streamId : String) :
    store.getEvents streamId = store.content streamId := by
  simp [getEvents]

theorem write_eq_ok_iff :
    store.write streamId events expectedVersion = .ok updated ↔
      ((store.content streamId).length : ℤ) = expectedVersion ∧
        updated = { store with
          streams := store.streams.set streamId
            (store.content streamId ++ events) } := by
  unfold write
  by_cases hversion :
      ((store.content streamId).length : ℤ) = expectedVersion
  · simp [hversion, eq_comm]
  · simp [hversion]

/-- A write that succeeds puts the events at the end of their stream. -/
theorem content_of_write
    (hwrite : store.write streamId events expectedVersion = .ok updated)
    (other : String) :
    updated.content other =
      if other = streamId then store.content streamId ++ events
      else store.content other := by
  obtain ⟨-, rfl⟩ := write_eq_ok_iff.mp hwrite
  unfold content
  rw [InsertionMap.get_set]
  by_cases hother : other = streamId
  · rw [if_pos hother, if_pos hother]
    rfl
  · rw [if_neg hother, if_neg hother]

/-- What stands at the beginning of a stream stays there. -/
theorem take_content_of_write
    (hwrite : store.write streamId events expectedVersion = .ok updated)
    {other : String} {n : ℕ} (hle : n ≤ (store.content other).length) :
    (updated.content other).take n = (store.content other).take n := by
  rw [content_of_write hwrite]
  by_cases hother : other = streamId
  · subst hother
    rw [if_pos rfl, List.take_append_of_le_length hle]
  · rw [if_neg hother]

theorem handlers_of_write
    (hwrite : store.write streamId events expectedVersion = .ok updated) :
    updated.handlers = store.handlers := by
  obtain ⟨-, rfl⟩ := write_eq_ok_iff.mp hwrite
  rfl

theorem append_eq_ok_iff {calls : List (H × Ev)} :
    store.append streamId events expectedVersion = .ok (updated, calls) ↔
      store.write streamId events expectedVersion = .ok updated ∧
        calls = deliveries store.handlers events := by
  unfold append
  cases store.write streamId events expectedVersion with
  | error error => simp [Except.map]
  | ok written => simp [Except.map, eq_comm]

/-- An error names the version that was expected and the one that was
found. -/
theorem error_of_write {error : ConcurrencyError}
    (hwrite : store.write streamId events expectedVersion = .error error) :
    error = ⟨streamId, expectedVersion, (store.content streamId).length⟩ ∧
      (error.actual : ℤ) ≠ error.expected := by
  unfold write at hwrite
  by_cases hversion :
      ((store.content streamId).length : ℤ) = expectedVersion
  · simp [hversion] at hwrite
  · simp only [hversion, ne_eq, not_false_eq_true, if_true,
      Except.error.injEq] at hwrite
    subst error
    exact ⟨rfl, hversion⟩

end InMemoryEventStore

end TsCommons.EventSourcing
