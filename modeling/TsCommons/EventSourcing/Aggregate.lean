import Mathlib.Data.Int.Notation
import Mathlib.Data.List.Basic
import Mathlib.Tactic.Common

/-!
# Event-sourced aggregates

The state of an aggregate is the fold of its events.  The version counts the
events applied, those of the history included, and the uncommitted events are
the ones raised since the last `markCommitted`.  The function `apply` of the
concrete class is a parameter: it is documented to be pure.
-/

namespace TsCommons.EventSourcing

structure EventSourcedAggregate (S Ev : Type*) where
  state : S
  version : ℕ
  uncommittedEvents : List Ev

namespace EventSourcedAggregate

variable {S Ev : Type*}

/-- A newly constructed aggregate. -/
def fresh (initial : S) : EventSourcedAggregate S Ev := ⟨initial, 0, []⟩

/-- One round of the loop of `loadFromHistory`. -/
def replay (apply : S → Ev → S) (aggregate : EventSourcedAggregate S Ev)
    (event : Ev) : EventSourcedAggregate S Ev :=
  { aggregate with
    state := apply aggregate.state event
    version := aggregate.version + 1 }

def loadFromHistory (apply : S → Ev → S)
    (aggregate : EventSourcedAggregate S Ev) (events : List Ev) :
    EventSourcedAggregate S Ev :=
  events.foldl (replay apply) aggregate

def raise (apply : S → Ev → S) (aggregate : EventSourcedAggregate S Ev)
    (event : Ev) : EventSourcedAggregate S Ev where
  state := apply aggregate.state event
  version := aggregate.version + 1
  uncommittedEvents := aggregate.uncommittedEvents ++ [event]

def getUncommittedEvents (aggregate : EventSourcedAggregate S Ev) : List Ev :=
  aggregate.uncommittedEvents

def markCommitted (aggregate : EventSourcedAggregate S Ev) :
    EventSourcedAggregate S Ev :=
  { aggregate with uncommittedEvents := [] }

/-- The version that the aggregate was loaded at, as a caller computes it for
an append: the version without the uncommitted events. -/
def expectedVersion (aggregate : EventSourcedAggregate S Ev) : ℤ :=
  (aggregate.version : ℤ) - aggregate.uncommittedEvents.length

variable {apply : S → Ev → S} {initial : S}
  {aggregate : EventSourcedAggregate S Ev}

theorem loadFromHistory_eq (apply : S → Ev → S)
    (aggregate : EventSourcedAggregate S Ev) (events : List Ev) :
    aggregate.loadFromHistory apply events =
      ⟨events.foldl apply aggregate.state,
        aggregate.version + events.length, aggregate.uncommittedEvents⟩ := by
  unfold loadFromHistory
  induction events generalizing aggregate with
  | nil => rfl
  | cons event rest ih =>
      rw [List.foldl_cons, ih, List.foldl_cons, List.length_cons]
      simp only [replay, mk.injEq, and_true, true_and]
      omega

/-- What `aggregate` is when the events `base` were loaded into a fresh
aggregate, and its uncommitted events were raised on it. -/
structure RaisedOn (apply : S → Ev → S) (initial : S) (base : List Ev)
    (aggregate : EventSourcedAggregate S Ev) : Prop where
  state :
    aggregate.state =
      (base ++ aggregate.uncommittedEvents).foldl apply initial
  version :
    aggregate.version = base.length + aggregate.uncommittedEvents.length

theorem RaisedOn.load (apply : S → Ev → S) (initial : S) (base : List Ev) :
    RaisedOn apply initial base
      ((fresh initial).loadFromHistory apply base) := by
  rw [loadFromHistory_eq]
  constructor <;> simp [fresh]

theorem RaisedOn.raise {base : List Ev}
    (hraised : RaisedOn apply initial base aggregate) (event : Ev) :
    RaisedOn apply initial base (aggregate.raise apply event) := by
  obtain ⟨hstate, hversion⟩ := hraised
  constructor
  · unfold EventSourcedAggregate.raise
    rw [hstate, ← List.append_assoc, List.foldl_concat]
  · unfold EventSourcedAggregate.raise
    simp only [hversion, List.length_append, List.length_singleton]
    omega

/-- After `markCommitted` the events that were uncommitted are part of the
history. -/
theorem RaisedOn.markCommitted {base : List Ev}
    (hraised : RaisedOn apply initial base aggregate) :
    RaisedOn apply initial (base ++ aggregate.uncommittedEvents)
      aggregate.markCommitted := by
  obtain ⟨hstate, hversion⟩ := hraised
  constructor
  · simpa [EventSourcedAggregate.markCommitted] using hstate
  · simpa [EventSourcedAggregate.markCommitted] using hversion

theorem RaisedOn.expectedVersion {base : List Ev}
    (hraised : RaisedOn apply initial base aggregate) :
    aggregate.expectedVersion = base.length := by
  unfold EventSourcedAggregate.expectedVersion
  rw [hraised.version]
  omega

end EventSourcedAggregate

end TsCommons.EventSourcing
