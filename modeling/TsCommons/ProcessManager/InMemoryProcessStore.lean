import TsCommons.Foundations.InsertionMap

/-!
# The in-memory process store

Process states are stored under their ids; an index maps a correlation id to
the process that was saved with it last.
-/

namespace TsCommons.ProcessManager

open Foundations

inductive ProcessStatus
  | idle
  | running
  | completed
  | failed
  | timedOut
deriving DecidableEq

structure ProcessState (S : Type) where
  id : String
  status : ProcessStatus
  currentState : S
  correlationId : Option String
deriving DecidableEq

structure InMemoryProcessStore (S : Type) where
  byId : InsertionMap String (ProcessState S)
  byCorrelation : InsertionMap String String
deriving DecidableEq

namespace InMemoryProcessStore

variable {S : Type}

def empty : InMemoryProcessStore S := ⟨.empty, .empty⟩

def save (store : InMemoryProcessStore S) (state : ProcessState S) :
    InMemoryProcessStore S where
  byCorrelation :=
    match state.correlationId with
    | none => store.byCorrelation
    | some correlationId => store.byCorrelation.set correlationId state.id
  byId := store.byId.set state.id state

def findById (store : InMemoryProcessStore S) (id : String) :
    Option (ProcessState S) :=
  store.byId.get id

def findByCorrelationId (store : InMemoryProcessStore S)
    (correlationId : String) : Option (ProcessState S) :=
  match store.byCorrelation.get correlationId with
  | none => none
  | some id => store.findById id

def findByStatus (store : InMemoryProcessStore S) (status : ProcessStatus) :
    List (ProcessState S) :=
  store.byId.values.filter fun state => state.status = status

/-- The index is looked up by `s?.correlationId`. -/
def delete (store : InMemoryProcessStore S) (id : String) :
    InMemoryProcessStore S where
  byCorrelation :=
    match (store.byId.get id).bind ProcessState.correlationId with
    | none => store.byCorrelation
    | some correlationId => store.byCorrelation.delete correlationId
  byId := store.byId.delete id

def size (store : InMemoryProcessStore S) : ℕ := store.byId.size

theorem findByCorrelationId_eq_some_iff {store : InMemoryProcessStore S}
    {correlationId : String} {found : ProcessState S} :
    store.findByCorrelationId correlationId = some found ↔
      ∃ id, store.byCorrelation.get correlationId = some id ∧
        store.findById id = some found := by
  unfold findByCorrelationId
  cases store.byCorrelation.get correlationId <;> simp

@[simp] theorem findById_save (store : InMemoryProcessStore S)
    (state : ProcessState S) (id : String) :
    (store.save state).findById id =
      if id = state.id then some state else store.findById id :=
  store.byId.get_set state.id id state

@[simp] theorem findById_delete (store : InMemoryProcessStore S)
    (deleted id : String) :
    (store.delete deleted).findById id =
      if id = deleted then none else store.findById id :=
  store.byId.get_delete deleted id

/-- A save with a correlation id moves that id to the process; the other ids
stay where they are. -/
theorem byCorrelation_save (store : InMemoryProcessStore S)
    (state : ProcessState S) (correlationId : String) :
    (store.save state).byCorrelation.get correlationId =
      if state.correlationId = some correlationId then some state.id
      else store.byCorrelation.get correlationId := by
  unfold save
  cases hsaved : state.correlationId with
  | none => rfl
  | some saved =>
      simp only [InsertionMap.get_set, Option.some.injEq]
      simp only [eq_comm]

theorem byCorrelation_delete (store : InMemoryProcessStore S)
    (id correlationId : String) :
    (store.delete id).byCorrelation.get correlationId =
      if (store.findById id).bind ProcessState.correlationId =
          some correlationId then none
      else store.byCorrelation.get correlationId := by
  unfold delete findById
  cases hstored : (store.byId.get id).bind ProcessState.correlationId with
  | none => rfl
  | some stored =>
      simp only [InsertionMap.get_delete, Option.some.injEq]
      simp only [eq_comm]

theorem findByCorrelationId_save (store : InMemoryProcessStore S)
    (state : ProcessState S) (correlationId : String) :
    (store.save state).findByCorrelationId correlationId =
      if state.correlationId = some correlationId ∨
          store.byCorrelation.get correlationId = some state.id then
        some state
      else store.findByCorrelationId correlationId := by
  unfold findByCorrelationId
  rw [byCorrelation_save]
  by_cases hsaved : state.correlationId = some correlationId
  · simp [hsaved]
  · cases hindex : store.byCorrelation.get correlationId with
    | none => simp [hsaved]
    | some id =>
        by_cases hid : id = state.id
        · simp [hsaved, hid]
        · simp [hsaved, hid]

theorem findByCorrelationId_delete (store : InMemoryProcessStore S)
    (id correlationId : String) :
    (store.delete id).findByCorrelationId correlationId =
      if (store.findById id).bind ProcessState.correlationId =
            some correlationId ∨
          store.byCorrelation.get correlationId = some id then none
      else store.findByCorrelationId correlationId := by
  unfold findByCorrelationId
  rw [byCorrelation_delete]
  by_cases hstored : (store.findById id).bind ProcessState.correlationId =
      some correlationId
  · simp [hstored]
  · cases hindex : store.byCorrelation.get correlationId with
    | none => simp [hstored]
    | some other =>
        by_cases hid : other = id
        · simp [hstored, hid]
        · simp [hstored, hid]

end InMemoryProcessStore

end TsCommons.ProcessManager
