import TsCommons.EventSourcing.Aggregate
import TsCommons.EventSourcing.EventStore
import TsCommons.Foundations.Execution
import Mathlib.Logic.Function.Basic

/-!
# Optimistic concurrency of event-sourced aggregates

Any number of writers share the event store.  A writer loads a stream into a
fresh aggregate, raises events on it and appends them at the version that it
was loaded at, each a step of its own that the steps of the others may stand
between.  After an append that succeeds, its next step on that aggregate is
`markCommitted`; after one that is rejected, it may retry or load again.  The
log tells which loads and which successful appends there have been.
-/

namespace TsCommons.EventSourcing.OptimisticConcurrency

open Foundations

variable {W H S Ev : Type*}

/-- A successful append, with the aggregate's state and version at the time. -/
structure Commit (W S Ev : Type*) where
  writer : W
  streamId : String
  events : List Ev
  state : S
  version : ℕ
deriving DecidableEq

inductive Entry (W S Ev : Type*)
  | loaded (writer : W)
  | committed (commit : Commit W S Ev)
deriving DecidableEq

inductive Phase (S Ev : Type*)
  | idle
  | loading (streamId : String) (history : List Ev)
  | ready (streamId : String) (aggregate : EventSourcedAggregate S Ev)
  | appended (streamId : String) (aggregate : EventSourcedAggregate S Ev)

structure State (W H S Ev : Type*) where
  store : InMemoryEventStore H Ev
  writers : W → Phase S Ev
  calls : List (H × Ev)
  log : List (Entry W S Ev)

inductive Label (W H Ev : Type*)
  | subscribe (handler : H)
  | unsubscribe (handler : H)
  | getEvents (writer : W) (streamId : String)
  | loadFromHistory (writer : W)
  | raise (writer : W) (event : Ev)
  | append (writer : W)
  | markCommitted (writer : W)
deriving DecidableEq

/-! ## The log -/

def Entry.writer : Entry W S Ev → W
  | .loaded writer => writer
  | .committed commit => commit.writer

def Entry.commitTo (streamId : String) :
    Entry W S Ev → Option (Commit W S Ev)
  | .loaded _ => none
  | .committed commit =>
      if commit.streamId = streamId then some commit else none

/-- The successful appends to a stream, oldest first. -/
def commitsTo (streamId : String) (log : List (Entry W S Ev)) :
    List (Commit W S Ev) :=
  (log.filterMap (Entry.commitTo streamId)).reverse

def eventsOf (commits : List (Commit W S Ev)) : List Ev :=
  commits.flatMap Commit.events

@[simp] theorem eventsOf_append (left right : List (Commit W S Ev)) :
    eventsOf (left ++ right) = eventsOf left ++ eventsOf right :=
  List.flatMap_append

theorem eventsOf_eq_nil_iff {commits : List (Commit W S Ev)} :
    eventsOf commits = [] ↔ ∀ commit ∈ commits, commit.events = [] :=
  List.flatMap_eq_nil_iff

theorem commitsTo_cons (streamId : String) (entry : Entry W S Ev)
    (log : List (Entry W S Ev)) :
    commitsTo streamId (entry :: log) =
      commitsTo streamId log ++ (entry.commitTo streamId).toList := by
  cases hcommit : entry.commitTo streamId <;> simp [commitsTo, hcommit]

variable [DecidableEq W]

/-- The successful appends to a stream since the last load or successful
append of the writer, oldest first: all of them are of other writers. -/
def commitsSince (writer : W) (streamId : String)
    (log : List (Entry W S Ev)) : List (Commit W S Ev) :=
  commitsTo streamId (log.takeWhile fun entry => entry.writer ≠ writer)

theorem commitsSince_cons_self {writer : W} {entry : Entry W S Ev}
    (hwriter : entry.writer = writer) (streamId : String)
    (log : List (Entry W S Ev)) :
    commitsSince writer streamId (entry :: log) = [] := by
  simp [commitsSince, hwriter, commitsTo]

theorem commitsSince_cons_of_ne {writer : W} {entry : Entry W S Ev}
    (hwriter : entry.writer ≠ writer) (streamId : String)
    (log : List (Entry W S Ev)) :
    commitsSince writer streamId (entry :: log) =
      commitsSince writer streamId log ++
        (entry.commitTo streamId).toList := by
  unfold commitsSince
  rw [List.takeWhile_cons_of_pos (by simpa using hwriter), commitsTo_cons]

/-! ## The steps -/

def State.initial : State W H S Ev := ⟨.new, fun _ => .idle, [], []⟩

def State.enter (state : State W H S Ev) (writer : W) (phase : Phase S Ev) :
    State W H S Ev :=
  { state with writers := Function.update state.writers writer phase }

/-- The state after the append of a writer whose aggregate is ready. -/
def State.append (state : State W H S Ev) (writer : W) (streamId : String)
    (aggregate : EventSourcedAggregate S Ev) : State W H S Ev :=
  match state.store.append streamId aggregate.getUncommittedEvents
      aggregate.expectedVersion with
  | .error _ => state
  | .ok (store, calls) =>
      { store := store
        writers := Function.update state.writers writer
          (.appended streamId aggregate)
        calls := state.calls ++ calls
        log := .committed ⟨writer, streamId, aggregate.getUncommittedEvents,
          aggregate.state, aggregate.version⟩ :: state.log }

def step [DecidableEq H] (apply : S → Ev → S) (initial : S)
    (state : State W H S Ev) : Label W H Ev → Option (State W H S Ev)
  | .subscribe handler =>
      some { state with store := state.store.subscribe handler }
  | .unsubscribe handler =>
      some { state with store := state.store.unsubscribe handler }
  | .getEvents writer streamId =>
      some { state with
        writers := Function.update state.writers writer
          (.loading streamId (state.store.getEvents streamId))
        log := .loaded writer :: state.log }
  | .loadFromHistory writer =>
      match state.writers writer with
      | .loading streamId history =>
          some (state.enter writer (.ready streamId
            ((EventSourcedAggregate.fresh initial).loadFromHistory apply
              history)))
      | _ => none
  | .raise writer event =>
      match state.writers writer with
      | .ready streamId aggregate =>
          some (state.enter writer
            (.ready streamId (aggregate.raise apply event)))
      | _ => none
  | .append writer =>
      match state.writers writer with
      | .ready streamId aggregate =>
          some (state.append writer streamId aggregate)
      | _ => none
  | .markCommitted writer =>
      match state.writers writer with
      | .appended streamId aggregate =>
          some (state.enter writer (.ready streamId aggregate.markCommitted))
      | _ => none

variable {apply : S → Ev → S} {initial : S} {state next : State W H S Ev}

/-! ## What a step does -/

theorem append_cases (state : State W H S Ev) (writer : W) (streamId : String)
    (aggregate : EventSourcedAggregate S Ev) :
    (∃ error, state.store.append streamId aggregate.getUncommittedEvents
        aggregate.expectedVersion = .error error ∧
      state.append writer streamId aggregate = state) ∨
    ∃ store calls, state.store.write streamId aggregate.getUncommittedEvents
        aggregate.expectedVersion = .ok store ∧
      state.append writer streamId aggregate =
        { store := store
          writers := Function.update state.writers writer
            (.appended streamId aggregate)
          calls := state.calls ++ calls
          log := .committed ⟨writer, streamId, aggregate.getUncommittedEvents,
            aggregate.state, aggregate.version⟩ :: state.log } := by
  unfold State.append InMemoryEventStore.append
  cases hwrite : state.store.write streamId aggregate.getUncommittedEvents
      aggregate.expectedVersion with
  | error error => exact .inl ⟨error, rfl, rfl⟩
  | ok store => exact .inr ⟨store, _, rfl, rfl⟩

theorem step_cases [DecidableEq H] {label : Label W H Ev}
    (hstep : step apply initial state label = some next) :
    (∃ store : InMemoryEventStore H Ev,
      (∀ streamId, store.content streamId = state.store.content streamId) ∧
      next = { state with store := store }) ∨
    (∃ writer streamId, next = { state with
      writers := Function.update state.writers writer
        (.loading streamId (state.store.getEvents streamId))
      log := .loaded writer :: state.log }) ∨
    (∃ writer streamId history,
      state.writers writer = .loading streamId history ∧
      next = state.enter writer (.ready streamId
        ((EventSourcedAggregate.fresh initial).loadFromHistory apply
          history))) ∨
    (∃ writer streamId aggregate event,
      state.writers writer = .ready streamId aggregate ∧
      next = state.enter writer
        (.ready streamId (aggregate.raise apply event))) ∨
    (∃ writer streamId aggregate,
      state.writers writer = .ready streamId aggregate ∧
      next = state.append writer streamId aggregate) ∨
    ∃ writer streamId aggregate,
      state.writers writer = .appended streamId aggregate ∧
      next = state.enter writer
        (.ready streamId aggregate.markCommitted) := by
  cases label with
  | subscribe handler =>
      simp only [step, Option.some.injEq] at hstep
      exact .inl ⟨state.store.subscribe handler, by simp, hstep.symm⟩
  | unsubscribe handler =>
      simp only [step, Option.some.injEq] at hstep
      exact .inl ⟨state.store.unsubscribe handler, by simp, hstep.symm⟩
  | getEvents writer streamId =>
      simp only [step, Option.some.injEq] at hstep
      exact .inr (.inl ⟨writer, streamId, hstep.symm⟩)
  | loadFromHistory writer =>
      simp only [step] at hstep
      split at hstep
      next streamId history hphase =>
        cases hstep
        exact .inr (.inr (.inl ⟨writer, streamId, history, hphase, rfl⟩))
      next => contradiction
  | raise writer event =>
      simp only [step] at hstep
      split at hstep
      next streamId aggregate hphase =>
        cases hstep
        exact .inr (.inr (.inr (.inl
          ⟨writer, streamId, aggregate, event, hphase, rfl⟩)))
      next => contradiction
  | append writer =>
      simp only [step] at hstep
      split at hstep
      next streamId aggregate hphase =>
        cases hstep
        exact .inr (.inr (.inr (.inr (.inl
          ⟨writer, streamId, aggregate, hphase, rfl⟩))))
      next => contradiction
  | markCommitted writer =>
      simp only [step] at hstep
      split at hstep
      next streamId aggregate hphase =>
        cases hstep
        exact .inr (.inr (.inr (.inr (.inr
          ⟨writer, streamId, aggregate, hphase, rfl⟩))))
      next => contradiction

/-! ## The invariant -/

/-- The writer's aggregate stands for the events `base` of the stream, with
the events raised since then on top. -/
inductive Phase.BuiltOn (apply : S → Ev → S) (initial : S) (streamId : String)
    (base : List Ev) : Phase S Ev → Prop
  | loading : BuiltOn apply initial streamId base (.loading streamId base)
  | ready {aggregate : EventSourcedAggregate S Ev}
      (hraised : aggregate.RaisedOn apply initial base) :
      BuiltOn apply initial streamId base (.ready streamId aggregate)
  | appended {aggregate : EventSourcedAggregate S Ev}
      (hraised : aggregate.markCommitted.RaisedOn apply initial base) :
      BuiltOn apply initial streamId base (.appended streamId aggregate)

/-- A stream holds the batches that were committed to it; what a writer has
not seen of it are the batches committed since its last load or successful
append; and the last of all was committed with the state and version that the
stream has. -/
structure Invariant (apply : S → Ev → S) (initial : S)
    (state : State W H S Ev) : Prop where
  content : ∀ streamId, state.store.content streamId =
    eventsOf (commitsTo streamId state.log)
  built : ∀ writer, state.writers writer ≠ .idle →
    ∃ streamId base,
      (state.writers writer).BuiltOn apply initial streamId base ∧
      state.store.content streamId =
        base ++ eventsOf (commitsSince writer streamId state.log)
  last : ∀ streamId commit,
    (commitsTo streamId state.log).getLast? = some commit →
      commit.state = (state.store.content streamId).foldl apply initial ∧
      commit.version = (state.store.content streamId).length

theorem invariant_initial :
    Invariant apply initial (State.initial : State W H S Ev) := by
  constructor
  · exact fun _ => rfl
  · intro writer hbusy
    exact absurd rfl hbusy
  · intro streamId commit hlast
    simp [State.initial, commitsTo] at hlast

/-- A writer's step on its own aggregate changes neither stream nor log. -/
theorem Invariant.enter (hinv : Invariant apply initial state) {writer : W}
    {phase : Phase S Ev} (hbusy : state.writers writer ≠ .idle)
    (hphase : ∀ streamId base,
      (state.writers writer).BuiltOn apply initial streamId base →
        phase.BuiltOn apply initial streamId base) :
    Invariant apply initial (state.enter writer phase) := by
  refine ⟨hinv.content, fun other hother => ?_, hinv.last⟩
  unfold State.enter at hother ⊢
  by_cases heq : other = writer
  · subst other
    obtain ⟨streamId, base, hbuilt, hcontent⟩ := hinv.built writer hbusy
    refine ⟨streamId, base, ?_, hcontent⟩
    simpa only [Function.update_self] using hphase streamId base hbuilt
  · simp only [Function.update_of_ne heq] at hother ⊢
    exact hinv.built other hother

/-- A load or a successful append of a writer, which leaves it with an
aggregate that stands for the whole stream. -/
theorem Invariant.log (hinv : Invariant apply initial state)
    {entry : Entry W S Ev} {writer : W} (hwriter : entry.writer = writer)
    {store : InMemoryEventStore H Ev} {phase : Phase S Ev}
    {calls : List (H × Ev)}
    (hcontent : ∀ streamId, store.content streamId =
      state.store.content streamId ++
        eventsOf (entry.commitTo streamId).toList)
    (hphase : ∃ streamId,
      phase.BuiltOn apply initial streamId (store.content streamId))
    (hlast : ∀ streamId commit, entry.commitTo streamId = some commit →
      commit.state = (store.content streamId).foldl apply initial ∧
      commit.version = (store.content streamId).length) :
    Invariant apply initial
      { store := store
        writers := Function.update state.writers writer phase
        calls := calls
        log := entry :: state.log } := by
  subst writer
  constructor
  · intro streamId
    rw [hcontent, commitsTo_cons, eventsOf_append, hinv.content]
  · intro writer hbusy
    by_cases hwriter : writer = entry.writer
    · subst writer
      obtain ⟨streamId, hbuilt⟩ := hphase
      refine ⟨streamId, store.content streamId, ?_, ?_⟩
      · simpa only [Function.update_self] using hbuilt
      · rw [commitsSince_cons_self rfl]
        exact (List.append_nil _).symm
    · simp only [Function.update_of_ne hwriter] at hbusy ⊢
      obtain ⟨streamId, base, hbuilt, hbase⟩ := hinv.built writer hbusy
      refine ⟨streamId, base, hbuilt, ?_⟩
      rw [commitsSince_cons_of_ne (Ne.symm hwriter), eventsOf_append,
        ← List.append_assoc, ← hbase, hcontent]
  · intro streamId commit hcommit
    rw [commitsTo_cons] at hcommit
    cases hentry : entry.commitTo streamId with
    | none =>
        rw [hentry, Option.toList_none, List.append_nil] at hcommit
        simp only [hcontent, hentry, Option.toList_none, eventsOf,
          List.flatMap_nil, List.append_nil]
        exact hinv.last streamId commit hcommit
    | some latest =>
        rw [hentry, Option.toList_some, List.getLast?_concat] at hcommit
        cases hcommit
        exact hlast streamId commit hentry

/-- A writer that is ready at a stream was loaded from, or has last appended
to, the events of the stream before those that others have committed since. -/
theorem Invariant.ready (hinv : Invariant apply initial state) {writer : W}
    {streamId : String} {aggregate : EventSourcedAggregate S Ev}
    (hready : state.writers writer = .ready streamId aggregate) :
    ∃ base, aggregate.RaisedOn apply initial base ∧
      state.store.content streamId =
        base ++ eventsOf (commitsSince writer streamId state.log) := by
  have hbusy : state.writers writer ≠ .idle := by simp [hready]
  obtain ⟨stream, base, hbuilt, hbase⟩ := hinv.built writer hbusy
  rw [hready] at hbuilt
  cases hbuilt with
  | ready hraised => exact ⟨base, hraised, hbase⟩

/-- The version check passes exactly when nothing has been added to the stream
since the writer's last load or successful append. -/
theorem Invariant.version_iff (hinv : Invariant apply initial state)
    {writer : W} {streamId : String} {aggregate : EventSourcedAggregate S Ev}
    (hready : state.writers writer = .ready streamId aggregate) :
    ((state.store.content streamId).length : ℤ) =
        aggregate.expectedVersion ↔
      eventsOf (commitsSince writer streamId state.log) = [] := by
  obtain ⟨base, hraised, hbase⟩ := hinv.ready hready
  rw [hraised.expectedVersion, hbase, List.length_append,
    ← List.length_eq_zero_iff]
  omega

theorem Invariant.getEvents (hinv : Invariant apply initial state)
    (writer : W) (streamId : String) :
    Invariant apply initial { state with
      writers := Function.update state.writers writer
        (.loading streamId (state.store.getEvents streamId))
      log := .loaded writer :: state.log } := by
  apply hinv.log
  · rfl
  · intro stream
    exact (List.append_nil _).symm
  · refine ⟨streamId, ?_⟩
    rw [InMemoryEventStore.getEvents_zero]
    exact .loading
  · intro stream commit hcommit
    cases hcommit

theorem Invariant.append (hinv : Invariant apply initial state) {writer : W}
    {streamId : String} {aggregate : EventSourcedAggregate S Ev}
    (hready : state.writers writer = .ready streamId aggregate) :
    Invariant apply initial (state.append writer streamId aggregate) := by
  rcases append_cases state writer streamId aggregate with
    ⟨error, -, hsame⟩ | ⟨store, calls, hwrite, hnext⟩
  · rw [hsame]
    exact hinv
  · rw [hnext]
    have hversion := (InMemoryEventStore.write_eq_ok_iff.mp hwrite).1
    have hnone := (hinv.version_iff hready).mp hversion
    obtain ⟨base, hraised, hbase⟩ := hinv.ready hready
    rw [hnone, List.append_nil] at hbase
    have hcontent := InMemoryEventStore.content_of_write hwrite
    have hstream : store.content streamId =
        base ++ aggregate.uncommittedEvents := by
      rw [hcontent, if_pos rfl, hbase]
      rfl
    apply hinv.log
    · rfl
    · intro stream
      rw [hcontent]
      by_cases hother : streamId = stream
      · subst stream
        simp [Entry.commitTo, eventsOf]
      · simp [Entry.commitTo, eventsOf, hother, Ne.symm hother]
    · refine ⟨streamId, ?_⟩
      rw [hstream]
      exact .appended hraised.markCommitted
    · intro stream commit hcommit
      by_cases hother : streamId = stream
      · subst stream
        simp only [Entry.commitTo, if_true, Option.some.injEq] at hcommit
        subst commit
        rw [hstream]
        exact ⟨hraised.state, by rw [hraised.version, List.length_append]⟩
      · simp [Entry.commitTo, hother] at hcommit

theorem Invariant.step [DecidableEq H] (hinv : Invariant apply initial state)
    {label : Label W H Ev}
    (hstep :
      OptimisticConcurrency.step apply initial state label = some next) :
    Invariant apply initial next := by
  rcases step_cases hstep with ⟨store, hsame, rfl⟩ | ⟨writer, streamId, rfl⟩ |
    ⟨writer, streamId, history, hphase, rfl⟩ |
    ⟨writer, streamId, aggregate, event, hphase, rfl⟩ |
    ⟨writer, streamId, aggregate, hphase, rfl⟩ |
    ⟨writer, streamId, aggregate, hphase, rfl⟩
  · constructor
    · intro streamId
      rw [hsame]
      exact hinv.content streamId
    · intro writer hbusy
      obtain ⟨streamId, base, hbuilt, hbase⟩ := hinv.built writer hbusy
      exact ⟨streamId, base, hbuilt, (hsame streamId).trans hbase⟩
    · intro streamId commit hcommit
      rw [hsame]
      exact hinv.last streamId commit hcommit
  · exact hinv.getEvents writer streamId
  · apply hinv.enter (by simp [hphase])
    intro stream base hbuilt
    rw [hphase] at hbuilt
    cases hbuilt with
    | loading => exact .ready (.load apply initial history)
  · apply hinv.enter (by simp [hphase])
    intro stream base hbuilt
    rw [hphase] at hbuilt
    cases hbuilt with
    | ready hraised => exact .ready (hraised.raise event)
  · exact hinv.append hphase
  · apply hinv.enter (by simp [hphase])
    intro stream base hbuilt
    rw [hphase] at hbuilt
    cases hbuilt with
    | appended hraised => exact .ready hraised

theorem invariant_of_exec [DecidableEq H] {labels : List (Label W H Ev)}
    (hrun : exec (step apply initial) State.initial labels = some state) :
    Invariant apply initial state :=
  exec_invariant (fun _ _ _ hinv hstep => hinv.step hstep)
    invariant_initial hrun

/-! ## What follows -/

/-- Commits are only ever added, at the end. -/
theorem commitsTo_prefix_of_step [DecidableEq H] {label : Label W H Ev}
    (hstep : step apply initial state label = some next)
    (streamId : String) :
    commitsTo streamId state.log <+: commitsTo streamId next.log := by
  rcases step_cases hstep with ⟨store, hsame, rfl⟩ | ⟨writer, stream, rfl⟩ |
    ⟨writer, stream, history, hphase, rfl⟩ |
    ⟨writer, stream, aggregate, event, hphase, rfl⟩ |
    ⟨writer, stream, aggregate, hphase, rfl⟩ |
    ⟨writer, stream, aggregate, hphase, rfl⟩
  · exact List.prefix_rfl
  · rw [commitsTo_cons]
    exact List.prefix_append _ _
  · exact List.prefix_rfl
  · exact List.prefix_rfl
  · rcases append_cases state writer stream aggregate with
      ⟨error, -, hsame⟩ | ⟨store, calls, hwrite, hnext⟩
    · simp only [hsame, List.prefix_rfl]
    · rw [hnext, commitsTo_cons]
      exact List.prefix_append _ _
  · exact List.prefix_rfl

theorem commitsTo_prefix_of_exec [DecidableEq H] {labels : List (Label W H Ev)}
    (hrun : exec (step apply initial) state labels = some next)
    (streamId : String) :
    commitsTo streamId state.log <+: commitsTo streamId next.log :=
  exec_invariant
    (I := fun later =>
      commitsTo streamId state.log <+: commitsTo streamId later.log)
    (fun _ _ _ hinitial hstep =>
      hinitial.trans (commitsTo_prefix_of_step hstep streamId))
    List.prefix_rfl hrun

/-- An append succeeds exactly when the others have committed no events to
the stream since the writer's last load or successful append. -/
theorem Invariant.append_succeeds_iff (hinv : Invariant apply initial state)
    {writer : W} {streamId : String} {aggregate : EventSourcedAggregate S Ev}
    (hready : state.writers writer = .ready streamId aggregate) :
    (∃ updated, state.store.append streamId aggregate.getUncommittedEvents
        aggregate.expectedVersion = .ok updated) ↔
      ∀ commit ∈ commitsSince writer streamId state.log,
        commit.events = [] := by
  rw [← eventsOf_eq_nil_iff, ← hinv.version_iff hready]
  unfold InMemoryEventStore.append InMemoryEventStore.write
  by_cases hversion : ((state.store.content streamId).length : ℤ) =
      aggregate.expectedVersion
  · simp [hversion, Except.map]
  · simp [hversion, Except.map]

/-- However the steps of the writers interleave: a stream holds the batches of
its successful appends one after another, and of these there only ever are
more; an append succeeds exactly when no other writer has committed an event
to the stream since this writer's load or last successful append; one that is
rejected changes nothing; and a fresh aggregate that is loaded from the stream
has the state and version that the aggregate of the last successful writer
had when it committed. -/
theorem optimistic_concurrency [DecidableEq H] {labels : List (Label W H Ev)}
    (hrun : exec (step apply initial) State.initial labels = some state) :
    (∀ streamId, state.store.getEvents streamId =
      eventsOf (commitsTo streamId state.log)) ∧
    (∀ before after earlier, labels = before ++ after →
      exec (step apply initial) State.initial before = some earlier →
        ∀ streamId,
          commitsTo streamId earlier.log <+: commitsTo streamId state.log ∧
          earlier.store.getEvents streamId <+:
            state.store.getEvents streamId) ∧
    (∀ writer streamId aggregate,
      state.writers writer = .ready streamId aggregate →
        ((∃ updated, state.store.append streamId
            aggregate.getUncommittedEvents aggregate.expectedVersion =
              .ok updated) ↔
          ∀ commit ∈ commitsSince writer streamId state.log,
            commit.events = []) ∧
        ∀ error, state.store.append streamId aggregate.getUncommittedEvents
            aggregate.expectedVersion = .error error →
          step apply initial state (.append writer) = some state) ∧
    ∀ streamId commit,
      (commitsTo streamId state.log).getLast? = some commit →
        ((EventSourcedAggregate.fresh initial).loadFromHistory apply
            (state.store.getEvents streamId)).state = commit.state ∧
        ((EventSourcedAggregate.fresh initial).loadFromHistory apply
            (state.store.getEvents streamId)).version = commit.version := by
  have hinv := invariant_of_exec hrun
  refine ⟨fun streamId => ?_, ?_, ?_, ?_⟩
  · rw [InMemoryEventStore.getEvents_zero]
    exact hinv.content streamId
  · intro before after earlier hsplit hbefore streamId
    have hearlier := invariant_of_exec hbefore
    rw [hsplit] at hrun
    obtain ⟨middle, hmiddle, hafter⟩ := exec_append_eq_some.mp hrun
    rw [hbefore, Option.some.injEq] at hmiddle
    subst middle
    have hmore := commitsTo_prefix_of_exec hafter streamId
    refine ⟨hmore, ?_⟩
    obtain ⟨rest, hrest⟩ := hmore
    rw [InMemoryEventStore.getEvents_zero, InMemoryEventStore.getEvents_zero,
      hearlier.content, hinv.content, ← hrest, eventsOf_append]
    exact List.prefix_append _ _
  · intro writer streamId aggregate hready
    refine ⟨hinv.append_succeeds_iff hready, fun error herror => ?_⟩
    simp only [step, hready, State.append, herror]
  · intro streamId commit hcommit
    obtain ⟨hstate, hversion⟩ := hinv.last streamId commit hcommit
    rw [InMemoryEventStore.getEvents_zero,
      EventSourcedAggregate.loadFromHistory_eq, hstate, hversion]
    exact ⟨rfl, Nat.zero_add _⟩

/-- Both writers load the empty stream; the second one commits first, so that
the first one is rejected and has to load again. -/
def twoWriters : List (Label ℕ ℕ ℕ) :=
  [.subscribe 9, .getEvents 0 "s", .loadFromHistory 0, .getEvents 1 "s",
    .loadFromHistory 1, .raise 0 5, .raise 1 7, .append 1, .append 0,
    .markCommitted 1, .getEvents 0 "s", .loadFromHistory 0, .raise 0 5,
    .append 0]

theorem optimistic_concurrency_twoWriters :
    ∃ state : State ℕ ℕ ℕ ℕ,
      exec (step (· + ·) 0) State.initial twoWriters = some state ∧
      state.store.getEvents "s" = [7, 5] ∧
      ((EventSourcedAggregate.fresh 0).loadFromHistory (· + ·)
        (state.store.getEvents "s")).version = 2 := by
  have hends : (exec (step (· + ·) 0) (State.initial : State ℕ ℕ ℕ ℕ)
      twoWriters).map (fun state => (state.store.getEvents "s",
        (commitsTo "s" state.log).getLast?)) =
      some ([7, 5], some ⟨0, "s", [5], 12, 2⟩) := by
    decide +kernel
  obtain ⟨state, hrun, hfacts⟩ := Option.map_eq_some_iff.mp hends
  simp only [Prod.mk.injEq] at hfacts
  obtain ⟨hevents, hlast⟩ := hfacts
  have hloaded := (optimistic_concurrency hrun).2.2.2 "s" _ hlast
  exact ⟨state, hrun, hevents, hloaded.2⟩

/-- The second writer commits an empty batch between the first one's load and
its append. -/
def emptyBatch : List (Label ℕ ℕ ℕ) :=
  [.getEvents 0 "s", .loadFromHistory 0, .raise 0 5, .getEvents 1 "s",
    .loadFromHistory 1, .append 1]

/-- An append also succeeds when another writer's batch was committed to the
stream in between, if that batch is empty. -/
theorem append_succeeds_after_emptyBatch :
    ∃ (state : State ℕ ℕ ℕ ℕ) (aggregate : EventSourcedAggregate ℕ ℕ),
      exec (step (· + ·) 0) State.initial emptyBatch = some state ∧
      state.writers 0 = .ready "s" aggregate ∧
      commitsSince 0 "s" state.log = [⟨1, "s", [], 0, 0⟩] ∧
      ∃ updated, state.store.append "s" aggregate.getUncommittedEvents
        aggregate.expectedVersion = .ok updated :=
  ⟨_, _, rfl, rfl, rfl, _, rfl⟩

end TsCommons.EventSourcing.OptimisticConcurrency
