import TsCommons.EventSourcing.OptimisticConcurrency

/-!
# Histories that follow the rules of the domain

An aggregate raises an event only after its command has looked at the state,
as an account looks at its balance before a withdrawal.  The state that it
looks at may be out of date, and the events of others may come in between.
As an append of such events is rejected, every stream is a history in which
each event was allowed in the state of all the events before it, as if the
writers had taken turns.
-/

namespace TsCommons.EventSourcing

variable {S Ev : Type*}

/-- Each event was allowed in the state that the events before it lead to. -/
def Legal (apply : S → Ev → S) (initial : S) (Allowed : S → Ev → Prop)
    (events : List Ev) : Prop :=
  ∀ before event after, events = before ++ event :: after →
    Allowed (before.foldl apply initial) event

section Legal

variable {apply : S → Ev → S} {initial : S} {Allowed : S → Ev → Prop}
  {events : List Ev}

theorem legal_nil : Legal apply initial Allowed [] := by
  intro before event after hsplit
  exact absurd hsplit (by simp)

theorem Legal.of_append {later : List Ev}
    (hlegal : Legal apply initial Allowed (events ++ later)) :
    Legal apply initial Allowed events := by
  intro before event after hsplit
  apply hlegal before event (after ++ later)
  rw [hsplit, List.append_assoc, List.cons_append]

theorem Legal.take (hlegal : Legal apply initial Allowed events) (n : ℕ) :
    Legal apply initial Allowed (events.take n) := by
  apply Legal.of_append
  rw [List.take_append_drop]
  exact hlegal

theorem Legal.concat (hlegal : Legal apply initial Allowed events)
    {event : Ev} (hallowed : Allowed (events.foldl apply initial) event) :
    Legal apply initial Allowed (events ++ [event]) := by
  intro before next after hsplit
  rcases List.eq_nil_or_concat after with rfl | ⟨between, last, rfl⟩
  · obtain ⟨rfl, heq⟩ := List.append_inj' hsplit rfl
    cases heq
    exact hallowed
  · have hsplit' : events ++ [event] =
        (before ++ next :: between) ++ [last] := by
      rw [hsplit, List.concat_eq_append, List.append_assoc, List.cons_append]
    obtain ⟨hevents, -⟩ := List.append_inj' hsplit' rfl
    exact hlegal before next between hevents

/-- What the allowed events preserve holds after each event of the history. -/
theorem Legal.invariant {Good : S → Prop} (hinitial : Good initial)
    (happly : ∀ state event, Good state → Allowed state event →
      Good (apply state event))
    (hlegal : Legal apply initial Allowed events) :
    ∀ before, before <+: events → Good (before.foldl apply initial) := by
  intro before hbefore
  induction before using List.reverseRecOn with
  | nil => exact hinitial
  | append_singleton before event ih =>
      obtain ⟨after, hafter⟩ := hbefore
      rw [List.append_assoc, List.singleton_append] at hafter
      rw [List.foldl_concat]
      exact happly _ _ (ih ⟨_, hafter⟩)
        (hlegal before event after hafter.symm)

end Legal

namespace OptimisticConcurrency

open Foundations

variable {W H : Type*} [DecidableEq W] {apply : S → Ev → S} {initial : S}
  {Allowed : S → Ev → Prop} {state next : State W H S Ev}

/-- Only an aggregate that is ready raises events. -/
def Phase.Allows (Allowed : S → Ev → Prop) (event : Ev) : Phase S Ev → Prop
  | .ready _ aggregate => Allowed aggregate.state event
  | .idle | .loading _ _ | .appended _ _ => True

instance Phase.Allows.decidable (Allowed : S → Ev → Prop)
    [DecidableRel Allowed] (event : Ev) :
    (phase : Phase S Ev) → Decidable (phase.Allows Allowed event)
  | .ready _ aggregate =>
      inferInstanceAs (Decidable (Allowed aggregate.state event))
  | .idle | .loading _ _ | .appended _ _ => .isTrue trivial

/-- An event is raised only if the state of the aggregate allows it. -/
def Guarded (Allowed : S → Ev → Prop) (state : State W H S Ev) :
    Label W H Ev → Prop
  | .raise writer event => (state.writers writer).Allows Allowed event
  | .subscribe _ | .unsubscribe _ | .getEvents _ _ | .loadFromHistory _
  | .append _ | .markCommitted _ => True

instance Guarded.decidable (Allowed : S → Ev → Prop) [DecidableRel Allowed]
    (state : State W H S Ev) :
    (label : Label W H Ev) → Decidable (Guarded Allowed state label)
  | .raise writer event =>
      inferInstanceAs (Decidable ((state.writers writer).Allows Allowed event))
  | .subscribe _ | .unsubscribe _ | .getEvents _ _ | .loadFromHistory _
  | .append _ | .markCommitted _ => .isTrue trivial

/-- The stream that is stored, and the one that a writer would have if its
append succeeded. -/
structure LegalInvariant (apply : S → Ev → S) (initial : S)
    (Allowed : S → Ev → Prop) (state : State W H S Ev) : Prop
    extends Invariant apply initial state where
  stored : ∀ streamId,
    Legal apply initial Allowed (state.store.content streamId)
  raised : ∀ writer streamId aggregate,
    state.writers writer = .ready streamId aggregate →
      Legal apply initial Allowed
        ((state.store.content streamId).take
          aggregate.expectedVersion.toNat ++ aggregate.uncommittedEvents)

theorem legalInvariant_initial :
    LegalInvariant apply initial Allowed
      (State.initial : State W H S Ev) where
  toInvariant := invariant_initial
  stored _ := legal_nil
  raised _ _ _ hready := nomatch hready

/-- What a writer has loaded is the beginning of the stream. -/
theorem Invariant.loaded (hinv : Invariant apply initial state) {writer : W}
    {streamId : String} {aggregate : EventSourcedAggregate S Ev}
    (hready : state.writers writer = .ready streamId aggregate) :
    aggregate.expectedVersion.toNat ≤
        (state.store.content streamId).length ∧
      aggregate.state = ((state.store.content streamId).take
        aggregate.expectedVersion.toNat ++
          aggregate.uncommittedEvents).foldl apply initial := by
  obtain ⟨base, hraised, hbase⟩ := hinv.ready hready
  rw [hraised.expectedVersion, Int.toNat_natCast, hbase, List.take_left]
  exact ⟨by simp, hraised.state⟩

/-- The phase of a writer alone does not touch the streams. -/
theorem LegalInvariant.enter
    (hinv : LegalInvariant apply initial Allowed state) {writer : W}
    {phase : Phase S Ev}
    (hnext : Invariant apply initial (state.enter writer phase))
    (hphase : ∀ streamId aggregate, phase = .ready streamId aggregate →
      Legal apply initial Allowed
        ((state.store.content streamId).take
          aggregate.expectedVersion.toNat ++ aggregate.uncommittedEvents)) :
    LegalInvariant apply initial Allowed (state.enter writer phase) := by
  refine ⟨hnext, hinv.stored, ?_⟩
  intro other streamId aggregate hready
  unfold State.enter at hready
  dsimp only at hready
  by_cases hother : other = writer
  · subst hother
    rw [Function.update_self] at hready
    exact hphase streamId aggregate hready
  · rw [Function.update_of_ne hother] at hready
    exact hinv.raised other streamId aggregate hready

theorem LegalInvariant.raise
    (hinv : LegalInvariant apply initial Allowed state) {writer : W}
    {streamId : String} {aggregate : EventSourcedAggregate S Ev} {event : Ev}
    (hready : state.writers writer = .ready streamId aggregate)
    (hallowed : Allowed aggregate.state event) :
    Legal apply initial Allowed
      ((state.store.content streamId).take
        (aggregate.raise apply event).expectedVersion.toNat ++
          (aggregate.raise apply event).uncommittedEvents) := by
  have hversion : (aggregate.raise apply event).expectedVersion =
      aggregate.expectedVersion := by
    unfold EventSourcedAggregate.expectedVersion EventSourcedAggregate.raise
    simp only [List.length_append, List.length_singleton]
    omega
  rw [hversion, EventSourcedAggregate.raise, ← List.append_assoc]
  apply (hinv.raised writer streamId aggregate hready).concat
  rw [← (hinv.loaded hready).2]
  exact hallowed

/-- An append that is accepted finds the stream as it was loaded. -/
theorem LegalInvariant.write
    (hinv : LegalInvariant apply initial Allowed state) {writer : W}
    {streamId : String} {aggregate : EventSourcedAggregate S Ev}
    (hready : state.writers writer = .ready streamId aggregate)
    {store : InMemoryEventStore H Ev}
    (hwrite : state.store.write streamId aggregate.uncommittedEvents
      aggregate.expectedVersion = .ok store) (other : String) :
    Legal apply initial Allowed (store.content other) := by
  rw [InMemoryEventStore.content_of_write hwrite]
  by_cases hother : other = streamId
  · have hversion := (InMemoryEventStore.write_eq_ok_iff.mp hwrite).1
    have hraised := hinv.raised writer streamId aggregate hready
    rw [← hversion, Int.toNat_natCast, List.take_length] at hraised
    rw [if_pos hother]
    exact hraised
  · rw [if_neg hother]
    exact hinv.stored other

theorem LegalInvariant.append
    (hinv : LegalInvariant apply initial Allowed state) {writer : W}
    {streamId : String} {aggregate : EventSourcedAggregate S Ev}
    (hready : state.writers writer = .ready streamId aggregate) :
    LegalInvariant apply initial Allowed
      (state.append writer streamId aggregate) := by
  have hnext := hinv.toInvariant.append hready
  rcases append_cases state writer streamId aggregate with
    ⟨error, -, hsame⟩ | ⟨store, calls, hwrite, heq⟩
  · rw [hsame]
    exact hinv
  · rw [heq] at hnext ⊢
    refine ⟨hnext, hinv.write hready hwrite, ?_⟩
    intro other stream loaded hother
    dsimp only at hother ⊢
    by_cases hself : other = writer
    · subst hself
      rw [Function.update_self] at hother
      cases hother
    · rw [Function.update_of_ne hself] at hother
      rw [InMemoryEventStore.take_content_of_write hwrite
        (hinv.loaded hother).1]
      exact hinv.raised other stream loaded hother

variable [DecidableEq H] {label : Label W H Ev}

theorem LegalInvariant.step
    (hinv : LegalInvariant apply initial Allowed state)
    (hguarded : Guarded Allowed state label)
    (hstep :
      OptimisticConcurrency.step apply initial state label = some next) :
    LegalInvariant apply initial Allowed next := by
  have hnext := hinv.toInvariant.step hstep
  cases label with
  | subscribe handler =>
      cases hstep
      exact ⟨hnext, hinv.stored, hinv.raised⟩
  | unsubscribe handler =>
      cases hstep
      refine ⟨hnext, fun streamId => ?_,
        fun writer streamId aggregate hready => ?_⟩
      · rw [InMemoryEventStore.content_unsubscribe]
        exact hinv.stored streamId
      · rw [InMemoryEventStore.content_unsubscribe]
        exact hinv.raised writer streamId aggregate hready
  | getEvents writer streamId =>
      cases hstep
      refine ⟨hnext, hinv.stored, ?_⟩
      intro other stream aggregate hready
      dsimp only at hready
      by_cases hother : other = writer
      · subst hother
        rw [Function.update_self] at hready
        cases hready
      · rw [Function.update_of_ne hother] at hready
        exact hinv.raised other stream aggregate hready
  | loadFromHistory writer =>
      simp only [OptimisticConcurrency.step] at hstep
      split at hstep
      next streamId history _ =>
        cases hstep
        apply hinv.enter hnext
        intro stream aggregate heq
        cases heq
        rw [EventSourcedAggregate.loadFromHistory_eq,
          EventSourcedAggregate.fresh, List.append_nil]
        exact (hinv.stored streamId).take _
      next => cases hstep
  | raise writer event =>
      simp only [OptimisticConcurrency.step] at hstep
      split at hstep
      next streamId aggregate hready =>
        cases hstep
        apply hinv.enter hnext
        intro stream raised heq
        cases heq
        rw [Guarded, hready] at hguarded
        exact hinv.raise hready hguarded
      next => cases hstep
  | append writer =>
      simp only [OptimisticConcurrency.step] at hstep
      split at hstep
      next hready =>
        cases hstep
        exact hinv.append hready
      next => cases hstep
  | markCommitted writer =>
      simp only [OptimisticConcurrency.step] at hstep
      split at hstep
      next streamId aggregate _ =>
        cases hstep
        apply hinv.enter hnext
        intro stream committed heq
        cases heq
        rw [EventSourcedAggregate.markCommitted, List.append_nil]
        exact (hinv.stored streamId).take _
      next => cases hstep

/-- However the writers interleave: if each event is raised in a state that
allows it, every stream is a legal history, and what the allowed events
preserve holds of every beginning of every stream and of every aggregate that
has been loaded from one. -/
theorem legal_run {Good : S → Prop} (hinitial : Good initial)
    (happly : ∀ state event, Good state → Allowed state event →
      Good (apply state event))
    {labels : List (Label W H Ev)}
    (hguarded : StepsMeet (OptimisticConcurrency.step apply initial)
      (Guarded Allowed) State.initial labels)
    (hrun : exec (OptimisticConcurrency.step apply initial) State.initial
      labels = some state) :
    (∀ streamId,
      Legal apply initial Allowed (state.store.getEvents streamId) ∧
      ∀ before, before <+: state.store.getEvents streamId →
        Good (before.foldl apply initial)) ∧
    ∀ writer streamId aggregate,
      state.writers writer = .ready streamId aggregate →
        Good aggregate.state := by
  have hinv : LegalInvariant apply initial Allowed state :=
    exec_invariant_of_stepsMeet
      (fun _ _ _ hinv hmeets hstep => hinv.step hmeets hstep)
      legalInvariant_initial hguarded hrun
  constructor
  · intro streamId
    rw [InMemoryEventStore.getEvents_zero]
    exact ⟨hinv.stored streamId,
      (hinv.stored streamId).invariant hinitial happly⟩
  · intro writer streamId aggregate hready
    rw [(hinv.loaded hready).2]
    exact (hinv.raised writer streamId aggregate hready).invariant hinitial
      happly _ List.prefix_rfl

/-- Two withdrawals of 80 from an account of 100 at the same time.  The second
writer has to load again, after which it withdraws 10 only. -/
def twoWithdrawals : List (Label ℕ ℕ ℤ) :=
  [.getEvents 0 "account", .loadFromHistory 0, .raise 0 100, .append 0,
    .markCommitted 0, .getEvents 1 "account", .loadFromHistory 1,
    .raise 0 (-80), .raise 1 (-80), .append 0, .append 1,
    .getEvents 1 "account", .loadFromHistory 1, .raise 1 (-10), .append 1]

theorem legal_run_twoWithdrawals :
    ∃ state : State ℕ ℕ ℤ ℤ,
      exec (OptimisticConcurrency.step (· + ·) 0) State.initial
        twoWithdrawals = some state ∧
      state.store.getEvents "account" = [100, -80, -10] ∧
      ∀ before, before <+: state.store.getEvents "account" →
        0 ≤ before.foldl (· + ·) 0 := by
  have hrun : exec (OptimisticConcurrency.step (· + ·) 0)
    (State.initial : State ℕ ℕ ℤ ℤ) twoWithdrawals = some _ := rfl
  have hguarded : StepsMeet (OptimisticConcurrency.step (· + ·) 0)
      (Guarded fun balance event : ℤ => 0 ≤ balance + event)
      (State.initial : State ℕ ℕ ℤ ℤ) twoWithdrawals := by
    decide
  have hinitial : (0 : ℤ) ≤ 0 := Int.le_refl 0
  have hgood := legal_run hinitial (fun _ _ _ hallowed => hallowed) hguarded
    hrun
  exact ⟨_, hrun, rfl, (hgood.1 _).2⟩

end OptimisticConcurrency

end TsCommons.EventSourcing
