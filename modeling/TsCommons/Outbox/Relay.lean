import TsCommons.Foundations.Execution
import TsCommons.Outbox.Store
import Mathlib.Logic.Function.Basic

/-!
# The outbox relay

The system of interleaved `runOnce` cycles of one relay.  The timer of `start`
may launch a cycle while others are still running, and every cycle works on
the snapshot of the unpublished messages that it took at its beginning.  A
cycle awaits the publisher and the store; between two awaits it handles at
most one message, at the time of the clock.
-/

namespace TsCommons.Outbox

open Foundations

structure OutboxRelayOptions where
  batchSize : ℕ := 100
  maxAttempts : ℕ := 5
  backoffBaseMs : ℚ := 1000

structure OutboxRelayMetrics where
  published : ℕ := 0
  failed : ℕ := 0
  skipped : ℕ := 0
deriving DecidableEq

/-- Which of the three ways a cycle has marked a message. -/
inductive Marking
  | published
  | failed
  | skipped
deriving DecidableEq

namespace OutboxRelayMetrics

def recordPublished (metrics : OutboxRelayMetrics) : OutboxRelayMetrics :=
  { metrics with published := metrics.published + 1 }

def recordFailed (metrics : OutboxRelayMetrics) : OutboxRelayMetrics :=
  { metrics with failed := metrics.failed + 1 }

def recordSkipped (metrics : OutboxRelayMetrics) : OutboxRelayMetrics :=
  { metrics with skipped := metrics.skipped + 1 }

def record (metrics : OutboxRelayMetrics) : Marking → OutboxRelayMetrics
  | .published => metrics.recordPublished
  | .failed => metrics.recordFailed
  | .skipped => metrics.recordSkipped

end OutboxRelayMetrics

/-- Where a cycle stands: before its next message, waiting for the publisher,
answered by the publisher, or with a message marked in the store and not yet
recorded.  `rest` is what it has still to handle of its snapshot. -/
inductive CycleProgress (Ev : Type)
  | notStarted
  | looping (rest : List (OutboxMessage Ev)) (hadFailures : Bool)
  | publishing (message : OutboxMessage Ev) (rest : List (OutboxMessage Ev))
      (hadFailures : Bool)
  | answered (message : OutboxMessage Ev) (outcome : Except String Unit)
      (rest : List (OutboxMessage Ev)) (hadFailures : Bool)
  | marked (marking : Marking) (rest : List (OutboxMessage Ev))
      (hadFailures : Bool)
  | finished
deriving DecidableEq

inductive Label (Ev : Type)
  | tick (now : ℚ)
  | save (message : OutboxMessage Ev)
  | runOnce (cycle : ℕ)
  | publishSettles (cycle : ℕ) (outcome : Except String Unit)
  | resume (cycle : ℕ)

/-- What the publisher is asked and answers, by the id of the message. -/
inductive Event
  | handed (id : String) (time : ℚ)
  | succeeded (id : String)
  | failed (id : String)
deriving DecidableEq

def Event.id : Event → String
  | .handed id _ => id
  | .succeeded id => id
  | .failed id => id

/-- `finishedCycles` and `log`, newest first, are history. -/
structure State (Ev : Type) where
  clock : ℚ
  store : InMemoryOutboxStore Ev
  cycles : ℕ → CycleProgress Ev
  metrics : Option OutboxRelayMetrics
  lastRunHadFailures : Bool
  finishedCycles : ℕ
  log : List Event

variable {Ev : Type}

namespace State

def initial (now : ℚ) (store : InMemoryOutboxStore Ev)
    (metrics : Option OutboxRelayMetrics) : State Ev where
  clock := now
  store := store
  cycles := fun _ => .notStarted
  metrics := metrics
  lastRunHadFailures := false
  finishedCycles := 0
  log := []

def advance (state : State Ev) (cycle : ℕ) (progress : CycleProgress Ev) :
    State Ev :=
  { state with cycles := Function.update state.cycles cycle progress }

def isHealthy (state : State Ev) : Bool := !state.lastRunHadFailures

end State

namespace OutboxRelayOptions

def backoffMs (options : OutboxRelayOptions) (attempts : ℕ) : ℚ :=
  options.backoffBaseMs * 2 ^ (attempts - 1)

/-- The message is not yet eligible for a retry. -/
def BacksOff (options : OutboxRelayOptions) (message : OutboxMessage Ev)
    (now : ℚ) : Prop :=
  0 < message.attempts ∧
    ∃ last ∈ message.lastAttemptAt,
      now < last + options.backoffMs message.attempts

instance (options : OutboxRelayOptions) (message : OutboxMessage Ev)
    (now : ℚ) : Decidable (options.BacksOff message now) :=
  inferInstanceAs (Decidable (_ ∧ ∃ _ ∈ _, _))

/-- The body of the loop, up to its first `await`. -/
def handle (options : OutboxRelayOptions) (state : State Ev) (cycle : ℕ)
    (message : OutboxMessage Ev) (rest : List (OutboxMessage Ev))
    (hadFailures : Bool) : State Ev :=
  if options.maxAttempts ≤ message.attempts then
    { state.advance cycle (.marked .skipped rest hadFailures) with
      store := state.store.markAsFailed message.id "max attempts exceeded"
        state.clock }
  else if options.BacksOff message state.clock then
    state.advance cycle (.looping rest hadFailures)
  else
    { state.advance cycle (.publishing message rest hadFailures) with
      log := .handed message.id state.clock :: state.log }

/-- The cycle runs on to its next `await`, or to its next message. -/
def resume (options : OutboxRelayOptions) (state : State Ev) (cycle : ℕ) :
    Option (State Ev) :=
  match state.cycles cycle with
  | .looping [] hadFailures =>
      some { state.advance cycle .finished with
        lastRunHadFailures := hadFailures
        finishedCycles := state.finishedCycles + 1 }
  | .looping (message :: rest) hadFailures =>
      some (options.handle state cycle message rest hadFailures)
  | .answered message (.ok ()) rest hadFailures =>
      some { state.advance cycle (.marked .published rest hadFailures) with
        store := state.store.markAsPublished message.id state.clock }
  | .answered message (.error error) rest hadFailures =>
      some { state.advance cycle (.marked .failed rest hadFailures) with
        store := state.store.markAsFailed message.id error state.clock }
  | .marked marking rest hadFailures =>
      some { state.advance cycle
          (.looping rest (hadFailures || marking = .failed)) with
        metrics := state.metrics.map fun metrics => metrics.record marking }
  | _ => none

def step (options : OutboxRelayOptions) (state : State Ev) :
    Label Ev → Option (State Ev)
  | .tick now =>
      if state.clock ≤ now then some { state with clock := now } else none
  | .save message => some { state with store := state.store.save message }
  | .runOnce cycle =>
      match state.cycles cycle with
      | .notStarted =>
          some (state.advance cycle
            (.looping (state.store.getUnpublished options.batchSize) false))
      | _ => none
  | .publishSettles cycle outcome =>
      match state.cycles cycle with
      | .publishing message rest hadFailures =>
          some { state.advance cycle
              (.answered message outcome rest hadFailures) with
            log := (match outcome with
              | .ok () => .succeeded message.id
              | .error _ => .failed message.id) :: state.log }
      | _ => none
  | .resume cycle => options.resume state cycle

end OutboxRelayOptions

/-! ## What a step does -/

inductive Step (options : OutboxRelayOptions) (state : State Ev) :
    Label Ev → State Ev → Prop
  | tick (now : ℚ) (hclock : state.clock ≤ now) :
      Step options state (.tick now) { state with clock := now }
  | save (message : OutboxMessage Ev) :
      Step options state (.save message)
        { state with store := state.store.save message }
  | runOnce (cycle : ℕ) (hcycle : state.cycles cycle = .notStarted) :
      Step options state (.runOnce cycle)
        (state.advance cycle
          (.looping (state.store.getUnpublished options.batchSize) false))
  | deadLetter (cycle : ℕ) (message : OutboxMessage Ev)
      (rest : List (OutboxMessage Ev)) (hadFailures : Bool)
      (hcycle : state.cycles cycle = .looping (message :: rest) hadFailures)
      (hattempts : options.maxAttempts ≤ message.attempts) :
      Step options state (.resume cycle)
        { state.advance cycle (.marked .skipped rest hadFailures) with
          store := state.store.markAsFailed message.id
            "max attempts exceeded" state.clock }
  | backOff (cycle : ℕ) (message : OutboxMessage Ev)
      (rest : List (OutboxMessage Ev)) (hadFailures : Bool)
      (hcycle : state.cycles cycle = .looping (message :: rest) hadFailures)
      (hattempts : message.attempts < options.maxAttempts)
      (hbacksOff : options.BacksOff message state.clock) :
      Step options state (.resume cycle)
        (state.advance cycle (.looping rest hadFailures))
  | handOver (cycle : ℕ) (message : OutboxMessage Ev)
      (rest : List (OutboxMessage Ev)) (hadFailures : Bool)
      (hcycle : state.cycles cycle = .looping (message :: rest) hadFailures)
      (hattempts : message.attempts < options.maxAttempts)
      (hbacksOff : ¬ options.BacksOff message state.clock) :
      Step options state (.resume cycle)
        { state.advance cycle (.publishing message rest hadFailures) with
          log := .handed message.id state.clock :: state.log }
  | succeed (cycle : ℕ) (message : OutboxMessage Ev)
      (rest : List (OutboxMessage Ev)) (hadFailures : Bool)
      (hcycle : state.cycles cycle = .publishing message rest hadFailures) :
      Step options state (.publishSettles cycle (.ok ()))
        { state.advance cycle (.answered message (.ok ()) rest hadFailures)
          with log := .succeeded message.id :: state.log }
  | fail (cycle : ℕ) (error : String) (message : OutboxMessage Ev)
      (rest : List (OutboxMessage Ev)) (hadFailures : Bool)
      (hcycle : state.cycles cycle = .publishing message rest hadFailures) :
      Step options state (.publishSettles cycle (.error error))
        { state.advance cycle
            (.answered message (.error error) rest hadFailures) with
          log := .failed message.id :: state.log }
  | markPublished (cycle : ℕ) (message : OutboxMessage Ev)
      (rest : List (OutboxMessage Ev)) (hadFailures : Bool)
      (hcycle : state.cycles cycle =
        .answered message (.ok ()) rest hadFailures) :
      Step options state (.resume cycle)
        { state.advance cycle (.marked .published rest hadFailures) with
          store := state.store.markAsPublished message.id state.clock }
  | markFailed (cycle : ℕ) (error : String) (message : OutboxMessage Ev)
      (rest : List (OutboxMessage Ev)) (hadFailures : Bool)
      (hcycle : state.cycles cycle =
        .answered message (.error error) rest hadFailures) :
      Step options state (.resume cycle)
        { state.advance cycle (.marked .failed rest hadFailures) with
          store := state.store.markAsFailed message.id error state.clock }
  | record (cycle : ℕ) (marking : Marking)
      (rest : List (OutboxMessage Ev)) (hadFailures : Bool)
      (hcycle : state.cycles cycle = .marked marking rest hadFailures) :
      Step options state (.resume cycle)
        { state.advance cycle
            (.looping rest (hadFailures || marking = .failed)) with
          metrics := state.metrics.map fun metrics => metrics.record marking }
  | finish (cycle : ℕ) (hadFailures : Bool)
      (hcycle : state.cycles cycle = .looping [] hadFailures) :
      Step options state (.resume cycle)
        { state.advance cycle .finished with
          lastRunHadFailures := hadFailures
          finishedCycles := state.finishedCycles + 1 }

variable {options : OutboxRelayOptions} {state next : State Ev}
  {label : Label Ev} {cycle : ℕ}

theorem step_resume_of_eq_some
    (hstep : options.resume state cycle = some next) :
    Step options state (.resume cycle) next := by
  unfold OutboxRelayOptions.resume at hstep
  split at hstep
  next hadFailures hcycle =>
    cases hstep
    exact .finish cycle hadFailures hcycle
  next message rest hadFailures hcycle =>
    cases hstep
    unfold OutboxRelayOptions.handle
    split_ifs with hattempts hbacksOff
    · exact .deadLetter cycle message rest hadFailures hcycle hattempts
    · exact .backOff cycle message rest hadFailures hcycle
        (Nat.lt_of_not_le hattempts) hbacksOff
    · exact .handOver cycle message rest hadFailures hcycle
        (Nat.lt_of_not_le hattempts) hbacksOff
  next message rest hadFailures hcycle =>
    cases hstep
    exact .markPublished cycle message rest hadFailures hcycle
  next message error rest hadFailures hcycle =>
    cases hstep
    exact .markFailed cycle error message rest hadFailures hcycle
  next marking rest hadFailures hcycle =>
    cases hstep
    exact .record cycle marking rest hadFailures hcycle
  next => contradiction

theorem step_of_eq_some (hstep : options.step state label = some next) :
    Step options state label next := by
  cases label with
  | tick now =>
      rw [OutboxRelayOptions.step, Option.ite_none_right_eq_some,
        Option.some.injEq] at hstep
      obtain ⟨hclock, rfl⟩ := hstep
      exact .tick now hclock
  | save message =>
      cases hstep
      exact .save message
  | runOnce cycle =>
      cases hcycle : state.cycles cycle <;>
        simp only [OutboxRelayOptions.step, hcycle, Option.some.injEq,
          reduceCtorEq] at hstep
      subst next
      exact .runOnce cycle hcycle
  | publishSettles cycle outcome =>
      cases hcycle : state.cycles cycle <;>
        simp only [OutboxRelayOptions.step, hcycle, Option.some.injEq,
          reduceCtorEq] at hstep
      subst next
      cases outcome with
      | ok _ => exact .succeed cycle _ _ _ hcycle
      | error error => exact .fail cycle error _ _ _ hcycle
  | resume cycle => exact step_resume_of_eq_some hstep

/-- The log grows by what is handed over and by what the publisher answers. -/
theorem Step.log_cases (hstep : Step options state label next) :
    next.log = state.log ∨
    (∃ cycle message rest hadFailures,
      state.cycles cycle = .looping (message :: rest) hadFailures ∧
      next.log = .handed message.id state.clock :: state.log) ∨
    ∃ cycle message rest hadFailures outcome,
      state.cycles cycle = .publishing message rest hadFailures ∧
      next.cycles cycle = .answered message outcome rest hadFailures ∧
      next.log = (match outcome with
        | .ok () => .succeeded message.id
        | .error _ => .failed message.id) :: state.log := by
  cases hstep with
  | handOver cycle message rest hadFailures hcycle hattempts hbacksOff =>
      exact .inr (.inl ⟨cycle, message, rest, hadFailures, hcycle, rfl⟩)
  | succeed cycle message rest hadFailures hcycle =>
      exact .inr (.inr ⟨cycle, message, rest, hadFailures, .ok (), hcycle,
        Function.update_self .., rfl⟩)
  | fail cycle error message rest hadFailures hcycle =>
      exact .inr (.inr ⟨cycle, message, rest, hadFailures, .error error,
        hcycle, Function.update_self .., rfl⟩)
  | _ => exact .inl rfl

/-! ## The messages that a cycle holds -/

namespace CycleProgress

/-- The messages that the cycle has still to look at. -/
def pending : CycleProgress Ev → List (OutboxMessage Ev)
  | .looping rest _ => rest
  | .publishing _ rest _ => rest
  | .answered _ _ rest _ => rest
  | .marked _ rest _ => rest
  | _ => []

/-- Those, and the message that it has handed to the publisher and not yet
marked. -/
def held : CycleProgress Ev → List (OutboxMessage Ev)
  | .looping rest _ => rest
  | .publishing message rest _ => message :: rest
  | .answered message _ rest _ => message :: rest
  | .marked _ rest _ => rest
  | _ => []

def Running : CycleProgress Ev → Prop
  | .notStarted => False
  | .finished => False
  | _ => True

instance : DecidablePred (Running : CycleProgress Ev → Prop)
  | .notStarted => isFalse id
  | .finished => isFalse id
  | .looping _ _ => isTrue trivial
  | .publishing _ _ _ => isTrue trivial
  | .answered _ _ _ _ => isTrue trivial
  | .marked _ _ _ => isTrue trivial

theorem pending_sublist_held (progress : CycleProgress Ev) :
    progress.pending.Sublist progress.held := by
  cases progress <;> simp [pending, held]

theorem running_of_mem_held {progress : CycleProgress Ev}
    {message : OutboxMessage Ev} (hheld : message ∈ progress.held) :
    progress.Running := by
  cases progress <;> simp_all [held, Running]

end CycleProgress

/-- A step of one cycle that takes up no new messages. -/
theorem held_update {progress : CycleProgress Ev}
    (hpending : progress.pending.Sublist (state.cycles cycle).pending)
    (hheld : progress.held.Sublist (state.cycles cycle).held) (other : ℕ) :
    (Function.update state.cycles cycle progress other).pending.Sublist
        (state.cycles other).pending ∧
      (Function.update state.cycles cycle progress other).held.Sublist
        (state.cycles other).held := by
  by_cases heq : other = cycle
  · subst other
    rw [Function.update_self]
    exact ⟨hpending, hheld⟩
  · rw [Function.update_of_ne heq]
    exact ⟨List.Sublist.refl _, List.Sublist.refl _⟩

/-- Only the beginning of a cycle takes up messages. -/
theorem Step.held (hstep : Step options state label next)
    (hlabel : ∀ cycle, label ≠ .runOnce cycle) (other : ℕ) :
    (next.cycles other).pending.Sublist (state.cycles other).pending ∧
      (next.cycles other).held.Sublist (state.cycles other).held := by
  cases hstep with
  | tick now hclock => exact ⟨List.Sublist.refl _, List.Sublist.refl _⟩
  | save message => exact ⟨List.Sublist.refl _, List.Sublist.refl _⟩
  | runOnce cycle hcycle => exact absurd rfl (hlabel cycle)
  | deadLetter cycle message rest hadFailures hcycle hattempts =>
      refine held_update ?_ ?_ other <;>
        simp [hcycle, CycleProgress.pending, CycleProgress.held]
  | backOff cycle message rest hadFailures hcycle hattempts hbacksOff =>
      refine held_update ?_ ?_ other <;>
        simp [hcycle, CycleProgress.pending, CycleProgress.held]
  | handOver cycle message rest hadFailures hcycle hattempts hbacksOff =>
      refine held_update ?_ ?_ other <;>
        simp [hcycle, CycleProgress.pending, CycleProgress.held]
  | succeed cycle message rest hadFailures hcycle =>
      refine held_update ?_ ?_ other <;>
        simp [hcycle, CycleProgress.pending, CycleProgress.held]
  | fail cycle error message rest hadFailures hcycle =>
      refine held_update ?_ ?_ other <;>
        simp [hcycle, CycleProgress.pending, CycleProgress.held]
  | markPublished cycle message rest hadFailures hcycle =>
      refine held_update ?_ ?_ other <;>
        simp [hcycle, CycleProgress.pending, CycleProgress.held]
  | markFailed cycle error message rest hadFailures hcycle =>
      refine held_update ?_ ?_ other <;>
        simp [hcycle, CycleProgress.pending, CycleProgress.held]
  | record cycle marking rest hadFailures hcycle =>
      refine held_update ?_ ?_ other <;>
        simp [hcycle, CycleProgress.pending, CycleProgress.held]
  | finish cycle hadFailures hcycle =>
      refine held_update ?_ ?_ other <;>
        simp [CycleProgress.pending, CycleProgress.held]

/-- No step takes a message out of the store or back to unpublished. -/
theorem Step.find (hstep : Step options state label next)
    (hfresh : ∀ message, label = .save message →
      state.store.find message.id = none)
    {id : String} {stored : OutboxMessage Ev}
    (hfind : state.store.find id = some stored) :
    ∃ stored', next.store.find id = some stored' ∧
      (stored.publishedAt ≠ none → stored'.publishedAt ≠ none) := by
  have hfailed : ∀ other error,
      ∃ stored', (state.store.markAsFailed other error state.clock).find id =
        some stored' ∧
        (stored.publishedAt ≠ none → stored'.publishedAt ≠ none) := by
    intro other error
    rw [InMemoryOutboxStore.find_markAsFailed]
    by_cases heq : id = other
    · subst other
      rw [if_pos rfl, hfind]
      exact ⟨_, rfl, fun hpublished => hpublished⟩
    · rw [if_neg heq]
      exact ⟨stored, hfind, fun hpublished => hpublished⟩
  cases hstep with
  | save message =>
      have hne : id ≠ message.id := by
        intro heq
        rw [heq, hfresh message rfl] at hfind
        contradiction
      refine ⟨stored, ?_, fun hpublished => hpublished⟩
      rw [InMemoryOutboxStore.find_save, if_neg hne]
      exact hfind
  | deadLetter cycle message rest hadFailures hcycle hattempts =>
      exact hfailed message.id _
  | markPublished cycle message rest hadFailures hcycle =>
      rw [InMemoryOutboxStore.find_markAsPublished]
      by_cases heq : id = message.id
      · rw [if_pos heq, ← heq, hfind]
        exact ⟨_, rfl, fun _ => by simp [OutboxMessage.published]⟩
      · rw [if_neg heq]
        exact ⟨stored, hfind, fun hpublished => hpublished⟩
  | markFailed cycle error message rest hadFailures hcycle =>
      exact hfailed message.id error
  | _ => exact ⟨stored, hfind, fun hpublished => hpublished⟩

end TsCommons.Outbox
