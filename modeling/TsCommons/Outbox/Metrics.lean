import TsCommons.Outbox.OneAfterAnother
import TsCommons.Outbox.RetryLog

/-!
# The metrics of the relay

A cycle records an answer of the publisher two steps after it came, when the
message has been marked in the store.
-/

namespace TsCommons.Outbox

open Foundations

variable {Ev : Type} {options : OutboxRelayOptions} {state next : State Ev}
  {label : Label Ev}

def OutboxRelayMetrics.count (metrics : OutboxRelayMetrics) : Marking → ℕ
  | .published => metrics.published
  | .failed => metrics.failed
  | .skipped => metrics.skipped

/-- The publish calls that have ended in this way. -/
def answers (log : List Event) : Marking → ℕ
  | .published => log.countP Event.isSucceeded
  | .failed => log.countP Event.isFailed
  | .skipped => 0

/-- The marking that a cycle has still to record. -/
def CycleProgress.unrecorded : CycleProgress Ev → Option Marking
  | .answered _ (.ok ()) _ _ => some .published
  | .answered _ (.error _) _ _ => some .failed
  | .marked marking _ _ => some marking
  | _ => none

/-- The metrics count the answers of the publisher, but for the one that the
running cycle has still to record. -/
def MetricsInvariant (before : OutboxRelayMetrics) (state : State Ev) : Prop :=
  ∀ metrics ∈ state.metrics, ∀ marking, marking ≠ .skipped →
    ∀ cycle, (∀ other, other ≠ cycle → ¬ (state.cycles other).Running) →
      metrics.count marking +
          (if (state.cycles cycle).unrecorded = some marking then 1 else 0) =
        before.count marking + answers state.log marking

theorem unrecorded_of_not_running {progress : CycleProgress Ev}
    (hnot : ¬ progress.Running) : progress.unrecorded = none := by
  cases progress <;>
    simp_all [CycleProgress.Running, CycleProgress.unrecorded]

theorem count_record (metrics : OutboxRelayMetrics) (marking kind : Marking) :
    (metrics.record kind).count marking =
      metrics.count marking + if kind = marking then 1 else 0 := by
  cases kind <;> cases marking <;> rfl

theorem answers_cons_succeeded (id : String) (log : List Event)
    (marking : Marking) :
    answers (.succeeded id :: log) marking =
      answers log marking + if .published = marking then 1 else 0 := by
  cases marking <;>
    simp [answers, List.countP_cons, Event.isSucceeded, Event.isFailed]

theorem answers_cons_failed (id : String) (log : List Event)
    (marking : Marking) :
    answers (.failed id :: log) marking =
      answers log marking + if .failed = marking then 1 else 0 := by
  cases marking <;>
    simp [answers, List.countP_cons, Event.isSucceeded, Event.isFailed]

/-- A step of the running cycle, with the equation for its own progress. -/
theorem MetricsInvariant.of_update {before : OutboxRelayMetrics}
    (hinv : SnapshotInvariant state) {cycle : ℕ} {progress : CycleProgress Ev}
    (hrunning : (state.cycles cycle).Running)
    (hcycles : next.cycles = Function.update state.cycles cycle progress)
    (hcount : ∀ metrics ∈ next.metrics, ∀ marking, marking ≠ .skipped →
      metrics.count marking +
          (if progress.unrecorded = some marking then 1 else 0) =
        before.count marking + answers next.log marking) :
    MetricsInvariant before next := by
  intro metrics hmem marking hmarking solo hsolo
  have hunrecorded : (next.cycles solo).unrecorded = progress.unrecorded := by
    rw [hcycles] at hsolo ⊢
    by_cases heq : solo = cycle
    · subst solo
      rw [Function.update_self]
    · have hcycle := hsolo cycle (Ne.symm heq)
      rw [Function.update_self] at hcycle
      have hnot : ¬ (state.cycles solo).Running :=
        fun hother => heq (hinv.one solo cycle hother hrunning)
      rw [Function.update_of_ne heq, unrecorded_of_not_running hnot,
        unrecorded_of_not_running hcycle]
  rw [hunrecorded]
  exact hcount metrics hmem marking hmarking

theorem MetricsInvariant.of_running {before : OutboxRelayMetrics}
    (hmetrics : MetricsInvariant before state)
    (hinv : SnapshotInvariant state) {cycle : ℕ} {progress : CycleProgress Ev}
    (hcycle : state.cycles cycle = progress) (hrunning : progress.Running)
    (metrics : OutboxRelayMetrics) (hmem : metrics ∈ state.metrics)
    (marking : Marking) (hmarking : marking ≠ .skipped) :
    metrics.count marking +
        (if progress.unrecorded = some marking then 1 else 0) =
      before.count marking + answers state.log marking := by
  have hcount := hmetrics metrics hmem marking hmarking cycle
    fun other hne hother => hne
      (hinv.one other cycle hother (hcycle ▸ hrunning))
  rwa [hcycle] at hcount

/-- A step that changes nothing that is counted. -/
theorem MetricsInvariant.of_same {before : OutboxRelayMetrics}
    (hmetrics : MetricsInvariant before state)
    (hinv : SnapshotInvariant state) {cycle : ℕ}
    {progress progress' : CycleProgress Ev}
    (hcycle : state.cycles cycle = progress) (hrunning : progress.Running)
    (hcycles : next.cycles = Function.update state.cycles cycle progress')
    (hunrecorded : progress'.unrecorded = progress.unrecorded)
    (hsame : next.metrics = state.metrics)
    (hanswers : answers next.log = answers state.log) :
    MetricsInvariant before next := by
  refine .of_update hinv (hcycle ▸ hrunning) hcycles
    fun metrics hmem marking hmarking => ?_
  rw [hunrecorded, hanswers]
  exact hmetrics.of_running hinv hcycle hrunning metrics (hsame ▸ hmem)
    marking hmarking

theorem MetricsInvariant.step {before : OutboxRelayMetrics}
    (hmetrics : MetricsInvariant before state)
    (hinv : SnapshotInvariant state) (hone : OneAfterAnother state label)
    (hstep : Step options state label next) :
    MetricsInvariant before next := by
  have hrunning : ∀ {cycle progress}, state.cycles cycle = progress →
      progress.Running → (state.cycles cycle).Running :=
    fun hcycle hprogress => hcycle ▸ hprogress
  cases hstep with
  | tick now hclock => exact hmetrics
  | save message => exact hmetrics
  | runOnce cycle hcycle =>
      intro metrics hmem marking hmarking solo _
      have hcount := hmetrics metrics hmem marking hmarking cycle
        fun other _ => hone other
      rw [hcycle] at hcount
      have hnone : ((state.advance cycle (.looping
          (state.store.getUnpublished options.batchSize) false)).cycles
            solo).unrecorded = none := by
        by_cases heq : solo = cycle
        · simp [State.advance, heq, CycleProgress.unrecorded]
        · simp only [State.advance, Function.update_of_ne heq]
          exact unrecorded_of_not_running (hone solo)
      rw [hnone]
      exact hcount
  | deadLetter cycle message rest hadFailures hcycle hattempts =>
      refine .of_update hinv (hrunning hcycle trivial) rfl
        fun metrics hmem marking hmarking => ?_
      have hcount := hmetrics.of_running hinv hcycle trivial metrics hmem
        marking hmarking
      rw [CycleProgress.unrecorded, if_neg (by simpa using Ne.symm hmarking)]
      exact hcount
  | backOff cycle message rest hadFailures hcycle hattempts hbacksOff =>
      exact hmetrics.of_same hinv hcycle trivial rfl rfl rfl rfl
  | handOver cycle message rest hadFailures hcycle hattempts hbacksOff =>
      refine hmetrics.of_same hinv hcycle trivial rfl rfl rfl ?_
      funext marking
      cases marking <;> rfl
  | succeed cycle message rest hadFailures hcycle =>
      refine .of_update hinv (hrunning hcycle trivial) rfl
        fun metrics hmem marking hmarking => ?_
      have hcount := hmetrics.of_running hinv hcycle trivial metrics hmem
        marking hmarking
      rw [answers_cons_succeeded]
      simp only [CycleProgress.unrecorded, Option.some.injEq, reduceCtorEq,
        if_false] at hcount ⊢
      omega
  | fail cycle error message rest hadFailures hcycle =>
      refine .of_update hinv (hrunning hcycle trivial) rfl
        fun metrics hmem marking hmarking => ?_
      have hcount := hmetrics.of_running hinv hcycle trivial metrics hmem
        marking hmarking
      rw [answers_cons_failed]
      simp only [CycleProgress.unrecorded, Option.some.injEq, reduceCtorEq,
        if_false] at hcount ⊢
      omega
  | markPublished cycle message rest hadFailures hcycle =>
      exact hmetrics.of_same hinv hcycle trivial rfl rfl rfl rfl
  | markFailed cycle error message rest hadFailures hcycle =>
      exact hmetrics.of_same hinv hcycle trivial rfl rfl rfl rfl
  | record cycle kind rest hadFailures hcycle =>
      refine .of_update hinv (hrunning hcycle trivial) rfl
        fun metrics hmem marking hmarking => ?_
      obtain ⟨earlier, hearlier, rfl⟩ := Option.map_eq_some_iff.mp hmem
      have hcount := hmetrics.of_running hinv hcycle trivial earlier hearlier
        marking hmarking
      rw [count_record]
      simp only [CycleProgress.unrecorded, Option.some.injEq, reduceCtorEq,
        if_false] at hcount ⊢
      exact hcount
  | finish cycle hadFailures hcycle =>
      exact hmetrics.of_same hinv hcycle trivial rfl rfl rfl rfl

theorem Step.isSome_metrics (hstep : Step options state label next) :
    next.metrics.isSome = state.metrics.isSome := by
  cases hstep with
  | record cycle marking rest hadFailures hcycle => exact Option.isSome_map
  | _ => rfl

theorem initial_metricsInvariant (now : ℚ) (store : InMemoryOutboxStore Ev)
    (before : OutboxRelayMetrics) :
    MetricsInvariant before (State.initial now store (some before)) := by
  intro metrics hmem marking _ cycle _
  cases hmem
  cases marking <;> rfl

end TsCommons.Outbox
