import TsCommons.Outbox.Metrics
import Mathlib.Tactic.Linarith

/-!
# The retry discipline of the relay

Cycles run one after another over a store that starts empty.  While a message
is unpublished and in nobody's hands, its `attempts` are its failed hand-overs,
cut off at `maxAttempts`; the dead-letter branch goes on counting, but only
beyond that bound.
-/

namespace TsCommons.Outbox

open Foundations

variable {Ev : Type}

/-- Cycles run one after another, and messages are saved fresh. -/
def FreshAndOneAfterAnother (state : State Ev) (label : Label Ev) : Prop :=
  OneAfterAnother state label ∧
    ∀ message, label = .save message → message.attempts = 0

namespace CycleProgress

/-- The id of the message that the cycle has handed over and not yet
marked. -/
def workingOn : CycleProgress Ev → Option String
  | .publishing message _ _ => some message.id
  | .answered message _ _ _ => some message.id
  | _ => none

end CycleProgress

/-- The account of an unpublished message in nobody's hands. -/
structure Settled (options : OutboxRelayOptions) (log : List Event)
    (message : OutboxMessage Ev) : Prop where
  failures : failures message.id log =
    min message.attempts options.maxAttempts
  handOvers : handOvers message.id log =
    min message.attempts options.maxAttempts
  lastAttempt : 0 < message.attempts →
    ∃ last ∈ message.lastAttemptAt,
      ∀ time, .handed message.id time ∈ log → time ≤ last

/-- The account of the message that a cycle is working on. -/
def Working (options : OutboxRelayOptions) (log : List Event) :
    CycleProgress Ev → Prop
  | .publishing message _ _ =>
      message.attempts < options.maxAttempts ∧
        failures message.id log = message.attempts ∧
        handOvers message.id log = message.attempts + 1
  | .answered message (.error _) _ _ =>
      message.attempts < options.maxAttempts ∧
        failures message.id log = message.attempts + 1 ∧
        handOvers message.id log = message.attempts + 1
  | _ => True

structure RetryInvariant (options : OutboxRelayOptions)
    (state : State Ev) : Prop extends SnapshotInvariant state where
  known : ∀ event ∈ state.log,
    ∃ stored, state.store.find event.id = some stored
  past : ∀ id time, .handed id time ∈ state.log → time ≤ state.clock
  settled : ∀ id stored, state.store.find id = some stored →
    stored.publishedAt = none →
      (∀ cycle, (state.cycles cycle).workingOn ≠ some id) →
        Settled options state.log stored
  working : ∀ cycle, Working options state.log (state.cycles cycle)
  everyHandOver : EveryHandOver options state.log

variable {options : OutboxRelayOptions} {state next : State Ev}
  {label : Label Ev} {log : List Event}

theorem initial_retryInvariant (options : OutboxRelayOptions) (now : ℚ)
    (metrics : Option OutboxRelayMetrics) :
    RetryInvariant options
      (State.initial now .empty metrics : State Ev) where
  toSnapshotInvariant := initial_snapshotInvariant now .empty metrics
  known := by simp [State.initial]
  past := by simp [State.initial]
  settled := by
    simp [State.initial, InMemoryOutboxStore.empty, InMemoryOutboxStore.find]
  working := by simp [State.initial, Working]
  everyHandOver := by simp [State.initial, EveryHandOver]

theorem Settled.of_attempts_eq_zero {message : OutboxMessage Ev}
    (hattempts : message.attempts = 0)
    (hnone : ∀ event ∈ log, event.id ≠ message.id) :
    Settled options log message := by
  obtain ⟨hhandOvers, hfailures⟩ := counts_eq_zero hnone
  exact ⟨by simp [hfailures, hattempts], by simp [hhandOvers, hattempts],
    by simp [hattempts]⟩

theorem Settled.failed {message : OutboxMessage Ev} {now : ℚ} (error : String)
    (hpast : ∀ time, .handed message.id time ∈ log → time ≤ now)
    (hfailures : Outbox.failures message.id log =
      min (message.attempts + 1) options.maxAttempts)
    (hhandOvers : Outbox.handOvers message.id log =
      min (message.attempts + 1) options.maxAttempts) :
    Settled options log (message.failed error now) :=
  ⟨hfailures, hhandOvers, fun _ => ⟨now, rfl, hpast⟩⟩

theorem Settled.cons {event : Event} {message : OutboxMessage Ev}
    (hsettled : Settled options log message) (hne : event.id ≠ message.id) :
    Settled options (event :: log) message := by
  obtain ⟨hhandOvers, hfailures⟩ := counts_cons_of_id_ne log hne
  refine ⟨hfailures.trans hsettled.failures,
    hhandOvers.trans hsettled.handOvers, fun hattempts => ?_⟩
  obtain ⟨last, hlast, hbefore⟩ := hsettled.lastAttempt hattempts
  refine ⟨last, hlast, fun time hmem => hbefore time ?_⟩
  rcases List.mem_cons.mp hmem with hhead | htail
  · rw [← hhead] at hne
    exact absurd rfl hne
  · exact htail

theorem working_of_not_running {progress : CycleProgress Ev}
    (hnot : ¬ progress.Running) : Working options log progress := by
  cases progress <;> simp_all [CycleProgress.Running, Working]

theorem workingOn_of_not_running {progress : CycleProgress Ev}
    (hnot : ¬ progress.Running) : progress.workingOn = none := by
  cases progress <;> simp_all [CycleProgress.Running, CycleProgress.workingOn]

namespace RetryInvariant

theorem not_running (hinv : RetryInvariant options state) {cycle other : ℕ}
    (hcycle : (state.cycles cycle).Running) (hne : other ≠ cycle) :
    ¬ (state.cycles other).Running :=
  fun hother => hne (hinv.one other cycle hother hcycle)

/-- A stored message that the running cycle is to look at next. -/
theorem settled_of_looping (hinv : RetryInvariant options state) {cycle : ℕ}
    {message : OutboxMessage Ev} {rest : List (OutboxMessage Ev)}
    {hadFailures : Bool}
    (hcycle : state.cycles cycle = .looping (message :: rest) hadFailures) :
    Settled options state.log message := by
  obtain ⟨hfind, hunpublished⟩ := hinv.snapshot cycle message
    (by simp [hcycle, CycleProgress.held])
  apply hinv.settled message.id message hfind hunpublished
  intro other
  by_cases heq : other = cycle
  · subst other
    simp [hcycle, CycleProgress.workingOn]
  · rw [workingOn_of_not_running (hinv.not_running
      (by simp [hcycle, CycleProgress.Running]) heq)]
    simp

theorem disciplined (hinv : RetryInvariant options state) {cycle : ℕ}
    {message : OutboxMessage Ev} {rest : List (OutboxMessage Ev)}
    {hadFailures : Bool}
    (hcycle : state.cycles cycle = .looping (message :: rest) hadFailures)
    (hattempts : message.attempts < options.maxAttempts)
    (hbacksOff : ¬ options.BacksOff message state.clock) :
    Disciplined options message.id state.clock state.log := by
  have hsettled := hinv.settled_of_looping hcycle
  have hfailures := hsettled.failures
  have hhandOvers := hsettled.handOvers
  rw [Nat.min_eq_left hattempts.le] at hfailures hhandOvers
  constructor
  · exact hinv.unpublished cycle message
      (by simp [hcycle, CycleProgress.pending])
  · exact hhandOvers ▸ hattempts
  · exact hhandOvers.trans hfailures.symm
  · intro time hmem
    have hpos : 0 < message.attempts := hhandOvers ▸ handOvers_pos hmem
    obtain ⟨last, hlast, hbefore⟩ := hsettled.lastAttempt hpos
    have heligible : last + options.backoffMs message.attempts ≤
        state.clock := by
      by_contra hlate
      exact hbacksOff ⟨hpos, last, hlast, not_le.mp hlate⟩
    have htime := hbefore time hmem
    rw [hfailures]
    rw [OutboxRelayOptions.backoffMs] at heligible
    linarith

theorem known_step (hinv : RetryInvariant options state)
    (hone : OneAfterAnother state label)
    (hstep : Step options state label next) (event : Event)
    (hevent : event ∈ next.log) :
    ∃ stored, next.store.find event.id = some stored := by
  have hkeeps : ∀ id, (∃ stored, state.store.find id = some stored) →
      ∃ stored, next.store.find id = some stored := by
    rintro id ⟨stored, hfind⟩
    obtain ⟨stored', hfind', _⟩ := hstep.find
      (fun message hsave => by subst label; exact hone) hfind
    exact ⟨stored', hfind'⟩
  rcases hstep.log_cases with hlog |
    ⟨cycle, message, rest, hadFailures, hcycle, hlog⟩ |
    ⟨cycle, message, rest, hadFailures, outcome, hcycle, _, hlog⟩
  · exact hkeeps _ (hinv.known event (hlog ▸ hevent))
  · rw [hlog, List.mem_cons] at hevent
    rcases hevent with rfl | hold
    · exact hkeeps _ (hinv.stored cycle message
        (by simp [hcycle, CycleProgress.held]))
    · exact hkeeps _ (hinv.known event hold)
  · rw [hlog, List.mem_cons] at hevent
    rcases hevent with hnew | hold
    · have hid : event.id = message.id := by
        rw [hnew]
        cases outcome <;> rfl
      rw [hid]
      exact hkeeps _ (hinv.stored cycle message
        (by simp [hcycle, CycleProgress.held]))
    · exact hkeeps _ (hinv.known event hold)

theorem past_step (hinv : RetryInvariant options state)
    (hstep : Step options state label next) (id : String) (time : ℚ)
    (hmem : .handed id time ∈ next.log) : time ≤ next.clock := by
  have hclock : state.clock ≤ next.clock := by
    cases hstep with
    | tick now hclock => exact hclock
    | _ => exact le_rfl
  rcases hstep.log_cases with hlog | ⟨_, _, _, _, _, hlog⟩ |
    ⟨_, _, _, _, outcome, _, _, hlog⟩
  · exact (hinv.past id time (hlog ▸ hmem)).trans hclock
  · rw [hlog, List.mem_cons, Event.handed.injEq] at hmem
    rcases hmem with ⟨_, rfl⟩ | hold
    · exact hclock
    · exact (hinv.past id time hold).trans hclock
  · rw [hlog, List.mem_cons] at hmem
    have hold : .handed id time ∈ state.log := by
      cases outcome <;> simpa using hmem
    exact (hinv.past id time hold).trans hclock

/-- The account of a message that the step leaves alone. -/
theorem settled_of_update (hinv : RetryInvariant options state) {cycle : ℕ}
    {progress : CycleProgress Ev} {id : String} {stored : OutboxMessage Ev}
    (hfind : state.store.find id = some stored)
    (hunpublished : stored.publishedAt = none)
    (hnot : ∀ other, (Function.update state.cycles cycle progress
      other).workingOn ≠ some id)
    (hcycle : (state.cycles cycle).workingOn ≠ some id) :
    Settled options state.log stored := by
  apply hinv.settled id stored hfind hunpublished
  intro other
  by_cases heq : other = cycle
  · subst other
    exact hcycle
  · have hother := hnot other
    rwa [Function.update_of_ne heq] at hother

theorem settled_step (hinv : RetryInvariant options state)
    (hfresh : FreshAndOneAfterAnother state label)
    (hstep : Step options state label next) (id : String)
    (stored : OutboxMessage Ev) (hfind : next.store.find id = some stored)
    (hunpublished : stored.publishedAt = none)
    (hnot : ∀ cycle, (next.cycles cycle).workingOn ≠ some id) :
    Settled options next.log stored := by
  have hid := InMemoryOutboxStore.id_of_find hfind
  cases hstep with
  | tick now hclock =>
      exact hinv.settled id stored hfind hunpublished hnot
  | save message =>
      rw [InMemoryOutboxStore.find_save] at hfind
      split_ifs at hfind with heq
      · rw [Option.some.injEq] at hfind
        subst message
        apply Settled.of_attempts_eq_zero (hfresh.2 stored rfl)
        intro event hevent hsame
        obtain ⟨old, hold⟩ := hinv.known event hevent
        have hnew : state.store.find stored.id = none := hfresh.1
        rw [hsame, hnew] at hold
        contradiction
      · exact hinv.settled id stored hfind hunpublished hnot
  | runOnce cycle hcycle =>
      exact hinv.settled_of_update hfind hunpublished hnot
        (by simp [hcycle, CycleProgress.workingOn])
  | deadLetter cycle message rest hadFailures hcycle hattempts =>
      rw [InMemoryOutboxStore.find_markAsFailed] at hfind
      split_ifs at hfind with heq
      · have hold := hinv.settled_of_looping hcycle
        rw [(hinv.snapshot cycle message
          (by simp [hcycle, CycleProgress.held])).1] at hfind
        cases hfind
        have hmin : min message.attempts options.maxAttempts =
            min (message.attempts + 1) options.maxAttempts := by
          omega
        exact Settled.failed _ (hinv.past message.id)
          (hold.failures.trans hmin) (hold.handOvers.trans hmin)
      · exact hinv.settled_of_update hfind hunpublished hnot
          (by simp [hcycle, CycleProgress.workingOn])
  | backOff cycle message rest hadFailures hcycle hattempts hbacksOff =>
      exact hinv.settled_of_update hfind hunpublished hnot
        (by simp [hcycle, CycleProgress.workingOn])
  | handOver cycle message rest hadFailures hcycle hattempts hbacksOff =>
      have hne : message.id ≠ id := by
        have hself := hnot cycle
        simpa [State.advance, CycleProgress.workingOn] using hself
      have hold := hinv.settled_of_update hfind hunpublished hnot
        (by simp [hcycle, CycleProgress.workingOn])
      exact hold.cons (hid ▸ hne)
  | succeed cycle message rest hadFailures hcycle =>
      have hne : message.id ≠ id := by
        have hself := hnot cycle
        simpa [State.advance, CycleProgress.workingOn] using hself
      have hold := hinv.settled_of_update hfind hunpublished hnot
        (by simp [hcycle, CycleProgress.workingOn, hne])
      exact hold.cons (hid ▸ hne)
  | fail cycle error message rest hadFailures hcycle =>
      have hne : message.id ≠ id := by
        have hself := hnot cycle
        simpa [State.advance, CycleProgress.workingOn] using hself
      have hold := hinv.settled_of_update hfind hunpublished hnot
        (by simp [hcycle, CycleProgress.workingOn, hne])
      exact hold.cons (hid ▸ hne)
  | markPublished cycle message rest hadFailures hcycle =>
      rw [InMemoryOutboxStore.find_markAsPublished] at hfind
      split_ifs at hfind with heq
      · obtain ⟨old, _, rfl⟩ := Option.map_eq_some_iff.mp hfind
        simp [OutboxMessage.published] at hunpublished
      · exact hinv.settled_of_update hfind hunpublished hnot
          (by simp [hcycle, CycleProgress.workingOn, Ne.symm heq])
  | markFailed cycle error message rest hadFailures hcycle =>
      rw [InMemoryOutboxStore.find_markAsFailed] at hfind
      split_ifs at hfind with heq
      · rw [(hinv.snapshot cycle message
          (by simp [hcycle, CycleProgress.held])).1] at hfind
        cases hfind
        have hworking := hinv.working cycle
        rw [hcycle] at hworking
        obtain ⟨hattempts, hfailures, hhandOvers⟩ := hworking
        have hmin : message.attempts + 1 =
            min (message.attempts + 1) options.maxAttempts := by
          omega
        exact Settled.failed _ (hinv.past message.id)
          (hfailures.trans hmin) (hhandOvers.trans hmin)
      · exact hinv.settled_of_update hfind hunpublished hnot
          (by simp [hcycle, CycleProgress.workingOn, Ne.symm heq])
  | record cycle marking rest hadFailures hcycle =>
      exact hinv.settled_of_update hfind hunpublished hnot
        (by simp [hcycle, CycleProgress.workingOn])
  | finish cycle hadFailures hcycle =>
      exact hinv.settled_of_update hfind hunpublished hnot
        (by simp [hcycle, CycleProgress.workingOn])

/-- Only the running cycle is working on a message. -/
theorem working_update (hinv : RetryInvariant options state) {cycle : ℕ}
    (progress : CycleProgress Ev)
    (hrunning : (state.cycles cycle).Running)
    (hworking : Working options log progress) (other : ℕ) :
    Working options log
      (Function.update state.cycles cycle progress other) := by
  by_cases heq : other = cycle
  · subst other
    rwa [Function.update_self]
  · rw [Function.update_of_ne heq]
    exact working_of_not_running (hinv.not_running hrunning heq)

theorem working_step (hinv : RetryInvariant options state)
    (hone : OneAfterAnother state label)
    (hstep : Step options state label next) (other : ℕ) :
    Working options next.log (next.cycles other) := by
  cases hstep with
  | tick now hclock => exact hinv.working other
  | save message => exact hinv.working other
  | runOnce cycle hcycle =>
      by_cases heq : other = cycle
      · subst other
        simp [State.advance, Working]
      · simp only [State.advance, Function.update_of_ne heq]
        exact working_of_not_running (hone other)
  | deadLetter cycle message rest hadFailures hcycle hattempts =>
      exact hinv.working_update
        (.marked .skipped rest hadFailures)
        (by simp [hcycle, CycleProgress.Running]) trivial other
  | backOff cycle message rest hadFailures hcycle hattempts hbacksOff =>
      exact hinv.working_update
        (.looping rest hadFailures)
        (by simp [hcycle, CycleProgress.Running]) trivial other
  | handOver cycle message rest hadFailures hcycle hattempts hbacksOff =>
      have hsettled := hinv.settled_of_looping hcycle
      have hfailures := hsettled.failures
      have hhandOvers := hsettled.handOvers
      rw [Nat.min_eq_left hattempts.le] at hfailures hhandOvers
      refine hinv.working_update _ (by simp [hcycle, CycleProgress.Running])
        ?_ other
      refine ⟨hattempts, ?_, ?_⟩
      · rw [failures_cons_of_ne (by simp)]
        exact hfailures
      · rw [handOvers_cons_handed, if_pos rfl, hhandOvers]
  | succeed cycle message rest hadFailures hcycle =>
      exact hinv.working_update
        (.answered message (.ok ()) rest hadFailures)
        (by simp [hcycle, CycleProgress.Running]) trivial other
  | fail cycle error message rest hadFailures hcycle =>
      have hworking := hinv.working cycle
      rw [hcycle] at hworking
      obtain ⟨hattempts, hfailures, hhandOvers⟩ := hworking
      refine hinv.working_update _ (by simp [hcycle, CycleProgress.Running])
        ?_ other
      refine ⟨hattempts, ?_, ?_⟩
      · rw [failures_cons_failed, if_pos rfl, hfailures]
      · rw [handOvers_cons_of_not (by simp [Event.isHandOver])]
        exact hhandOvers
  | markPublished cycle message rest hadFailures hcycle =>
      exact hinv.working_update
        (.marked .published rest hadFailures)
        (by simp [hcycle, CycleProgress.Running]) trivial other
  | markFailed cycle error message rest hadFailures hcycle =>
      exact hinv.working_update
        (.marked .failed rest hadFailures)
        (by simp [hcycle, CycleProgress.Running]) trivial other
  | record cycle marking rest hadFailures hcycle =>
      exact hinv.working_update
        (.looping rest (hadFailures || marking = .failed))
        (by simp [hcycle, CycleProgress.Running]) trivial other
  | finish cycle hadFailures hcycle =>
      exact hinv.working_update .finished
        (by simp [hcycle, CycleProgress.Running]) trivial other

theorem everyHandOver_step (hinv : RetryInvariant options state)
    (hstep : Step options state label next) :
    EveryHandOver options next.log := by
  cases hstep with
  | handOver cycle message rest hadFailures hcycle hattempts hbacksOff =>
      apply hinv.everyHandOver.cons
      intro id time heq
      rw [Event.handed.injEq] at heq
      obtain ⟨rfl, rfl⟩ := heq
      exact hinv.disciplined hcycle hattempts hbacksOff
  | succeed cycle message rest hadFailures hcycle =>
      exact hinv.everyHandOver.cons fun id time heq => by simp at heq
  | fail cycle error message rest hadFailures hcycle =>
      exact hinv.everyHandOver.cons fun id time heq => by simp at heq
  | _ => exact hinv.everyHandOver

theorem step (hinv : RetryInvariant options state)
    (hfresh : FreshAndOneAfterAnother state label)
    (hstep : options.step state label = some next) :
    RetryInvariant options next := by
  have hcases := step_of_eq_some hstep
  exact ⟨hinv.toSnapshotInvariant.step hfresh.1 hstep,
    hinv.known_step hfresh.1 hcases, hinv.past_step hcases,
    hinv.settled_step hfresh hcases, hinv.working_step hfresh.1 hcases,
    hinv.everyHandOver_step hcases⟩

theorem retryDiscipline (hinv : RetryInvariant options state) :
    RetryDiscipline options state.log where
  bounded := hinv.everyHandOver.bounded
  noHandOverAfterSuccess := hinv.log
  spaced := by
    intro newer middle older id time time' hlog hmiddle
    exact hinv.everyHandOver.spaced hlog hmiddle

end RetryInvariant

/-! ## Runs of the relay -/

/-- What a run of cycles one after another keeps. -/
structure RelayInvariant (options : OutboxRelayOptions)
    (metrics : Option OutboxRelayMetrics) (state : State Ev) : Prop where
  retry : RetryInvariant options state
  counts : ∀ before ∈ metrics, MetricsInvariant before state
  isSome : state.metrics.isSome = metrics.isSome

theorem RelayInvariant.step {metrics : Option OutboxRelayMetrics}
    (hinv : RelayInvariant options metrics state)
    (hfresh : FreshAndOneAfterAnother state label)
    (hstep : options.step state label = some next) :
    RelayInvariant options metrics next where
  retry := hinv.retry.step hfresh hstep
  counts := by
    intro before hbefore
    exact (hinv.counts before hbefore).step hinv.retry.toSnapshotInvariant
      hfresh.1 (step_of_eq_some hstep)
  isSome := (step_of_eq_some hstep).isSome_metrics.trans hinv.isSome

theorem relayInvariant_of_oneAfterAnother {now : ℚ}
    {metrics : Option OutboxRelayMetrics} {labels : List (Label Ev)}
    (hrun : exec options.step (State.initial now .empty metrics) labels =
      some state)
    (hmeet : StepsMeet options.step FreshAndOneAfterAnother
      (State.initial now .empty metrics) labels) :
    RelayInvariant options metrics state := by
  refine exec_invariant_of_stepsMeet
    (fun _ _ _ hinv hfresh hstep => RelayInvariant.step hinv hfresh hstep)
    ⟨initial_retryInvariant options now metrics, ?_, rfl⟩ hmeet hrun
  intro before hbefore
  cases hbefore
  exact initial_metricsInvariant now .empty before

/-- Cycles that run one after another over fresh messages keep the retry
discipline, and between cycles the metrics count the answers of the
publisher. -/
theorem retryDiscipline_of_oneAfterAnother (options : OutboxRelayOptions)
    (now : ℚ) (metrics : Option OutboxRelayMetrics)
    (labels : List (Label Ev)) (state : State Ev)
    (hrun : exec options.step (State.initial now .empty metrics) labels =
      some state)
    (hmeet : StepsMeet options.step FreshAndOneAfterAnother
      (State.initial now .empty metrics) labels) :
    RetryDiscipline options state.log ∧
    ((∀ cycle, ¬ (state.cycles cycle).Running) →
      ∀ before ∈ metrics, ∃ after ∈ state.metrics,
        after.published =
          before.published + state.log.countP Event.isSucceeded ∧
        after.failed = before.failed + state.log.countP Event.isFailed) := by
  have hinv := relayInvariant_of_oneAfterAnother hrun hmeet
  refine ⟨hinv.retry.retryDiscipline, fun hidle before hbefore => ?_⟩
  have hsome : state.metrics.isSome := by
    rw [hinv.isSome, Option.isSome_iff_exists]
    exact ⟨before, hbefore⟩
  obtain ⟨after, hafter⟩ := Option.isSome_iff_exists.mp hsome
  have hcount : ∀ marking, marking ≠ .skipped → after.count marking =
      before.count marking + answers state.log marking := by
    intro marking hmarking
    have hequation := hinv.counts before hbefore after hafter marking
      hmarking 0 fun other _ => hidle other
    rw [unrecorded_of_not_running (hidle 0)] at hequation
    exact hequation
  exact ⟨after, hafter, hcount .published (by simp),
    hcount .failed (by simp)⟩

/-- The broker is down in the first cycle. -/
def failsOnce : List (Label String) :=
  [.save orderPlaced, .runOnce 0, .resume 0,
    .publishSettles 0 (.error "broker down"), .resume 0, .resume 0, .resume 0,
    .tick 1000]

def succeedsLater : List (Label String) :=
  [.runOnce 1, .resume 1, .publishSettles 1 (.ok ()), .resume 1, .resume 1,
    .resume 1]

theorem retryDiscipline_of_oneAfterAnother_retriedOnce :
    ∃ state,
      exec ({} : OutboxRelayOptions).step (State.initial 0 .empty (some {}))
        (failsOnce ++ succeedsLater) = some state ∧
      state.log = [.succeeded "msg-1", .handed "msg-1" 1000,
        .failed "msg-1", .handed "msg-1" 0] ∧
      RetryDiscipline {} state.log ∧
      ∃ after ∈ state.metrics, after.published = 1 ∧ after.failed = 1 := by
  have hsome : ((exec ({} : OutboxRelayOptions).step
      (State.initial 0 .empty (some {}))
      (failsOnce ++ succeedsLater)).map fun state =>
        (state.log, state.cycles 0, state.cycles 1)) =
      some ([.succeeded "msg-1", .handed "msg-1" 1000, .failed "msg-1",
        .handed "msg-1" 0], .finished, .finished) := by
    decide +kernel
  have hmiddle : ((exec ({} : OutboxRelayOptions).step
      (State.initial 0 .empty (some {})) failsOnce).map fun state =>
        state.cycles 0) = some .finished := by
    decide +kernel
  obtain ⟨state, hrun, hfacts⟩ := Option.map_eq_some_iff.mp hsome
  simp only [Prod.mk.injEq] at hfacts
  obtain ⟨hlog, hfirst, hsecond⟩ := hfacts
  have hmeet : StepsMeet ({} : OutboxRelayOptions).step
      FreshAndOneAfterAnother (State.initial 0 .empty (some {}))
      (failsOnce ++ succeedsLater) := by
    refine StepsMeet.append ⟨⟨rfl, ?_⟩, fun saved hsaved => ⟨⟨?_, ?_⟩,
      fun _ _ => ?_⟩⟩ fun middle hrun => ⟨⟨?_, ?_⟩, fun _ _ => ?_⟩
    · intro message hsave
      cases hsave
      rfl
    · cases hsaved
      exact fun _ hrunning => hrunning
    · simp
    · apply StepsMeet.of_forall_mem
      intro label hlabel state
      simp only [List.mem_cons, List.not_mem_nil, or_false] at hlabel
      rcases hlabel with rfl | rfl | rfl | rfl | rfl | rfl <;>
        exact ⟨trivial, by simp⟩
    · intro cycle
      by_cases heq : cycle = 0
      · rw [hrun, Option.map_some, Option.some.injEq] at hmiddle
        rw [heq, hmiddle]
        simp [CycleProgress.Running]
      · refine not_running_of_not_mem hrun ?_ (by simp [failsOnce, heq])
        simp [State.initial, CycleProgress.Running]
    · simp
    · apply StepsMeet.of_forall_mem
      intro label hlabel state
      simp only [List.mem_cons, List.not_mem_nil, or_false] at hlabel
      rcases hlabel with rfl | rfl | rfl | rfl | rfl <;>
        exact ⟨trivial, by simp⟩
  have hidle : ∀ cycle, ¬ (state.cycles cycle).Running := by
    intro cycle
    by_cases hzero : cycle = 0
    · rw [hzero, hfirst]
      simp [CycleProgress.Running]
    · by_cases hone : cycle = 1
      · rw [hone, hsecond]
        simp [CycleProgress.Running]
      · refine not_running_of_not_mem hrun ?_
          (by simp [failsOnce, succeedsLater, hzero, hone])
        simp [State.initial, CycleProgress.Running]
  obtain ⟨hdiscipline, hmetrics⟩ := retryDiscipline_of_oneAfterAnother {} 0
    (some {}) _ state hrun hmeet
  obtain ⟨after, hafter, hpublished, hfailed⟩ := hmetrics hidle {} rfl
  rw [hlog] at hpublished hfailed
  exact ⟨state, hrun, hlog, hdiscipline, after, hafter, hpublished, hfailed⟩

end TsCommons.Outbox
