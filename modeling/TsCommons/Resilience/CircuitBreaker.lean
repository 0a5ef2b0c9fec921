import TsCommons.Foundations.Execution
import Mathlib.Algebra.Order.Ring.Rat
import Mathlib.Logic.Function.Basic

/-!
# The circuit breaker

One `CircuitBreaker` and the calls of `execute` made on it.  A call awaits the
function it was given; what others call meanwhile is handled before the
function answers.  `Date.now()` reads the clock of the state.
-/

namespace TsCommons.Resilience.CircuitBreaker

open Foundations

inductive CircuitBreakerState
  | closed
  | opened
  | halfOpen
deriving DecidableEq, Repr

def CircuitBreakerState.text : CircuitBreakerState → String
  | .closed => "CLOSED"
  | .opened => "OPEN"
  | .halfOpen => "HALF_OPEN"

/-- What a call of `execute` rejects with. -/
inductive Rejection (Err : Type)
  | circuitBreakerOpenError
  | thrown (error : Err)
deriving DecidableEq

def Rejection.message {Err : Type} (text : Err → String) :
    Rejection Err → String
  | .circuitBreakerOpenError => "Circuit breaker is open"
  | .thrown error => text error

inductive CallProgress
  | notStarted
  | invoking
  | settled
deriving DecidableEq

/-- A call gets the number of calls begun before it. -/
inductive Label (V Err : Type)
  | advance (now : ℚ)
  | execute
  | fnSettles (call : ℕ) (outcome : Except Err V)

/-- What the breaker does, and what its calls answer.  A failure is recorded
with its time and with the state it leaves the breaker in. -/
inductive Effect (V Err : Type)
  | invoked (call : ℕ) (time : ℚ)
  | resolved (call : ℕ) (result : V)
  | failed (call : ℕ) (error : Err) (time : ℚ) (state : CircuitBreakerState)
  | rejected (call : ℕ) (reason : Rejection Err)
deriving DecidableEq

/-- `begun`, `calls` and `log`, newest first, are history. -/
structure State (V Err : Type) where
  failureThreshold : ℚ
  resetTimeoutMs : ℚ
  state : CircuitBreakerState
  failures : ℕ
  lastFailureTime : Option ℚ
  clock : ℚ
  begun : ℕ
  calls : ℕ → CallProgress
  log : List (Effect V Err)

variable {V Err : Type}

namespace State

def initial (failureThreshold resetTimeoutMs clock : ℚ) : State V Err where
  failureThreshold := failureThreshold
  resetTimeoutMs := resetTimeoutMs
  state := .closed
  failures := 0
  lastFailureTime := none
  clock := clock
  begun := 0
  calls := fun _ => .notStarted
  log := []

def record (breaker : State V Err) (effect : Effect V Err) : State V Err :=
  { breaker with log := effect :: breaker.log }

def setCall (breaker : State V Err) (call : ℕ) (progress : CallProgress) :
    State V Err :=
  { breaker with calls := Function.update breaker.calls call progress }

/-- The function of a call that the breaker lets through. -/
def invoke (breaker : State V Err) : State V Err :=
  { (breaker.setCall breaker.begun .invoking).record
      (.invoked breaker.begun breaker.clock) with
    begun := breaker.begun + 1 }

def reject (breaker : State V Err) : State V Err :=
  { (breaker.setCall breaker.begun .settled).record
      (.rejected breaker.begun .circuitBreakerOpenError) with
    begun := breaker.begun + 1 }

def ResetElapsed (breaker : State V Err) : Prop :=
  breaker.clock - breaker.lastFailureTime.getD 0 > breaker.resetTimeoutMs

instance (breaker : State V Err) : Decidable breaker.ResetElapsed :=
  inferInstanceAs (Decidable (_ > _))

def execute (breaker : State V Err) : State V Err :=
  if breaker.state = .opened then
    if breaker.ResetElapsed then { breaker with state := .halfOpen }.invoke
    else breaker.reject
  else breaker.invoke

def onSuccess (breaker : State V Err) : State V Err :=
  { breaker with failures := 0, state := .closed }

def onFailure (breaker : State V Err) : State V Err :=
  { breaker with
    failures := breaker.failures + 1
    lastFailureTime := some breaker.clock
    state :=
      if breaker.failureThreshold ≤ (breaker.failures + 1 : ℕ) then .opened
      else breaker.state }

def fnSettles (breaker : State V Err) (call : ℕ) :
    Except Err V → State V Err
  | .ok result =>
      (breaker.onSuccess.setCall call .settled).record (.resolved call result)
  | .error error =>
      ((breaker.onFailure.setCall call .settled).record
        (.failed call error breaker.clock breaker.onFailure.state)).record
        (.rejected call (.thrown error))

end State

def step (breaker : State V Err) : Label V Err → Option (State V Err)
  | .advance now =>
      if breaker.clock ≤ now then some { breaker with clock := now } else none
  | .execute => some breaker.execute
  | .fnSettles call outcome =>
      if breaker.calls call = .invoking then
        some (breaker.fnSettles call outcome)
      else none

variable {breaker next : State V Err}

/-- What a step can be. -/
theorem step_cases {label : Label V Err}
    (hstep : step breaker label = some next) :
    (∃ now, label = .advance now ∧ breaker.clock ≤ now ∧
      next = { breaker with clock := now }) ∨
    (label = .execute ∧
      (breaker.state = .opened ∧ breaker.ResetElapsed ∧
          next = { breaker with state := .halfOpen }.invoke ∨
        breaker.state = .opened ∧ ¬ breaker.ResetElapsed ∧
          next = breaker.reject ∨
        breaker.state ≠ .opened ∧ next = breaker.invoke)) ∨
    (∃ call result, label = .fnSettles call (.ok result) ∧
      breaker.calls call = .invoking ∧
      next = breaker.fnSettles call (.ok result)) ∨
    ∃ call error, label = .fnSettles call (.error error) ∧
      breaker.calls call = .invoking ∧
      next = breaker.fnSettles call (.error error) := by
  cases label with
  | advance now =>
      left
      simp only [step, Option.ite_none_right_eq_some,
        Option.some.injEq] at hstep
      exact ⟨now, rfl, hstep.1, hstep.2.symm⟩
  | execute =>
      right
      left
      simp only [step, Option.some.injEq] at hstep
      subst next
      unfold State.execute
      by_cases hopened : breaker.state = .opened
      · by_cases helapsed : breaker.ResetElapsed
        · simp [hopened, helapsed]
        · simp [hopened, helapsed]
      · simp [hopened]
  | fnSettles call outcome =>
      simp only [step, Option.ite_none_right_eq_some,
        Option.some.injEq] at hstep
      obtain ⟨hcall, rfl⟩ := hstep
      right
      right
      cases outcome with
      | ok result =>
          left
          exact ⟨call, result, rfl, hcall, rfl⟩
      | error error =>
          right
          exact ⟨call, error, rfl, hcall, rfl⟩

/-! ## Counting failures -/

namespace Effect

def isSuccess : Effect V Err → Bool
  | .resolved _ _ => true
  | _ => false

def isFailure : Effect V Err → Bool
  | .failed _ _ _ _ => true
  | _ => false

end Effect

/-- The failures that have completed since the last success. -/
def failuresSinceSuccess (log : List (Effect V Err)) : ℕ :=
  (log.takeWhile fun effect => !effect.isSuccess).countP Effect.isFailure

@[simp] theorem failuresSinceSuccess_invoked (call : ℕ) (time : ℚ)
    (log : List (Effect V Err)) :
    failuresSinceSuccess (.invoked call time :: log) =
      failuresSinceSuccess log := by
  simp [failuresSinceSuccess, Effect.isSuccess, Effect.isFailure]

@[simp] theorem failuresSinceSuccess_rejected (call : ℕ)
    (reason : Rejection Err) (log : List (Effect V Err)) :
    failuresSinceSuccess (.rejected call reason :: log) =
      failuresSinceSuccess log := by
  simp [failuresSinceSuccess, Effect.isSuccess, Effect.isFailure]

@[simp] theorem failuresSinceSuccess_resolved (call : ℕ) (result : V)
    (log : List (Effect V Err)) :
    failuresSinceSuccess (.resolved call result :: log) = 0 := by
  simp [failuresSinceSuccess, Effect.isSuccess]

@[simp] theorem failuresSinceSuccess_failed (call : ℕ) (error : Err)
    (time : ℚ) (state : CircuitBreakerState) (log : List (Effect V Err)) :
    failuresSinceSuccess (.failed call error time state :: log) =
      failuresSinceSuccess log + 1 := by
  unfold failuresSinceSuccess
  rw [List.takeWhile_cons_of_pos rfl, List.countP_cons_of_pos rfl]

/-- The counter counts, and the breaker is closed below the threshold. -/
structure CountingInvariant (failureThreshold : ℚ) (breaker : State V Err) :
    Prop where
  threshold : breaker.failureThreshold = failureThreshold
  failures : breaker.failures = failuresSinceSuccess breaker.log
  closed : breaker.state = .closed ↔
    (breaker.failures : ℚ) < failureThreshold

theorem countingInvariant_initial {failureThreshold : ℚ}
    (hthreshold : 1 ≤ failureThreshold) (resetTimeoutMs clock : ℚ) :
    CountingInvariant failureThreshold
      (State.initial failureThreshold resetTimeoutMs clock :
        State V Err) := by
  have hpos : (0 : ℚ) < failureThreshold := zero_lt_one.trans_le hthreshold
  constructor
  · rfl
  · rfl
  · simpa [State.initial] using hpos

namespace CountingInvariant

variable {failureThreshold : ℚ}

theorem invoke (hinv : CountingInvariant failureThreshold breaker) :
    CountingInvariant failureThreshold breaker.invoke := by
  refine ⟨hinv.threshold, ?_, hinv.closed⟩
  simpa [State.invoke, State.setCall, State.record] using hinv.failures

theorem reject (hinv : CountingInvariant failureThreshold breaker) :
    CountingInvariant failureThreshold breaker.reject := by
  refine ⟨hinv.threshold, ?_, hinv.closed⟩
  simpa [State.reject, State.setCall, State.record] using hinv.failures

theorem halfOpen (hinv : CountingInvariant failureThreshold breaker)
    (hopened : breaker.state = .opened) :
    CountingInvariant failureThreshold
      { breaker with state := .halfOpen } := by
  refine ⟨hinv.threshold, hinv.failures, ?_⟩
  have hclosed := hinv.closed
  rw [hopened] at hclosed
  simpa using hclosed

theorem succeeds (hinv : CountingInvariant failureThreshold breaker)
    (hthreshold : 1 ≤ failureThreshold) (call : ℕ) (result : V) :
    CountingInvariant failureThreshold
      (breaker.fnSettles call (.ok result)) := by
  have hpos : (0 : ℚ) < failureThreshold := zero_lt_one.trans_le hthreshold
  constructor
  · exact hinv.threshold
  · simp [State.fnSettles, State.record, State.setCall, State.onSuccess]
  · simpa [State.fnSettles, State.record, State.setCall, State.onSuccess]
      using hpos

theorem fails (hinv : CountingInvariant failureThreshold breaker)
    (call : ℕ) (error : Err) :
    CountingInvariant failureThreshold
      (breaker.fnSettles call (.error error)) := by
  constructor
  · exact hinv.threshold
  · simp [State.fnSettles, State.record, State.setCall, State.onFailure,
      hinv.failures]
  · have hsucc : (breaker.failures : ℚ) < (breaker.failures + 1 : ℕ) := by
      exact_mod_cast Nat.lt_succ_self _
    have hstate : (breaker.fnSettles call (.error error)).state =
        if failureThreshold ≤ (breaker.failures + 1 : ℕ) then .opened
        else breaker.state := by
      rw [← hinv.threshold]
      rfl
    have hfailures : (breaker.fnSettles call (.error error)).failures =
        breaker.failures + 1 := rfl
    rw [hstate, hfailures]
    by_cases hreached : failureThreshold ≤ (breaker.failures + 1 : ℕ)
    · rw [if_pos hreached]
      simpa using hreached
    · have hbelow : ((breaker.failures + 1 : ℕ) : ℚ) < failureThreshold :=
        not_le.mp hreached
      rw [if_neg hreached]
      simp only [hbelow, iff_true]
      exact hinv.closed.mpr (hsucc.trans hbelow)

theorem step (hinv : CountingInvariant failureThreshold breaker)
    (hthreshold : 1 ≤ failureThreshold) {label : Label V Err}
    (hstep : CircuitBreaker.step breaker label = some next) :
    CountingInvariant failureThreshold next := by
  rcases step_cases hstep with ⟨now, -, -, rfl⟩ |
    ⟨-, ⟨hopened, -, rfl⟩ | ⟨-, -, rfl⟩ | ⟨-, rfl⟩⟩ |
    ⟨call, result, -, -, rfl⟩ | ⟨call, error, -, -, rfl⟩
  · exact ⟨hinv.threshold, hinv.failures, hinv.closed⟩
  · exact (hinv.halfOpen hopened).invoke
  · exact hinv.reject
  · exact hinv.invoke
  · exact hinv.succeeds hthreshold call result
  · exact hinv.fails call error

end CountingInvariant

theorem countingInvariant_of_exec {failureThreshold resetTimeoutMs clock : ℚ}
    (hthreshold : 1 ≤ failureThreshold) {labels : List (Label V Err)}
    (hrun : exec step (State.initial failureThreshold resetTimeoutMs clock)
      labels = some breaker) :
    CountingInvariant failureThreshold breaker :=
  exec_invariant (fun _ _ _ hinv hstep => hinv.step hthreshold hstep)
    (countingInvariant_initial hthreshold resetTimeoutMs clock) hrun

/-- However calls start and complete, the breaker is closed exactly when fewer
than `failureThreshold` failures have completed since the last success.  So a
failure that finds it half-open opens it again and restarts the reset timer,
and every success closes it with the count at zero. -/
theorem closed_iff_failuresSinceSuccess_lt
    {failureThreshold resetTimeoutMs clock : ℚ}
    (hthreshold : 1 ≤ failureThreshold) {labels : List (Label V Err)}
    (hrun : exec step (State.initial failureThreshold resetTimeoutMs clock)
      labels = some breaker) :
    (breaker.state = .closed ↔
      (failuresSinceSuccess breaker.log : ℚ) < failureThreshold) ∧
    (∀ call error next,
      step breaker (.fnSettles call (.error error)) = some next →
      breaker.state = .halfOpen →
        next.state = .opened ∧ next.lastFailureTime = some breaker.clock) ∧
    ∀ call result next,
      step breaker (.fnSettles call (.ok result)) = some next →
        next.state = .closed ∧ next.failures = 0 := by
  have hinv := countingInvariant_of_exec hthreshold hrun
  refine ⟨?_, fun call error next hstep hhalfOpen => ?_,
    fun call result next hstep => ?_⟩
  · rw [← hinv.failures]
    exact hinv.closed
  · have hreached : failureThreshold ≤ (breaker.failures + 1 : ℕ) := by
      have hclosed := hinv.closed
      rw [hhalfOpen] at hclosed
      have hle : failureThreshold ≤ (breaker.failures : ℚ) := by
        simpa using hclosed
      apply hle.trans
      exact_mod_cast Nat.le_succ _
    simp only [step, Option.ite_none_right_eq_some,
      Option.some.injEq] at hstep
    obtain ⟨-, rfl⟩ := hstep
    constructor
    · have hthreshold := hinv.threshold
      subst failureThreshold
      exact if_pos hreached
    · rfl
  · simp only [step, Option.ite_none_right_eq_some,
      Option.some.injEq] at hstep
    obtain ⟨-, rfl⟩ := hstep
    exact ⟨rfl, rfl⟩

/-- Two failures open the breaker, and after the reset timeout a call finds it
half-open. -/
def failTwice : List (Label ℕ String) :=
  [.execute, .execute, .fnSettles 0 (.error "down"),
    .fnSettles 1 (.error "down"), .advance 101, .execute]

theorem closed_iff_failuresSinceSuccess_lt_failTwice :
    ∃ breaker, exec step (State.initial 2 100 0) failTwice = some breaker ∧
      breaker.state = .halfOpen ∧
      ¬ (failuresSinceSuccess breaker.log : ℚ) < 2 := by
  have hends : ∃ breaker,
      exec step (State.initial 2 100 0) failTwice = some breaker ∧
        breaker.state = .halfOpen := by
    refine ⟨_, rfl, ?_⟩
    decide +kernel
  obtain ⟨breaker, hrun, hhalfOpen⟩ := hends
  have hclosed := (closed_iff_failuresSinceSuccess_lt one_le_two hrun).1
  refine ⟨breaker, hrun, hhalfOpen, fun hlt => ?_⟩
  rw [hclosed.mpr hlt] at hhalfOpen
  cases hhalfOpen

end TsCommons.Resilience.CircuitBreaker
