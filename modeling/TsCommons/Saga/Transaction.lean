import TsCommons.Foundations.Execution
import Mathlib.Algebra.Order.Ring.Rat
import Mathlib.Logic.Function.Basic

/-!
# The saga transaction

One `SagaTransaction` and the calls made on it.  A call of `step` awaits its
action, and a call of `rollback` awaits one compensation after another; what
others call meanwhile is handled between two awaits.  Every call of `step`
takes the reading of `Date.now()` it makes as an argument, and the answers of
actions and compensations are labels.
-/

namespace TsCommons.Saga

open Foundations

inductive SagaStatus
  | pending
  | running
  | committed
  | compensating
  | compensated
  | failed
deriving DecidableEq, Repr

def SagaStatus.text : SagaStatus → String
  | .pending => "pending"
  | .running => "running"
  | .committed => "committed"
  | .compensating => "compensating"
  | .compensated => "compensated"
  | .failed => "failed"

/-- Why a call of `step` rejects before it runs its action. -/
inductive Refusal
  | sagaStepError (status : SagaStatus)
  | sagaTimeoutError (timeoutMs : ℚ)
deriving DecidableEq

/-- `numberText` is how a number reads in a template string. -/
def Refusal.message (numberText : ℚ → String) : Refusal → String
  | .sagaStepError status =>
      "Cannot add step to saga in status: " ++ status.text
  | .sagaTimeoutError timeoutMs =>
      "Saga timed out after " ++ numberText timeoutMs ++ "ms"

/-- The closure `() => compensation(result)` is the compensation that `call`
was given, and the result it is bound to. -/
structure SagaStepRecord (V : Type) where
  name : String
  call : ℕ
  result : V
deriving DecidableEq

def SagaStepRecord.bound {V : Type} (record : SagaStepRecord V) : ℕ × V :=
  (record.call, record.result)

/-- Where a call stands: `step` before its action has answered, `rollback`
before a compensation has answered, with the records behind it, or `rollback`
before its last assignment. -/
inductive CallProgress (V : Type)
  | notStarted
  | acting (name : String)
  | compensating (rest : List (SagaStepRecord V))
  | finishing
  | settled
deriving DecidableEq

/-- A call gets the number of calls begun before it. -/
inductive Label (V Err : Type)
  | step (name : String) (now : ℚ)
  | actionSettles (call : ℕ) (outcome : Except Err V)
  | commit
  | rollback
  | compensationSettles (call : ℕ) (outcome : Except Err Unit)
  | resume (call : ℕ)

/-- What a transaction does, and what its calls answer. -/
inductive Effect (V Err : Type)
  | statusSet (old new : SagaStatus)
  | refused (call : ℕ) (refusal : Refusal)
  | actionRun (call : ℕ)
  | resolved (call : ℕ) (result : V)
  | threw (call : ℕ) (error : Err)
  | compensationRun (call : ℕ) (result : V)
deriving DecidableEq

/-- `begun`, `calls` and `log`, newest first, are history. -/
structure State (V Err : Type) where
  startedAt : ℚ
  timeoutMs : Option ℚ
  completedSteps : List (SagaStepRecord V)
  status : SagaStatus
  begun : ℕ
  calls : ℕ → CallProgress V
  log : List (Effect V Err)

variable {V Err : Type}

namespace State

def initial (startedAt : ℚ) (timeoutMs : Option ℚ) : State V Err where
  startedAt := startedAt
  timeoutMs := timeoutMs
  completedSteps := []
  status := .running
  begun := 0
  calls := fun _ => .notStarted
  log := []

def stepCount (state : State V Err) : ℕ :=
  state.completedSteps.length

def record (state : State V Err) (effect : Effect V Err) : State V Err :=
  { state with log := effect :: state.log }

def setStatus (state : State V Err) (status : SagaStatus) : State V Err :=
  { state.record (.statusSet state.status status) with status := status }

def advance (state : State V Err) (call : ℕ) (progress : CallProgress V) :
    State V Err :=
  { state with calls := Function.update state.calls call progress }

def begin (state : State V Err) (progress : CallProgress V) : State V Err :=
  { state.advance state.begun progress with begun := state.begun + 1 }

/-- The timeout, if it has elapsed. -/
def timedOut (state : State V Err) (now : ℚ) : Option ℚ :=
  state.timeoutMs.filter fun timeout => timeout < now - state.startedAt

/-- Why `step` rejects without running its action, if it does. -/
def refusal (state : State V Err) (now : ℚ) : Option Refusal :=
  if state.status ≠ .running then some (.sagaStepError state.status)
  else (state.timedOut now).map .sagaTimeoutError

def refuse (state : State V Err) (refusal : Refusal) : State V Err :=
  (state.begin .settled).record (.refused state.begun refusal)

def act (state : State V Err) (name : String) : State V Err :=
  (state.begin (.acting name)).record (.actionRun state.begun)

def callStep (state : State V Err) (name : String) (now : ℚ) : State V Err :=
  match state.refusal now with
  | some refusal => state.refuse refusal
  | none => state.act name

def actionSettles (state : State V Err) (call : ℕ) (name : String) :
    Except Err V → State V Err
  | .ok result =>
      { (state.advance call .settled).record (.resolved call result) with
        completedSteps :=
          state.completedSteps ++ [{ name, call, result }] }
  | .error error =>
      (state.advance call .settled).record (.threw call error)

def commit (state : State V Err) : State V Err :=
  state.setStatus .committed

/-- The loop over the records that are still to be compensated, up to its
next `await`. -/
def runCompensations (state : State V Err) (call : ℕ) :
    List (SagaStepRecord V) → State V Err
  | [] => state.advance call .finishing
  | step :: rest =>
      (state.advance call (.compensating rest)).record
        (.compensationRun step.call step.result)

def rollback (state : State V Err) : State V Err :=
  ((state.setStatus .compensating).begin .finishing).runCompensations
    state.begun state.completedSteps.reverse

/-- The `catch` block is empty. -/
def compensationSettles (state : State V Err) (call : ℕ)
    (rest : List (SagaStepRecord V)) : Except Err Unit → State V Err
  | .ok () => state.runCompensations call rest
  | .error _ => state.runCompensations call rest

def finishRollback (state : State V Err) (call : ℕ) : State V Err :=
  (state.advance call .settled).setStatus .compensated

end State

def step (state : State V Err) : Label V Err → Option (State V Err)
  | .step name now => some (state.callStep name now)
  | .actionSettles call outcome =>
      match state.calls call with
      | .acting name => some (state.actionSettles call name outcome)
      | _ => none
  | .commit => some state.commit
  | .rollback => some state.rollback
  | .compensationSettles call outcome =>
      match state.calls call with
      | .compensating rest =>
          some (state.compensationSettles call rest outcome)
      | _ => none
  | .resume call =>
      match state.calls call with
      | .finishing => some (state.finishRollback call)
      | _ => none

theorem calls_advance_self (state : State V Err) (call : ℕ)
    (progress : CallProgress V) :
    (state.advance call progress).calls call = progress := by
  simp [State.advance]

theorem calls_advance_of_ne {state : State V Err} {call other : ℕ}
    (progress : CallProgress V) (hother : other ≠ call) :
    (state.advance call progress).calls other = state.calls other := by
  simp [State.advance, hother]

/-! ## What the log says -/

namespace Effect

def resolvedStep : Effect V Err → Option (ℕ × V)
  | .resolved call result => some (call, result)
  | _ => none

def compensation : Effect V Err → Option (ℕ × V)
  | .compensationRun call result => some (call, result)
  | _ => none

end Effect

/-- The calls whose action has resolved, each with what it returned, in the
order of their completion. -/
def resolvedSteps (log : List (Effect V Err)) : List (ℕ × V) :=
  (log.filterMap Effect.resolvedStep).reverse

/-- The compensations invoked, each by the call it was given to and with the
value it was given, in the order of their invocation. -/
def compensations (log : List (Effect V Err)) : List (ℕ × V) :=
  (log.filterMap Effect.compensation).reverse

@[simp] theorem resolvedSteps_nil :
    resolvedSteps ([] : List (Effect V Err)) = [] := rfl

@[simp] theorem resolvedSteps_cons (effect : Effect V Err)
    (log : List (Effect V Err)) :
    resolvedSteps (effect :: log) =
      resolvedSteps log ++ effect.resolvedStep.toList := by
  cases hstep : effect.resolvedStep <;> simp [resolvedSteps, hstep]

@[simp] theorem resolvedSteps_append (later earlier : List (Effect V Err)) :
    resolvedSteps (later ++ earlier) =
      resolvedSteps earlier ++ resolvedSteps later := by
  simp [resolvedSteps]

@[simp] theorem compensations_nil :
    compensations ([] : List (Effect V Err)) = [] := rfl

@[simp] theorem compensations_cons (effect : Effect V Err)
    (log : List (Effect V Err)) :
    compensations (effect :: log) =
      compensations log ++ effect.compensation.toList := by
  cases hstep : effect.compensation <;> simp [compensations, hstep]

@[simp] theorem compensations_append (later earlier : List (Effect V Err)) :
    compensations (later ++ earlier) =
      compensations earlier ++ compensations later := by
  simp [compensations]

end TsCommons.Saga
