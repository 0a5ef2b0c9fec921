import TsCommons.Saga.Transaction

/-!
# Calls awaited one after another

A caller that awaits every call before it makes the next one leaves a
transaction one run for each call: the beginning of the call and then the
answers it waits for.  What such a call does is a function of the state it
finds; how the compensations settle has no part in it.
-/

namespace TsCommons.Saga

open Foundations

structure StepCall (V Err : Type) where
  name : String
  now : ℚ
  outcome : Except Err V

inductive AwaitedCall (V Err : Type)
  | step (call : StepCall V Err)
  | commit
  | rollback (settles : SagaStepRecord V → Except Err Unit)

variable {V Err : Type} {state next : State V Err}

/-- The labels of a call that nothing interrupts. -/
def AwaitedCall.labels (state : State V Err) :
    AwaitedCall V Err → List (Label V Err)
  | .step call =>
      .step call.name call.now ::
        match state.refusal call.now with
        | some _ => []
        | none => [.actionSettles state.begun call.outcome]
  | .commit => [.commit]
  | .rollback settles =>
      .rollback :: ((state.completedSteps.reverse.map fun record =>
        .compensationSettles state.begun (settles record)) ++
          [.resume state.begun])

def awaited (state : State V Err) (call : AwaitedCall V Err) :
    Option (State V Err) :=
  exec step state (call.labels state)

namespace State

def stepAwaited (state : State V Err) (call : StepCall V Err) : State V Err :=
  match state.refusal call.now with
  | some refusal => state.refuse refusal
  | none =>
      (state.act call.name).actionSettles state.begun call.name call.outcome

def compensated (state : State V Err) (call : ℕ)
    (records : List (SagaStepRecord V)) : State V Err :=
  { state.advance call .settled with
    status := .compensated
    log := .statusSet state.status .compensated ::
      ((records.map fun record =>
        .compensationRun record.call record.result).reverse ++ state.log) }

def rolledBack (state : State V Err) : State V Err :=
  ((state.setStatus .compensating).begin .finishing).compensated
    state.begun state.completedSteps.reverse

def afterCall (state : State V Err) : AwaitedCall V Err → State V Err
  | .step call => state.stepAwaited call
  | .commit => state.commit
  | .rollback _ => state.rolledBack

end State

theorem runCompensations_calls_nil (state : State V Err) (call : ℕ) :
    (state.runCompensations call []).calls call = .finishing :=
  calls_advance_self state call .finishing

theorem runCompensations_calls_cons (state : State V Err) (call : ℕ)
    (record : SagaStepRecord V) (rest : List (SagaStepRecord V)) :
    (state.runCompensations call (record :: rest)).calls call =
      .compensating rest :=
  calls_advance_self state call (.compensating rest)

theorem compensationSettles_eq (state : State V Err) (call : ℕ)
    (rest : List (SagaStepRecord V)) (outcome : Except Err Unit) :
    state.compensationSettles call rest outcome =
      state.runCompensations call rest := by
  cases outcome <;> rfl

/-- The loop runs to its end, however the compensations settle. -/
theorem exec_compensations (settles : SagaStepRecord V → Except Err Unit)
    (call : ℕ) (records : List (SagaStepRecord V)) (state : State V Err) :
    exec step (state.runCompensations call records)
      ((records.map fun record =>
        .compensationSettles call (settles record)) ++ [.resume call]) =
      some (state.compensated call records) := by
  induction records generalizing state with
  | nil =>
      rw [List.map_nil, List.nil_append, exec_singleton_eq_some, step,
        runCompensations_calls_nil]
      simp [State.runCompensations, State.finishRollback, State.compensated,
        State.setStatus, State.record, State.advance]
  | cons record rest ih =>
      rw [List.map_cons, List.cons_append, exec_cons_eq_some]
      refine ⟨_, ?_, ih ((state.advance call (.compensating rest)).record
        (.compensationRun record.call record.result)) |>.trans ?_⟩
      · rw [step, runCompensations_calls_cons]
        simp only [compensationSettles_eq]
        rfl
      · simp [State.compensated, State.record, State.advance]

theorem awaited_eq_some (state : State V Err) (call : AwaitedCall V Err) :
    awaited state call = some (state.afterCall call) := by
  cases call with
  | step call =>
      cases hrefusal : state.refusal call.now with
      | some refusal =>
          simp [awaited, AwaitedCall.labels, exec, step, State.callStep,
            State.afterCall, State.stepAwaited, hrefusal]
      | none =>
          have hacting : (state.act call.name).calls state.begun =
              .acting call.name :=
            calls_advance_self state state.begun (.acting call.name)
          simp [awaited, AwaitedCall.labels, exec, step, State.callStep,
            State.afterCall, State.stepAwaited, hrefusal, hacting]
  | commit => rfl
  | rollback settles =>
      rw [awaited, AwaitedCall.labels, exec_cons_eq_some]
      exact ⟨state.rollback, rfl, exec_compensations settles state.begun _ _⟩

theorem exec_awaited (state : State V Err)
    (calls : List (AwaitedCall V Err)) :
    exec awaited state calls = some (calls.foldl State.afterCall state) :=
  exec_eq_foldl awaited_eq_some state calls

/-- Awaited calls are a run of the transaction. -/
theorem exists_exec_of_awaited (calls : List (AwaitedCall V Err))
    (state : State V Err) :
    ∃ labels, exec step state labels =
      some (calls.foldl State.afterCall state) := by
  induction calls generalizing state with
  | nil => exact ⟨[], rfl⟩
  | cons call rest ih =>
      obtain ⟨labels, hrest⟩ := ih (state.afterCall call)
      exact ⟨call.labels state ++ labels, exec_append_eq_some.mpr
        ⟨_, awaited_eq_some state call, hrest⟩⟩

end TsCommons.Saga
