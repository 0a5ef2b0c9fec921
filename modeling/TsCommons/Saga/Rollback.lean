import TsCommons.Saga.Sequential
import Mathlib.Data.List.Nodup

/-!
# Rollback compensates what has completed

Whatever is called on a transaction, and whatever is called meanwhile, its
records are the steps whose action has resolved, each once and bound to the
value of its own action.  A rollback that nothing interrupts walks through
them backwards.
-/

namespace TsCommons.Saga

open Foundations

variable {V Err : Type} {state next : State V Err}

/-! ## The records -/

structure RecordsInvariant (state : State V Err) : Prop where
  bound : state.completedSteps.map SagaStepRecord.bound =
    resolvedSteps state.log
  settled : ∀ record ∈ state.completedSteps,
    state.calls record.call = .settled
  nodup : (state.completedSteps.map SagaStepRecord.call).Nodup
  fresh : ∀ call, state.begun ≤ call → state.calls call = .notStarted

theorem recordsInvariant_initial (startedAt : ℚ) (timeoutMs : Option ℚ) :
    RecordsInvariant (State.initial startedAt timeoutMs : State V Err) := by
  constructor <;> simp [State.initial]

namespace RecordsInvariant

theorem record (hinv : RecordsInvariant state) {effect : Effect V Err}
    (heffect : effect.resolvedStep = none) :
    RecordsInvariant (state.record effect) := by
  refine ⟨?_, hinv.settled, hinv.nodup, hinv.fresh⟩
  simpa [State.record, heffect] using hinv.bound

theorem setStatus (hinv : RecordsInvariant state) (status : SagaStatus) :
    RecordsInvariant (state.setStatus status) := by
  have hrecord : RecordsInvariant
      (state.record (.statusSet state.status status)) := hinv.record rfl
  exact ⟨hrecord.bound, hrecord.settled, hrecord.nodup, hrecord.fresh⟩

theorem advance (hinv : RecordsInvariant state) {call : ℕ}
    {progress : CallProgress V} (hstarted : state.calls call ≠ .notStarted)
    (hsettled : state.calls call ≠ .settled) :
    RecordsInvariant (state.advance call progress) := by
  constructor
  · exact hinv.bound
  · intro record hmem
    have hother : record.call ≠ call := by
      rintro rfl
      exact hsettled (hinv.settled record hmem)
    rw [calls_advance_of_ne progress hother]
    exact hinv.settled record hmem
  · exact hinv.nodup
  · intro other hle
    have hother : other ≠ call := by
      rintro rfl
      exact hstarted (hinv.fresh other hle)
    rw [calls_advance_of_ne progress hother]
    exact hinv.fresh other hle

theorem begin (hinv : RecordsInvariant state) (progress : CallProgress V) :
    RecordsInvariant (state.begin progress) := by
  constructor
  · exact hinv.bound
  · intro record hmem
    have hother : record.call ≠ state.begun := by
      intro heq
      have hsettled := hinv.settled record hmem
      rw [heq, hinv.fresh state.begun le_rfl] at hsettled
      simp at hsettled
    exact (calls_advance_of_ne progress hother).trans
      (hinv.settled record hmem)
  · exact hinv.nodup
  · intro other hle
    have hother : other ≠ state.begun := by
      rintro rfl
      exact absurd hle (Nat.not_succ_le_self _)
    have hbegun : state.begun ≤ other := Nat.le_of_succ_le hle
    exact (calls_advance_of_ne progress hother).trans
      (hinv.fresh other hbegun)

theorem callStep (hinv : RecordsInvariant state) (name : String) (now : ℚ) :
    RecordsInvariant (state.callStep name now) := by
  rw [State.callStep]
  cases state.refusal now with
  | some refusal => exact (hinv.begin .settled).record rfl
  | none => exact (hinv.begin (.acting name)).record rfl

theorem actionSettles (hinv : RecordsInvariant state) {call : ℕ}
    {name : String} (hcall : state.calls call = .acting name)
    (outcome : Except Err V) :
    RecordsInvariant (state.actionSettles call name outcome) := by
  have hadvance : RecordsInvariant (state.advance call .settled) :=
    hinv.advance (by simp [hcall]) (by simp [hcall])
  cases outcome with
  | error error => exact hadvance.record rfl
  | ok result =>
      constructor
      · simp [State.actionSettles, State.record, State.advance,
          Effect.resolvedStep, SagaStepRecord.bound, ← hinv.bound]
      · intro record hmem
        rcases List.mem_append.mp hmem with hold | hnew
        · exact hadvance.settled record hold
        · rw [List.mem_singleton] at hnew
          rw [hnew]
          exact calls_advance_self state call .settled
      · have hnotMem : ∀ record ∈ state.completedSteps,
            record.call ≠ call := by
          intro record hmem heq
          have hsettled := hinv.settled record hmem
          rw [heq, hcall] at hsettled
          simp at hsettled
        simp only [State.actionSettles, List.map_append, List.map_cons,
          List.map_nil]
        refine List.nodup_append.mpr ⟨hinv.nodup, by simp, ?_⟩
        intro number hnumber other hother heq
        obtain ⟨record, hmem, rfl⟩ := List.mem_map.mp hnumber
        exact hnotMem record hmem (heq.trans (List.mem_singleton.mp hother))
      · exact hadvance.fresh

theorem runCompensations (hinv : RecordsInvariant state) {call : ℕ}
    (hstarted : state.calls call ≠ .notStarted)
    (hsettled : state.calls call ≠ .settled)
    (records : List (SagaStepRecord V)) :
    RecordsInvariant (state.runCompensations call records) := by
  cases records with
  | nil => exact hinv.advance hstarted hsettled
  | cons record rest => exact (hinv.advance hstarted hsettled).record rfl

theorem step (hinv : RecordsInvariant state) {label : Label V Err}
    (hstep : Saga.step state label = some next) : RecordsInvariant next := by
  cases label with
  | step name now =>
      cases hstep
      exact hinv.callStep name now
  | actionSettles call outcome =>
      cases hcall : state.calls call with
      | acting name =>
          simp only [Saga.step, hcall, Option.some.injEq] at hstep
          exact hstep ▸ hinv.actionSettles hcall outcome
      | _ => simp [Saga.step, hcall] at hstep
  | commit =>
      cases hstep
      exact hinv.setStatus .committed
  | rollback =>
      cases hstep
      have hfinishing : ((state.setStatus .compensating).begin
          .finishing).calls state.begun = .finishing :=
        calls_advance_self (state.setStatus .compensating) state.begun _
      exact ((hinv.setStatus .compensating).begin .finishing).runCompensations
        (by simp [hfinishing]) (by simp [hfinishing]) _
  | compensationSettles call outcome =>
      cases hcall : state.calls call with
      | compensating rest =>
          simp only [Saga.step, hcall, Option.some.injEq,
            compensationSettles_eq] at hstep
          exact hstep ▸ hinv.runCompensations (by simp [hcall])
            (by simp [hcall]) rest
      | _ => simp [Saga.step, hcall] at hstep
  | resume call =>
      cases hcall : state.calls call with
      | finishing =>
          simp only [Saga.step, hcall, Option.some.injEq] at hstep
          have hadvance : RecordsInvariant (state.advance call .settled) :=
            hinv.advance (by simp [hcall]) (by simp [hcall])
          exact hstep ▸ hadvance.setStatus .compensated
      | _ => simp [Saga.step, hcall] at hstep

theorem nodup_calls (hinv : RecordsInvariant state) :
    ((state.completedSteps.map SagaStepRecord.bound).reverse.map
      Prod.fst).Nodup := by
  have hcalls : (state.completedSteps.map SagaStepRecord.bound).map
      Prod.fst = state.completedSteps.map SagaStepRecord.call := by
    rw [List.map_map]
    rfl
  rw [List.map_reverse, hcalls]
  exact List.nodup_reverse.mpr hinv.nodup

theorem afterCall (hinv : RecordsInvariant state)
    (call : AwaitedCall V Err) : RecordsInvariant (state.afterCall call) :=
  exec_invariant (fun _ _ _ hinv hstep => hinv.step hstep) hinv
    (awaited_eq_some state call)

end RecordsInvariant

theorem recordsInvariant_of_exec {startedAt : ℚ} {timeoutMs : Option ℚ}
    {labels : List (Label V Err)}
    (hrun : exec step (State.initial startedAt timeoutMs) labels =
      some state) : RecordsInvariant state :=
  exec_invariant (fun _ _ _ hinv hstep => hinv.step hstep)
    (recordsInvariant_initial startedAt timeoutMs) hrun

theorem recordsInvariant_of_awaited (startedAt : ℚ) (timeoutMs : Option ℚ)
    (calls : List (AwaitedCall V Err)) :
    RecordsInvariant (calls.foldl State.afterCall
      (State.initial startedAt timeoutMs)) := by
  obtain ⟨labels, hrun⟩ := exists_exec_of_awaited calls
    (State.initial startedAt timeoutMs)
  exact recordsInvariant_of_exec hrun

/-! ## Steps, and then a rollback -/

/-- What the action of a call on a running transaction returns. -/
def StepCall.resolves (startedAt : ℚ) (timeoutMs : Option ℚ)
    (call : StepCall V Err) : Option V :=
  match timeoutMs.filter fun timeout => timeout < call.now - startedAt,
      call.outcome with
  | none, .ok result => some result
  | _, _ => none

/-- The calls that resolve, numbered from `first`. -/
def resolvedCalls (startedAt : ℚ) (timeoutMs : Option ℚ) (first : ℕ)
    (calls : List (StepCall V Err)) : List (ℕ × V) :=
  (calls.zipIdx first).filterMap fun numbered =>
    (numbered.1.resolves startedAt timeoutMs).map fun result =>
      (numbered.2, result)

/-- What `count` calls of `step` on a transaction that is not running leave in
the log. -/
def refusals (status : SagaStatus) (first count : ℕ) : List (Effect V Err) :=
  ((List.range' first count).map fun call =>
    .refused call (.sagaStepError status)).reverse

theorem refusals_succ (status : SagaStatus) (first count : ℕ) :
    (refusals status first (count + 1) : List (Effect V Err)) =
      refusals status (first + 1) count ++
        [.refused first (.sagaStepError status)] := by
  rw [refusals, List.range'_succ, List.map_cons, List.reverse_cons, refusals]

/-- What a call of `step` leaves as it is, and what it adds. -/
structure StepsFrom (state : State V Err) (calls : List (StepCall V Err))
    (found : State V Err) : Prop where
  status : found.status = .running
  startedAt : found.startedAt = state.startedAt
  timeoutMs : found.timeoutMs = state.timeoutMs
  begun : found.begun = state.begun + calls.length
  resolved : resolvedSteps found.log = resolvedSteps state.log ++
    resolvedCalls state.startedAt state.timeoutMs state.begun calls
  compensations : compensations found.log = compensations state.log

theorem stepsFrom_stepAwaited (hstatus : state.status = .running)
    (call : StepCall V Err) :
    StepsFrom state [call] (state.stepAwaited call) := by
  have hrefusal : state.refusal call.now =
      (state.timedOut call.now).map .sagaTimeoutError := by
    simp [State.refusal, hstatus]
  cases htimedOut : state.timedOut call.now with
  | some timeout =>
      have hresolves :
          call.resolves state.startedAt state.timeoutMs = none := by
        rw [State.timedOut] at htimedOut
        simp [StepCall.resolves, htimedOut]
      constructor <;>
        simp [State.stepAwaited, hrefusal, htimedOut, State.refuse,
          State.begin, State.advance, State.record, resolvedCalls, hresolves,
          hstatus, Effect.resolvedStep, Effect.compensation]
  | none =>
      rw [State.timedOut] at htimedOut
      cases houtcome : call.outcome with
      | error error =>
          constructor <;>
            simp [State.stepAwaited, hrefusal, State.timedOut, htimedOut,
              houtcome, State.act, State.actionSettles, State.begin,
              State.advance, State.record, resolvedCalls, StepCall.resolves,
              hstatus, Effect.resolvedStep, Effect.compensation]
      | ok result =>
          constructor <;>
            simp [State.stepAwaited, hrefusal, State.timedOut, htimedOut,
              houtcome, State.act, State.actionSettles, State.begin,
              State.advance, State.record, resolvedCalls, StepCall.resolves,
              hstatus, Effect.resolvedStep, Effect.compensation]

theorem stepsFrom_foldl (calls : List (StepCall V Err))
    (state : State V Err) (hstatus : state.status = .running) :
    StepsFrom state calls (calls.foldl State.stepAwaited state) := by
  induction calls generalizing state with
  | nil => constructor <;> simp [resolvedCalls, hstatus]
  | cons call rest ih =>
      have hone := stepsFrom_stepAwaited hstatus call
      have hrest := ih _ hone.status
      constructor
      · exact hrest.status
      · exact hrest.startedAt.trans hone.startedAt
      · exact hrest.timeoutMs.trans hone.timeoutMs
      · rw [List.foldl_cons, hrest.begun, hone.begun]
        simp only [List.length_cons, List.length_nil]
        omega
      · rw [List.foldl_cons, hrest.resolved, hone.resolved, hone.startedAt,
          hone.timeoutMs, hone.begun, List.append_assoc]
        congr 1
        rw [resolvedCalls, resolvedCalls, resolvedCalls, List.length_singleton,
          List.zipIdx_cons, List.zipIdx_cons, ← List.filterMap_append]
        rfl
      · exact hrest.compensations.trans hone.compensations

theorem stepAwaited_of_not_running (hstatus : state.status ≠ .running)
    (call : StepCall V Err) :
    state.stepAwaited call =
      state.refuse (.sagaStepError state.status) := by
  simp [State.stepAwaited, State.refusal, hstatus]

theorem log_foldl_of_not_running (calls : List (StepCall V Err))
    (state : State V Err) (hstatus : state.status ≠ .running) :
    (calls.foldl State.stepAwaited state).log =
      refusals state.status state.begun calls.length ++ state.log := by
  induction calls generalizing state with
  | nil => simp [refusals]
  | cons call rest ih =>
      rw [List.foldl_cons, stepAwaited_of_not_running hstatus,
        List.length_cons, refusals_succ, List.append_assoc]
      exact ih (state.refuse (.sagaStepError state.status)) hstatus

theorem status_foldl_of_not_running (calls : List (StepCall V Err))
    (state : State V Err) (hstatus : state.status ≠ .running) :
    (calls.foldl State.stepAwaited state).status = state.status := by
  induction calls generalizing state with
  | nil => rfl
  | cons call rest ih =>
      rw [List.foldl_cons, stepAwaited_of_not_running hstatus]
      exact ih (state.refuse (.sagaStepError state.status)) hstatus

theorem foldl_map_step (calls : List (StepCall V Err))
    (state : State V Err) :
    (calls.map AwaitedCall.step).foldl State.afterCall state =
      calls.foldl State.stepAwaited state := by
  rw [List.foldl_map]
  rfl

theorem log_rolledBack (state : State V Err) :
    state.rolledBack.log = .statusSet .compensating .compensated ::
      (state.completedSteps.map (fun record =>
        .compensationRun record.call record.result) ++
          .statusSet state.status .compensating :: state.log) := by
  simp [State.rolledBack, State.compensated, State.setStatus, State.begin,
    State.advance, State.record]

theorem compensations_map_compensationRun
    (records : List (SagaStepRecord V)) :
    compensations (records.map fun record =>
      (.compensationRun record.call record.result : Effect V Err)) =
        (records.map SagaStepRecord.bound).reverse := by
  have hbound : (Effect.compensation ∘ fun record =>
      (.compensationRun record.call record.result : Effect V Err)) =
        some ∘ SagaStepRecord.bound := rfl
  rw [compensations, List.filterMap_map, hbound, List.filterMap_eq_map]

/-- A rollback compensates what is recorded, backwards. -/
theorem compensations_rolledBack (state : State V Err) :
    compensations state.rolledBack.log =
      compensations state.log ++
        (state.completedSteps.map SagaStepRecord.bound).reverse := by
  rw [log_rolledBack, compensations_cons, compensations_append,
    compensations_map_compensationRun, compensations_cons]
  simp [Effect.compensation]

/-- After any calls of `step` a rollback compensates exactly the steps that
have resolved, each once, with its own value and in reverse, however the
compensations settle; and from then on `step` rejects. -/
theorem rollback_compensates_resolved (startedAt : ℚ) (timeoutMs : Option ℚ)
    (calls : List (StepCall V Err))
    (settles : SagaStepRecord V → Except Err Unit) :
    ∃ found after,
      exec awaited (State.initial startedAt timeoutMs)
        (calls.map .step) = some found ∧
      awaited found (.rollback settles) = some after ∧
      resolvedSteps found.log = resolvedCalls startedAt timeoutMs 0 calls ∧
      compensations after.log = (resolvedSteps found.log).reverse ∧
      ((compensations after.log).map Prod.fst).Nodup ∧
      after.status = .compensated ∧
      ∀ later : List (StepCall V Err), ∃ last,
        exec awaited after (later.map .step) = some last ∧
        last.status = .compensated ∧
        last.log = refusals .compensated after.begun later.length ++
          after.log := by
  have hrun := exec_awaited (State.initial startedAt timeoutMs)
    (calls.map AwaitedCall.step)
  have hrecords := recordsInvariant_of_awaited startedAt timeoutMs
    (calls.map AwaitedCall.step)
  rw [foldl_map_step] at hrun hrecords
  have hsteps := stepsFrom_foldl calls (State.initial startedAt timeoutMs)
    rfl
  generalize calls.foldl State.stepAwaited
    (State.initial startedAt timeoutMs) = found at hrun hrecords hsteps
  have hcompensations : compensations found.rolledBack.log =
      (found.completedSteps.map SagaStepRecord.bound).reverse := by
    rw [compensations_rolledBack, hsteps.compensations]
    rfl
  have hstatus : found.rolledBack.status ≠ .running := by
    simp [State.rolledBack, State.compensated]
  refine ⟨found, found.rolledBack, hrun, awaited_eq_some _ _,
    hsteps.resolved, ?_, ?_, rfl, fun later => ?_⟩
  · rw [hcompensations, hrecords.bound]
  · rw [hcompensations]
    exact hrecords.nodup_calls
  · have hlater := exec_awaited found.rolledBack (later.map AwaitedCall.step)
    rw [foldl_map_step] at hlater
    exact ⟨_, hlater, status_foldl_of_not_running later _ hstatus,
      log_foldl_of_not_running later _ hstatus⟩

end TsCommons.Saga
