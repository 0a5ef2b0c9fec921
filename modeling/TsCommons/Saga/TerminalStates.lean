import TsCommons.Saga.Rollback

/-!
# Terminal states

A call of `step` looks at the status of the transaction, a call of `commit` or
`rollback` does not.  So `committed` and `compensated` are final, and no
compensation is run twice or after a commit, exactly as long as the caller
keeps to the order.
-/

namespace TsCommons.Saga

open Foundations

variable {V Err : Type} {state : State V Err} {log : List (Effect V Err)}

def SagaStatus.Terminal : SagaStatus → Prop
  | .committed => True
  | .compensated => True
  | _ => False

/-- No compensation is invoked twice, none is invoked after a commit of a
running transaction, and a terminal status is not left. -/
structure TerminalLaw (log : List (Effect V Err)) : Prop where
  once : ((compensations log).map Prod.fst).Nodup
  kept : ∀ later earlier,
    log = later ++ .statusSet .running .committed :: earlier →
      compensations later = []
  final : ∀ old new, .statusSet old new ∈ log → old.Terminal → new = old

/-- `rollback` finds the transaction running, and `commit` does not find it
rolled back. -/
def FindsOpen (state : State V Err) : AwaitedCall V Err → Prop
  | .step _ => True
  | .commit => state.status = .running ∨ state.status = .committed
  | .rollback _ => state.status = .running

/-! ## What a call adds to the log -/

def Effect.OfStep : Effect V Err → Prop
  | .statusSet _ _ => False
  | .compensationRun _ _ => False
  | _ => True

theorem status_stepAwaited (state : State V Err) (call : StepCall V Err) :
    (state.stepAwaited call).status = state.status := by
  cases hrefusal : state.refusal call.now with
  | some refusal =>
      rw [State.stepAwaited, hrefusal]
      rfl
  | none =>
      cases houtcome : call.outcome <;>
        simp [State.stepAwaited, hrefusal, houtcome, State.act, State.begin,
          State.actionSettles, State.record, State.advance]

theorem log_stepAwaited (state : State V Err) (call : StepCall V Err) :
    ∃ added, (state.stepAwaited call).log = added ++ state.log ∧
      ∀ effect ∈ added, effect.OfStep := by
  cases hrefusal : state.refusal call.now with
  | some refusal =>
      refine ⟨[.refused state.begun refusal], ?_, by simp [Effect.OfStep]⟩
      rw [State.stepAwaited, hrefusal]
      rfl
  | none =>
      cases houtcome : call.outcome with
      | ok result =>
          refine ⟨[.resolved state.begun result, .actionRun state.begun], ?_,
            by simp [Effect.OfStep]⟩
          rw [State.stepAwaited, hrefusal, houtcome]
          rfl
      | error error =>
          refine ⟨[.threw state.begun error, .actionRun state.begun], ?_,
            by simp [Effect.OfStep]⟩
          rw [State.stepAwaited, hrefusal, houtcome]
          rfl

theorem log_suffix_afterCall (state : State V Err)
    (call : AwaitedCall V Err) :
    state.log <:+ (state.afterCall call).log := by
  cases call with
  | step call =>
      obtain ⟨added, hlog, -⟩ := log_stepAwaited state call
      exact ⟨added, hlog.symm⟩
  | commit => exact List.suffix_cons _ _
  | rollback settles =>
      rw [State.afterCall, log_rolledBack]
      exact ((List.suffix_cons _ _).trans (List.suffix_append _ _)).trans
        (List.suffix_cons _ _)

theorem log_suffix_foldl (calls : List (AwaitedCall V Err))
    (state : State V Err) :
    state.log <:+ (calls.foldl State.afterCall state).log := by
  induction calls generalizing state with
  | nil => exact List.suffix_rfl
  | cons call rest ih =>
      exact (log_suffix_afterCall state call).trans (ih _)

/-! ## Runs that keep to the order -/

namespace TerminalLaw

theorem cons (hlaw : TerminalLaw log) {effect : Effect V Err}
    (hcompensation : effect.compensation = none)
    (hfinal : ∀ old new, effect = .statusSet old new → old.Terminal →
      new = old) :
    TerminalLaw (effect :: log) := by
  constructor
  · simpa [hcompensation] using hlaw.once
  · intro later earlier hsplit
    cases later with
    | nil => rfl
    | cons first later =>
        rw [List.cons_append, List.cons.injEq] at hsplit
        obtain ⟨rfl, hsplit⟩ := hsplit
        simp [hlaw.kept later earlier hsplit, hcompensation]
  · intro old new hmem
    rcases List.mem_cons.mp hmem with heq | hmem
    · exact hfinal old new heq.symm
    · exact hlaw.final old new hmem

theorem append (hlaw : TerminalLaw log) {added : List (Effect V Err)}
    (hadded : ∀ effect ∈ added, effect.OfStep) :
    TerminalLaw (added ++ log) := by
  induction added with
  | nil => exact hlaw
  | cons effect added ih =>
      have hrest := ih fun other hother =>
        hadded other (List.mem_cons_of_mem effect hother)
      have heffect := hadded effect List.mem_cons_self
      apply hrest.cons
      · cases effect <;> first | rfl | exact heffect.elim
      · rintro old new rfl
        exact heffect.elim

/-- A log without assignments and compensations. -/
theorem of_unset (hcompensations : compensations log = [])
    (hunset : ∀ old new, .statusSet old new ∉ log) : TerminalLaw log := by
  refine ⟨by simp [hcompensations], fun later earlier hsplit => ?_,
    fun old new hmem => absurd hmem (hunset old new)⟩
  refine absurd ?_ (hunset .running .committed)
  simp [hsplit]

end TerminalLaw

theorem compensations_eq_nil_of_ofStep {added : List (Effect V Err)}
    (hadded : ∀ effect ∈ added, effect.OfStep) :
    compensations added = [] := by
  rw [compensations, List.reverse_eq_nil_iff, List.filterMap_eq_nil_iff]
  intro effect hmem
  have heffect := hadded effect hmem
  cases effect <;> first | rfl | exact heffect.elim

theorem statusSet_mem_append {added : List (Effect V Err)}
    (hadded : ∀ effect ∈ added, effect.OfStep) {old new : SagaStatus}
    (hmem : .statusSet old new ∈ added ++ log) :
    .statusSet old new ∈ log := by
  rcases List.mem_append.mp hmem with hnew | hold
  · exact (hadded _ hnew).elim
  · exact hold

/-- What the log is like for each status between two calls. -/
def OpenInvariant (state : State V Err) : Prop :=
  match state.status with
  | .running => compensations state.log = [] ∧
      ∀ old new, .statusSet old new ∉ state.log
  | .committed => TerminalLaw state.log
  | .compensated => TerminalLaw state.log
  | _ => False

theorem openInvariant_initial (startedAt : ℚ) (timeoutMs : Option ℚ) :
    OpenInvariant (State.initial startedAt timeoutMs : State V Err) := by
  simp [OpenInvariant, State.initial]

theorem OpenInvariant.law (hinv : OpenInvariant state) :
    TerminalLaw state.log := by
  rw [OpenInvariant] at hinv
  split at hinv
  · exact TerminalLaw.of_unset hinv.1 hinv.2
  · exact hinv
  · exact hinv
  · exact hinv.elim

theorem OpenInvariant.stepAwaited (hinv : OpenInvariant state)
    (call : StepCall V Err) : OpenInvariant (state.stepAwaited call) := by
  obtain ⟨added, hlog, hadded⟩ := log_stepAwaited state call
  rw [OpenInvariant] at hinv ⊢
  rw [status_stepAwaited, hlog]
  split at hinv
  · refine ⟨?_, fun old new hmem => ?_⟩
    · rw [compensations_append, hinv.1,
        compensations_eq_nil_of_ofStep hadded, List.append_nil]
    · exact hinv.2 old new (statusSet_mem_append hadded hmem)
  · exact hinv.append hadded
  · exact hinv.append hadded
  · exact hinv.elim

theorem OpenInvariant.commit (hinv : OpenInvariant state)
    (hopen : state.status = .running ∨ state.status = .committed) :
    OpenInvariant state.commit := by
  apply hinv.law.cons rfl
  rintro old new heq hterminal
  rw [Effect.statusSet.injEq] at heq
  obtain ⟨rfl, rfl⟩ := heq
  rcases hopen with hrunning | hcommitted
  · rw [hrunning] at hterminal
    exact hterminal.elim
  · exact hcommitted.symm

theorem OpenInvariant.rolledBack (hinv : OpenInvariant state)
    (hrecords : RecordsInvariant state) (hopen : state.status = .running) :
    OpenInvariant state.rolledBack := by
  rw [OpenInvariant, hopen] at hinv
  obtain ⟨hcompensations, hunset⟩ := hinv
  have hset : ∀ old new, .statusSet old new ∈ state.rolledBack.log →
      old = .compensating ∧ new = .compensated ∨
        old = .running ∧ new = .compensating := by
    intro old new hmem
    rw [log_rolledBack, hopen] at hmem
    simpa [hunset] using hmem
  have hlaw : TerminalLaw state.rolledBack.log := by
    constructor
    · rw [compensations_rolledBack, hcompensations, List.nil_append]
      exact hrecords.nodup_calls
    · intro later earlier hsplit
      have hmem := hset .running .committed (by simp [hsplit])
      simp at hmem
    · intro old new hmem
      rcases hset old new hmem with ⟨rfl, -⟩ | ⟨rfl, -⟩ <;>
        exact fun hterminal => hterminal.elim
  exact hlaw

theorem openInvariant_of_findsOpen {startedAt : ℚ} {timeoutMs : Option ℚ}
    {calls : List (AwaitedCall V Err)}
    (hmeet : StepsMeet awaited FindsOpen (State.initial startedAt timeoutMs)
      calls)
    (hrun : exec awaited (State.initial startedAt timeoutMs) calls =
      some state) : OpenInvariant state := by
  have hinv : OpenInvariant state ∧ RecordsInvariant state := by
    refine exec_invariant_of_stepsMeet
      (I := fun state => OpenInvariant state ∧ RecordsInvariant state)
      (fun state call next hinv hopen hcall => ?_)
      ⟨openInvariant_initial startedAt timeoutMs,
        recordsInvariant_initial startedAt timeoutMs⟩ hmeet hrun
    have hnext : state.afterCall call = next := by
      rw [awaited_eq_some, Option.some.injEq] at hcall
      exact hcall
    refine ⟨?_, hnext ▸ hinv.2.afterCall call⟩
    subst next
    cases call with
    | step call => exact hinv.1.stepAwaited call
    | commit => exact hinv.1.commit hopen
    | rollback settles => exact hinv.1.rolledBack hinv.2 hopen
  exact hinv.1

/-! ## Runs that do not -/

/-- Between two calls a transaction is running, committed or compensated. -/
theorem status_of_awaited {startedAt : ℚ} {timeoutMs : Option ℚ}
    {calls : List (AwaitedCall V Err)}
    (hrun : exec awaited (State.initial startedAt timeoutMs) calls =
      some state) :
    state.status = .running ∨ state.status.Terminal := by
  refine exec_invariant
    (I := fun state : State V Err =>
      state.status = .running ∨ state.status.Terminal)
    (fun state call next hinv hcall => ?_) (.inl rfl) hrun
  rw [awaited_eq_some, Option.some.injEq] at hcall
  subst next
  cases call with
  | step call =>
      rw [State.afterCall, status_stepAwaited]
      exact hinv
  | commit => exact .inr trivial
  | rollback settles => exact .inr trivial

/-- A call that does not find the transaction open leaves a terminal state. -/
theorem findsOpen_of_terminalLaw {call : AwaitedCall V Err}
    (hstatus : state.status = .running ∨ state.status.Terminal)
    (hlaw : TerminalLaw log)
    (hsuffix : (state.afterCall call).log <:+ log) :
    FindsOpen state call := by
  rcases hstatus with hrunning | hterminal
  · cases call with
    | step call => trivial
    | commit => exact .inl hrunning
    | rollback settles => exact hrunning
  · cases call with
    | step call => trivial
    | commit =>
        have hmem : .statusSet state.status .committed ∈ state.commit.log :=
          List.mem_cons_self
        exact .inr (hlaw.final _ _ (hsuffix.subset hmem) hterminal).symm
    | rollback settles =>
        have hmem : .statusSet state.status .compensating ∈
            state.rolledBack.log := by
          simp [log_rolledBack]
        have hstatus :=
          hlaw.final _ _ (hsuffix.subset hmem) hterminal
        rw [← hstatus] at hterminal
        exact hterminal.elim

/-- Whatever is called and awaited, the terminal law holds if and only if
every rollback finds the transaction running, and every commit finds it
running or committed. -/
theorem terminalLaw_iff_findsOpen (startedAt : ℚ) (timeoutMs : Option ℚ)
    (calls : List (AwaitedCall V Err)) :
    ∃ state,
      exec awaited (State.initial startedAt timeoutMs) calls = some state ∧
      (TerminalLaw state.log ↔
        StepsMeet awaited FindsOpen (State.initial startedAt timeoutMs)
          calls) := by
  have hrun := exec_awaited (State.initial startedAt timeoutMs) calls
  refine ⟨_, hrun, fun hlaw => ?_, fun hmeet => ?_⟩
  · refine StepsMeet.of_forall_split fun before call after middle hsplit
      hbefore => ?_
    apply findsOpen_of_terminalLaw (status_of_awaited hbefore) hlaw
    rw [exec_awaited, Option.some.injEq] at hbefore
    rw [hsplit, List.foldl_append, List.foldl_cons, hbefore]
    exact log_suffix_foldl after _
  · exact (openInvariant_of_findsOpen hmeet hrun).law

/-! ## Out of order -/

def reserveStock : StepCall ℕ String where
  name := "reserve-stock"
  now := 0
  outcome := .ok 7

def rollBack : AwaitedCall ℕ String := .rollback fun _ => .ok ()

/-- A second rollback compensates a second time, a rollback after a commit
compensates what is committed, and a commit after a rollback commits it. -/
theorem terminalLaw_broken :
    (∃ state,
      exec awaited (State.initial 0 none)
        [.step reserveStock, rollBack, rollBack] = some state ∧
      compensations state.log = [(0, 7), (0, 7)] ∧
      ¬ TerminalLaw state.log) ∧
    (∃ state,
      exec awaited (State.initial 0 none)
        [.step reserveStock, .commit, rollBack] = some state ∧
      state.log = [.statusSet .compensating .compensated,
        .compensationRun 0 7, .statusSet .committed .compensating,
        .statusSet .running .committed, .resolved 0 7, .actionRun 0] ∧
      ¬ TerminalLaw state.log) ∧
    ∃ state,
      exec awaited (State.initial 0 none)
        [.step reserveStock, rollBack, .commit] = some state ∧
      state.status = .committed ∧
      .statusSet .compensated .committed ∈ state.log ∧
      ¬ TerminalLaw state.log := by
  refine ⟨⟨_, exec_awaited _ _, ?_, fun hlaw => ?_⟩,
    ⟨_, exec_awaited _ _, ?_, fun hlaw => ?_⟩,
    ⟨_, exec_awaited _ _, rfl, ?_, fun hlaw => ?_⟩⟩
  · decide +kernel
  · exact absurd hlaw.once (by decide +kernel)
  · decide +kernel
  · have hkept := hlaw.kept
      [.statusSet .compensating .compensated, .compensationRun 0 7,
        .statusSet .committed .compensating] [.resolved 0 7, .actionRun 0]
      (by decide +kernel)
    exact absurd hkept (by decide +kernel)
  · decide +kernel
  · have hfinal := hlaw.final .compensated .committed (by decide +kernel)
      trivial
    exact absurd hfinal (by decide)

end TsCommons.Saga
