import TsCommons.Saga.Rollback

/-!
# Steps in flight when the rollback begins

A call of `step` looks at the status before it awaits its action, and records
the step after that.  A rollback walks through the records it finds.  A step
whose action resolves behind the rollback is recorded when nothing reads the
records any more.
-/

namespace TsCommons.Saga

open Foundations

variable {V Err : Type} {state next last : State V Err}

def Label.callsRollback : Label V Err → Bool
  | .rollback => true
  | _ => false

/-- The step that the label completes, and its result. -/
def Label.resolves : Label V Err → Option (ℕ × V)
  | .actionSettles call (.ok result) => some (call, result)
  | _ => none

/-- An action that resolves finds the transaction running. -/
def ResolvesWhileRunning (state : State V Err) : Label V Err → Prop
  | .actionSettles _ (.ok _) => state.status = .running
  | _ => True

instance (state : State V Err) :
    DecidablePred (ResolvesWhileRunning state)
  | .step _ _ => inferInstanceAs (Decidable True)
  | .actionSettles _ (.ok _) =>
      inferInstanceAs (Decidable (state.status = .running))
  | .actionSettles _ (.error _) => inferInstanceAs (Decidable True)
  | .commit => inferInstanceAs (Decidable True)
  | .rollback => inferInstanceAs (Decidable True)
  | .compensationSettles _ _ => inferInstanceAs (Decidable True)
  | .resume _ => inferInstanceAs (Decidable True)

/-- The compensation of every step whose action has resolved is invoked once,
with the result of the step. -/
def CompensatedOnce (log : List (Effect V Err)) : Prop :=
  ∀ call result, (call, result) ∈ resolvedSteps log →
    ((compensations log).filter fun run => run.1 = call) = [(call, result)]

def State.AllSettled (state : State V Err) : Prop :=
  ∀ call < state.begun, state.calls call = .settled

/-- What a call of `step` can be doing. -/
def CallProgress.OfStep : CallProgress V → Prop
  | .compensating _ => False
  | .finishing => False
  | _ => True

/-- The compensations that a call has yet to invoke. -/
def CallProgress.owed : CallProgress V → List (ℕ × V)
  | .compensating rest => rest.map SagaStepRecord.bound
  | _ => []

/-! ## What a label adds to the records -/

theorem resolvedSteps_runCompensations (state : State V Err) (call : ℕ)
    (records : List (SagaStepRecord V)) :
    resolvedSteps (state.runCompensations call records).log =
      resolvedSteps state.log := by
  cases records <;>
    simp [State.runCompensations, State.advance, State.record,
      Effect.resolvedStep]

theorem resolvedSteps_step {label : Label V Err}
    (hstep : step state label = some next) :
    resolvedSteps next.log =
      resolvedSteps state.log ++ label.resolves.toList := by
  cases label with
  | step name now =>
      cases hstep
      cases hrefusal : state.refusal now <;>
        simp [State.callStep, hrefusal, State.refuse, State.act,
          State.begin, State.advance, State.record, Effect.resolvedStep,
          Label.resolves]
  | actionSettles call outcome =>
      cases hcall : state.calls call with
      | acting name =>
          simp only [step, hcall, Option.some.injEq] at hstep
          subst next
          cases outcome <;>
            simp [State.actionSettles, State.advance, State.record,
              Effect.resolvedStep, Label.resolves]
      | _ => simp [step, hcall] at hstep
  | commit =>
      cases hstep
      simp [State.commit, State.setStatus, State.record,
        Effect.resolvedStep, Label.resolves]
  | rollback =>
      cases hstep
      rw [State.rollback, resolvedSteps_runCompensations]
      simp [State.setStatus, State.begin, State.advance, State.record,
        Effect.resolvedStep, Label.resolves]
  | compensationSettles call outcome =>
      cases hcall : state.calls call with
      | compensating rest =>
          simp only [step, hcall, Option.some.injEq,
            compensationSettles_eq] at hstep
          subst next
          rw [resolvedSteps_runCompensations]
          simp [Label.resolves]
      | _ => simp [step, hcall] at hstep
  | resume call =>
      cases hcall : state.calls call with
      | finishing =>
          simp only [step, hcall, Option.some.injEq] at hstep
          subst next
          simp [State.finishRollback, State.setStatus, State.advance,
            State.record, Effect.resolvedStep, Label.resolves]
      | _ => simp [step, hcall] at hstep

theorem resolvedSteps_exec {labels : List (Label V Err)}
    (hrun : exec step state labels = some last) :
    resolvedSteps last.log =
      resolvedSteps state.log ++ labels.filterMap Label.resolves := by
  induction labels generalizing state with
  | nil =>
      cases hrun
      simp
  | cons label rest ih =>
      obtain ⟨next, hstep, hrest⟩ := exec_cons_eq_some.mp hrun
      rw [ih hrest, resolvedSteps_step hstep, List.append_assoc]
      congr 1
      cases hresolves : label.resolves <;> simp [hresolves]

/-! ## What a rollback has yet to compensate -/

/-- Only `rollback` compensates, and it has invoked `snapshot` but for what it
still owes. -/
structure OwedBy (rollback : ℕ) (snapshot : List (ℕ × V))
    (state : State V Err) : Prop where
  others : ∀ call, call ≠ rollback → (state.calls call).OfStep
  own : compensations state.log ++ (state.calls rollback).owed = snapshot

namespace OwedBy

variable {rollback : ℕ} {snapshot : List (ℕ × V)}

theorem record (hinv : OwedBy rollback snapshot state)
    {effect : Effect V Err} (heffect : effect.compensation = none) :
    OwedBy rollback snapshot (state.record effect) := by
  refine ⟨hinv.others, ?_⟩
  simpa [State.record, heffect] using hinv.own

/-- A call moves on and leaves nothing uncompensated. -/
theorem advance (hinv : OwedBy rollback snapshot state) {call : ℕ}
    {progress : CallProgress V}
    (hother : call ≠ rollback → progress.OfStep)
    (hown : call = rollback → progress.owed = (state.calls rollback).owed) :
    OwedBy rollback snapshot (state.advance call progress) := by
  constructor
  · intro other hne
    by_cases hself : other = call
    · subst other
      rw [calls_advance_self]
      exact hother hne
    · rw [calls_advance_of_ne progress hself]
      exact hinv.others other hne
  · by_cases hself : rollback = call
    · subst call
      rw [calls_advance_self, hown rfl]
      exact hinv.own
    · rw [calls_advance_of_ne progress hself]
      exact hinv.own

/-- A call that owes nothing moves to a progress that owes nothing. -/
theorem advance_owing_nothing (hinv : OwedBy rollback snapshot state)
    {call : ℕ} {progress : CallProgress V} (hofStep : progress.OfStep)
    (hnext : progress.owed = []) (hbefore : (state.calls call).owed = []) :
    OwedBy rollback snapshot (state.advance call progress) := by
  apply hinv.advance
  · intro _
    exact hofStep
  · rintro rfl
    rw [hnext, hbefore]

theorem callStep (hinv : OwedBy rollback snapshot state)
    (hrecords : RecordsInvariant state) (name : String) (now : ℚ) :
    OwedBy rollback snapshot (state.callStep name now) := by
  have hbegin : ∀ progress : CallProgress V, progress.OfStep →
      progress.owed = [] →
        OwedBy rollback snapshot (state.begin progress) := by
    intro progress hofStep howed
    have hidle : (state.calls state.begun).owed = [] := by
      rw [hrecords.fresh state.begun le_rfl]
      rfl
    have hadvance := hinv.advance_owing_nothing hofStep howed hidle
    exact ⟨hadvance.others, hadvance.own⟩
  unfold State.callStep
  cases state.refusal now with
  | some refusal => exact (hbegin .settled trivial rfl).record rfl
  | none => exact (hbegin (.acting name) trivial rfl).record rfl

theorem actionSettles (hinv : OwedBy rollback snapshot state) {call : ℕ}
    {name : String} (hcall : state.calls call = .acting name)
    (outcome : Except Err V) :
    OwedBy rollback snapshot (state.actionSettles call name outcome) := by
  have howed : (state.calls call).owed = [] := by
    rw [hcall]
    rfl
  have hadvance : OwedBy rollback snapshot (state.advance call .settled) :=
    hinv.advance_owing_nothing trivial rfl howed
  cases outcome with
  | ok result =>
      have hrecord : OwedBy rollback snapshot
          ((state.advance call .settled).record (.resolved call result)) :=
        hadvance.record rfl
      exact ⟨hrecord.others, hrecord.own⟩
  | error error => exact hadvance.record rfl

/-- The loop invokes the next compensation, or ends. -/
theorem runCompensations (hinv : OwedBy rollback snapshot state)
    {records : List (SagaStepRecord V)}
    (hcall : state.calls rollback = .compensating records) :
    OwedBy rollback snapshot (state.runCompensations rollback records) := by
  have howed : (state.calls rollback).owed =
      records.map SagaStepRecord.bound := by
    rw [hcall, CallProgress.owed]
  cases records with
  | nil =>
      apply hinv.advance
      · intro hne
        exact absurd rfl hne
      · intro _
        rw [howed]
        rfl
  | cons record rest =>
      constructor
      · intro other hne
        exact (congrArg CallProgress.OfStep
          (calls_advance_of_ne _ hne)).mpr (hinv.others other hne)
      · have hself : (state.advance rollback (.compensating rest)).calls
            rollback = .compensating rest :=
          calls_advance_self state rollback _
        rw [← hinv.own, howed]
        simp only [State.runCompensations, State.record, hself,
          compensations_cons, CallProgress.owed, Effect.compensation,
          SagaStepRecord.bound, List.map_cons, Option.toList_some,
          List.append_assoc, List.singleton_append]
        rfl

theorem step (hinv : OwedBy rollback snapshot state)
    (hrecords : RecordsInvariant state) {label : Label V Err}
    (hrollback : label ≠ .rollback)
    (hstep : Saga.step state label = some next) :
    OwedBy rollback snapshot next := by
  cases label with
  | step name now =>
      cases hstep
      exact hinv.callStep hrecords name now
  | actionSettles call outcome =>
      cases hcall : state.calls call with
      | acting name =>
          simp only [Saga.step, hcall, Option.some.injEq] at hstep
          exact hstep ▸ hinv.actionSettles hcall outcome
      | _ => simp [Saga.step, hcall] at hstep
  | commit =>
      cases hstep
      have hrecord : OwedBy rollback snapshot
          (state.record (.statusSet state.status .committed)) :=
        hinv.record rfl
      exact ⟨hrecord.others, hrecord.own⟩
  | rollback => exact absurd rfl hrollback
  | compensationSettles call outcome =>
      cases hcall : state.calls call with
      | compensating rest =>
          simp only [Saga.step, hcall, Option.some.injEq,
            compensationSettles_eq] at hstep
          have hself : call = rollback := by
            by_contra hne
            have hofStep := hinv.others call hne
            rw [hcall] at hofStep
            exact hofStep
          subst hself
          exact hstep ▸ hinv.runCompensations hcall
      | _ => simp [Saga.step, hcall] at hstep
  | resume call =>
      cases hcall : state.calls call with
      | finishing =>
          simp only [Saga.step, hcall, Option.some.injEq] at hstep
          have howed : (state.calls call).owed = [] := by
            rw [hcall]
            rfl
          have hadvance : OwedBy rollback snapshot
              (state.advance call .settled) :=
            hinv.advance_owing_nothing trivial rfl howed
          have hrecord : OwedBy rollback snapshot
              ((state.advance call .settled).record
                (.statusSet state.status .compensated)) :=
            hadvance.record rfl
          exact hstep ▸ ⟨hrecord.others, hrecord.own⟩
      | _ => simp [Saga.step, hcall] at hstep

end OwedBy

/-! ## Before and after the rollback -/

/-- Every call is one of `step`, and nothing has been compensated. -/
structure NotRolledBack (state : State V Err) : Prop where
  records : RecordsInvariant state
  status : state.status = .running
  owed : ∀ call, OwedBy call [] state

/-- A call of `rollback` has found the steps of `snapshot`. -/
structure RolledBack (rollback : ℕ) (snapshot : List (ℕ × V))
    (state : State V Err) : Prop where
  records : RecordsInvariant state
  status : state.status ≠ .running
  owed : OwedBy rollback snapshot state

theorem notRolledBack_initial (startedAt : ℚ) (timeoutMs : Option ℚ) :
    NotRolledBack (State.initial startedAt timeoutMs : State V Err) := by
  refine ⟨recordsInvariant_initial startedAt timeoutMs, rfl, fun call => ?_⟩
  constructor
  · intro other _
    trivial
  · rfl

/-- Only the last assignment of a rollback changes the status. -/
theorem status_step {label : Label V Err} (hcommit : label ≠ .commit)
    (hrollback : label ≠ .rollback)
    (hstep : step state label = some next) :
    next.status = state.status ∨
      next.status = .compensated ∧
        ∃ call, state.calls call = .finishing := by
  cases label with
  | step name now =>
      cases hstep
      left
      unfold State.callStep
      cases state.refusal now <;> rfl
  | actionSettles call outcome =>
      cases hcall : state.calls call with
      | acting name =>
          simp only [step, hcall, Option.some.injEq] at hstep
          subst next
          left
          cases outcome <;> rfl
      | _ => simp [step, hcall] at hstep
  | commit => exact absurd rfl hcommit
  | rollback => exact absurd rfl hrollback
  | compensationSettles call outcome =>
      cases hcall : state.calls call with
      | compensating rest =>
          simp only [step, hcall, Option.some.injEq,
            compensationSettles_eq] at hstep
          subst next
          left
          cases rest <;> rfl
      | _ => simp [step, hcall] at hstep
  | resume call =>
      cases hcall : state.calls call with
      | finishing =>
          simp only [step, hcall, Option.some.injEq] at hstep
          subst next
          right
          exact ⟨rfl, call, hcall⟩
      | _ => simp [step, hcall] at hstep

theorem NotRolledBack.step (hinv : NotRolledBack state)
    {label : Label V Err} (hcommit : label ≠ .commit)
    (hrollback : label ≠ .rollback)
    (hstep : Saga.step state label = some next) : NotRolledBack next := by
  refine ⟨hinv.records.step hstep, ?_, fun call =>
    (hinv.owed call).step hinv.records hrollback hstep⟩
  rcases status_step hcommit hrollback hstep with hkept | ⟨-, call, hcall⟩
  · rw [hkept]
    exact hinv.status
  · have hofStep := (hinv.owed (call + 1)).others call
      (Nat.succ_ne_self call).symm
    rw [hcall] at hofStep
    exact hofStep.elim

theorem RolledBack.step {rollback : ℕ} {snapshot : List (ℕ × V)}
    (hinv : RolledBack rollback snapshot state) {label : Label V Err}
    (hcommit : label ≠ .commit) (hrollback : label ≠ .rollback)
    (hstep : Saga.step state label = some next) :
    RolledBack rollback snapshot next := by
  refine ⟨hinv.records.step hstep, ?_,
    hinv.owed.step hinv.records hrollback hstep⟩
  rcases status_step hcommit hrollback hstep with hkept | ⟨hcompensated, -⟩
  · rw [hkept]
    exact hinv.status
  · rw [hcompensated]
    simp

theorem runCompensations_begin (state : State V Err)
    (progress other : CallProgress V) (records : List (SagaStepRecord V)) :
    (state.begin progress).runCompensations state.begun records =
      (state.begin other).runCompensations state.begun records := by
  cases records <;>
    simp [State.runCompensations, State.begin, State.advance]

/-- A rollback takes the records it finds for what it has to compensate. -/
theorem NotRolledBack.rollback (hinv : NotRolledBack state) :
    RolledBack state.begun (resolvedSteps state.log).reverse
      state.rollback := by
  have hrecords : RecordsInvariant state.rollback :=
    hinv.records.step (show Saga.step state .rollback = _ from rfl)
  have hfirst : OwedBy state.begun (resolvedSteps state.log).reverse
      ((state.setStatus .compensating).begin
        (.compensating state.completedSteps.reverse)) := by
    have hcalls : ((state.setStatus .compensating).begin
        (.compensating state.completedSteps.reverse)).calls state.begun =
          .compensating state.completedSteps.reverse :=
      calls_advance_self (state.setStatus .compensating) state.begun _
    have hnone : compensations state.log = [] := by
      have hown := (hinv.owed 0).own
      exact (List.append_eq_nil_iff.mp hown).1
    constructor
    · intro call hne
      exact (congrArg CallProgress.OfStep
        (calls_advance_of_ne _ hne)).mpr
          ((hinv.owed state.begun).others call hne)
    · rw [hcalls, ← hinv.records.bound]
      simp [State.setStatus, State.begin, State.advance, State.record,
        hnone, Effect.compensation, CallProgress.owed]
  have hloop := hfirst.runCompensations
    (calls_advance_self (state.setStatus .compensating) state.begun _)
  rw [State.rollback]
  constructor
  · exact hrecords
  · cases state.completedSteps.reverse <;>
      simp [State.runCompensations, State.setStatus, State.begin,
        State.advance, State.record]
  · have hsame := runCompensations_begin (state.setStatus .compensating)
      .finishing (.compensating state.completedSteps.reverse)
      state.completedSteps.reverse
    exact (congrArg (OwedBy _ _) hsame).mpr hloop

/-! ## One rollback -/

/-- A run with one rollback is a run before it and a run behind it. -/
theorem exec_split_rollback {labels : List (Label V Err)}
    (hrun : exec step state labels = some last)
    (hcommit : .commit ∉ labels)
    (hrollback : labels.countP Label.callsRollback = 1) :
    ∃ before after middle,
      labels = before ++ .rollback :: after ∧
      exec step state before = some middle ∧
      exec step middle.rollback after = some last ∧
      (∀ label ∈ before, label ≠ .commit ∧ label ≠ .rollback) ∧
      ∀ label ∈ after, label ≠ .commit ∧ label ≠ .rollback := by
  have hexists : ∃ label ∈ labels, label.callsRollback = true := by
    apply List.countP_pos_iff.mp
    omega
  obtain ⟨label, hmem, hcalls⟩ := hexists
  have hlabel : label = .rollback := by
    cases label <;> simp_all [Label.callsRollback]
  subst label
  obtain ⟨before, after, middle, found, rfl, hbefore, hstep, hafter⟩ :=
    exec_split_of_mem hrun hmem
  cases hstep
  have hquiet : ∀ labels : List (Label V Err), .commit ∉ labels →
      labels.countP Label.callsRollback = 0 →
      ∀ label ∈ labels, label ≠ .commit ∧ label ≠ .rollback := by
    intro labels hcommit hcount label hlabel
    refine ⟨fun heq => hcommit (heq ▸ hlabel), ?_⟩
    rintro rfl
    exact List.countP_eq_zero.mp hcount .rollback hlabel rfl
  have hsum : before.countP Label.callsRollback +
      (after.countP Label.callsRollback + 1) = 1 := by
    rw [List.countP_append, List.countP_cons] at hrollback
    exact hrollback
  refine ⟨before, after, middle, rfl, hbefore, hafter, ?_, ?_⟩
  · apply hquiet
    · intro hcommits
      exact hcommit (List.mem_append_left _ hcommits)
    · omega
  · apply hquiet
    · intro hcommits
      exact hcommit (List.mem_append_right _
        (List.mem_cons_of_mem _ hcommits))
    · omega

theorem NotRolledBack.exec {labels : List (Label V Err)}
    (hinv : NotRolledBack state)
    (hquiet : ∀ label ∈ labels, label ≠ .commit ∧ label ≠ .rollback)
    (hrun : Foundations.exec Saga.step state labels = some last) :
    NotRolledBack last :=
  exec_invariant_of_stepsMeet (I := NotRolledBack)
    (fun _ _ _ hinv hquiet hstep => hinv.step hquiet.1 hquiet.2 hstep) hinv
    (StepsMeet.of_forall_mem fun label hmem _ => hquiet label hmem) hrun

theorem RolledBack.exec {rollback : ℕ} {snapshot : List (ℕ × V)}
    {labels : List (Label V Err)}
    (hinv : RolledBack rollback snapshot state)
    (hquiet : ∀ label ∈ labels, label ≠ .commit ∧ label ≠ .rollback)
    (hrun : Foundations.exec Saga.step state labels = some last) :
    RolledBack rollback snapshot last :=
  exec_invariant_of_stepsMeet (I := RolledBack rollback snapshot)
    (fun _ _ _ hinv hquiet hstep => hinv.step hquiet.1 hquiet.2 hstep) hinv
    (StepsMeet.of_forall_mem fun label hmem _ => hquiet label hmem) hrun

theorem resolvesWhileRunning_of_resolves_eq_none {label : Label V Err}
    (hlabel : label.resolves = none) (state : State V Err) :
    ResolvesWhileRunning state label := by
  cases label with
  | actionSettles call outcome =>
      cases outcome with
      | ok result => simp [Label.resolves] at hlabel
      | error error => trivial
  | _ => trivial

/-- Before the rollback no step is late, and behind it every one is. -/
theorem resolvesWhileRunning_iff_of_split
    {before after : List (Label V Err)} {middle : State V Err}
    (hinv : NotRolledBack state)
    (hbefore : exec step state before = some middle)
    (hafter : exec step middle.rollback after = some last)
    (hquietBefore : ∀ label ∈ before, label ≠ .commit ∧ label ≠ .rollback)
    (hquietAfter : ∀ label ∈ after, label ≠ .commit ∧ label ≠ .rollback) :
    StepsMeet step ResolvesWhileRunning state (before ++ .rollback :: after) ↔
      after.filterMap Label.resolves = [] := by
  have hmiddle : NotRolledBack middle := hinv.exec hquietBefore hbefore
  constructor
  · intro hmeet
    apply List.filterMap_eq_nil_iff.mpr
    intro label hmem
    cases hresolves : label.resolves with
    | none => rfl
    | some resolved =>
        obtain ⟨early, late, found, next, rfl, hearly, -, -⟩ :=
          exec_split_of_mem hafter hmem
        have hfound : RolledBack middle.begun _ found :=
          hmiddle.rollback.exec
            (fun other hother => hquietAfter other
              (List.mem_append_left _ hother)) hearly
        have hlabel : ResolvesWhileRunning found label := by
          have hlate := hmeet.append_right hbefore
          exact (hlate.2 middle.rollback rfl).head_of_append hearly
        cases label with
        | actionSettles call outcome =>
            cases outcome with
            | ok result => exact absurd hlabel hfound.status
            | error error => simp [Label.resolves] at hresolves
        | _ => simp [Label.resolves] at hresolves
  · intro hnone
    apply StepsMeet.append
    · apply StepsMeet.of_forall_split
      intro early label late found hsplit hearly
      have hfound : NotRolledBack found :=
        hinv.exec (fun other hother => hquietBefore other
          (hsplit ▸ List.mem_append_left _ hother)) hearly
      cases label with
      | actionSettles call outcome =>
          cases outcome with
          | ok result => exact hfound.status
          | error error => trivial
      | _ => trivial
    · intro found _
      refine ⟨trivial, fun next _ => ?_⟩
      apply StepsMeet.of_forall_mem
      intro label hmem found
      exact resolvesWhileRunning_of_resolves_eq_none
        (List.filterMap_eq_nil_iff.mp hnone label hmem) found

/-- In a list without two entries for a call, an entry is all there is. -/
theorem filter_call_eq_singleton {runs : List (ℕ × V)} {call : ℕ} {result : V}
    (hnodup : (runs.map Prod.fst).Nodup) (hmem : (call, result) ∈ runs) :
    (runs.filter fun run => run.1 = call) = [(call, result)] := by
  obtain ⟨before, after, rfl⟩ := List.append_of_mem hmem
  rw [List.map_append, List.map_cons, List.nodup_middle, List.nodup_cons,
    List.mem_append, not_or] at hnodup
  obtain ⟨⟨hbefore, hafter⟩, -⟩ := hnodup
  have hnone : ∀ runs : List (ℕ × V), call ∉ runs.map Prod.fst →
      (runs.filter fun run => run.1 = call) = [] := by
    intro runs hnotMem
    apply List.filter_eq_nil_iff.mpr
    intro run hrun
    simp only [decide_eq_true_eq]
    rintro rfl
    exact hnotMem (List.mem_map_of_mem hrun)
  rw [List.filter_append, List.filter_cons, hnone before hbefore,
    hnone after hafter]
  simp

/-- Whatever steps are called at the same time as one rollback, when all the
calls have settled every step that has resolved is compensated once if and
only if no action resolves after the rollback has been called. -/
theorem compensatedOnce_iff_resolvesWhileRunning {startedAt : ℚ}
    {timeoutMs : Option ℚ} {labels : List (Label V Err)}
    (hrun : exec step (State.initial startedAt timeoutMs) labels = some last)
    (hcommit : .commit ∉ labels)
    (hrollback : labels.countP Label.callsRollback = 1)
    (hsettled : last.AllSettled) :
    CompensatedOnce last.log ↔
      StepsMeet step ResolvesWhileRunning (State.initial startedAt timeoutMs)
        labels := by
  obtain ⟨before, after, middle, rfl, hbefore, hafter, hquietBefore,
    hquietAfter⟩ := exec_split_rollback hrun hcommit hrollback
  have hinitial : NotRolledBack
      (State.initial startedAt timeoutMs : State V Err) :=
    notRolledBack_initial startedAt timeoutMs
  have hmiddle : NotRolledBack middle := hinitial.exec hquietBefore hbefore
  have hlast : RolledBack middle.begun (resolvedSteps middle.log).reverse
      last := hmiddle.rollback.exec hquietAfter hafter
  have hcompensations : compensations last.log =
      (resolvedSteps middle.log).reverse := by
    have howed : (last.calls middle.begun).owed = [] := by
      by_cases hbegun : middle.begun < last.begun
      · rw [hsettled middle.begun hbegun]
        rfl
      · rw [hlast.records.fresh middle.begun (Nat.not_lt.mp hbegun)]
        rfl
    have hown := hlast.owed.own
    rw [howed, List.append_nil] at hown
    exact hown
  have hresolved : resolvedSteps last.log =
      resolvedSteps middle.log ++ after.filterMap Label.resolves := by
    rw [resolvedSteps_exec hafter, resolvedSteps_step
      (show step middle .rollback = some middle.rollback from rfl)]
    simp [Label.resolves]
  have hnodup : ((resolvedSteps last.log).map Prod.fst).Nodup := by
    have hcalls := hlast.records.nodup_calls
    rw [List.map_reverse] at hcalls
    rw [← hlast.records.bound]
    exact List.nodup_reverse.mp hcalls
  rw [resolvesWhileRunning_iff_of_split hinitial hbefore hafter hquietBefore
    hquietAfter]
  rw [hresolved, List.map_append, List.nodup_append] at hnodup
  constructor
  · intro honce
    apply List.eq_nil_iff_forall_not_mem.mpr
    rintro ⟨call, result⟩ hlate
    have hfilter := honce call result (by
      rw [hresolved]
      exact List.mem_append_right _ hlate)
    have hmem : (call, result) ∈ (compensations last.log).filter
        fun run => run.1 = call := by
      rw [hfilter]
      exact List.mem_singleton_self _
    rw [hcompensations] at hmem
    have hearly := List.mem_reverse.mp (List.mem_of_mem_filter hmem)
    exact hnodup.2.2 call (List.mem_map_of_mem hearly) call
      (List.mem_map_of_mem hlate) rfl
  · intro hnone call result hmem
    rw [hresolved, hnone, List.append_nil] at hmem
    rw [hcompensations]
    apply filter_call_eq_singleton
    · rw [List.map_reverse]
      exact List.nodup_reverse.mpr hnodup.1
    · exact List.mem_reverse.mpr hmem

/-- Two steps run in parallel.  One is recorded, and the other one fails while
the rollback runs. -/
def parallelSteps : List (Label ℕ String) :=
  [.step "reserve-stock" 0, .step "charge-card" 0, .actionSettles 0 (.ok 7),
    .rollback, .actionSettles 1 (.error "declined"),
    .compensationSettles 2 (.ok ()), .resume 2]

theorem compensatedOnce_iff_resolvesWhileRunning_parallelSteps :
    ∃ last, exec step (State.initial 0 none) parallelSteps = some last ∧
      CompensatedOnce last.log := by
  have hcommit : .commit ∉ parallelSteps := by simp [parallelSteps]
  have hends : ∃ last,
      exec step (State.initial 0 none) parallelSteps = some last ∧
        last.AllSettled := by
    refine ⟨_, rfl, fun call hcall => ?_⟩
    have hsplit : call = 0 ∨ call = 1 ∨ call = 2 := by
      have hlt : call < 3 := hcall
      omega
    rcases hsplit with rfl | rfl | rfl <;> rfl
  obtain ⟨last, hrun, hsettled⟩ := hends
  have honce := (compensatedOnce_iff_resolvesWhileRunning hrun hcommit rfl
    hsettled).mpr (by decide +kernel)
  exact ⟨last, hrun, honce⟩

/-- The action of a step resolves after the rollback has been called: its call
returns the result, and its compensation is never invoked. -/
theorem not_compensatedOnce_of_late_step :
    ∃ last : State ℕ String,
      exec step (State.initial 0 none)
        [.step "reserve-stock" 0, .rollback, .actionSettles 0 (.ok 7),
          .resume 1] = some last ∧
      last.AllSettled ∧
      last.status = .compensated ∧
      last.log = [.statusSet .compensating .compensated, .resolved 0 7,
        .statusSet .running .compensating, .actionRun 0] ∧
      ¬ CompensatedOnce last.log := by
  refine ⟨_, rfl, ?_, rfl, rfl, fun honce => ?_⟩
  · intro call hcall
    have hsplit : call = 0 ∨ call = 1 := by
      have hlt : call < 2 := hcall
      omega
    rcases hsplit with rfl | rfl <;> rfl
  · exact absurd (honce 0 7 (by decide +kernel)) (by decide +kernel)

end TsCommons.Saga
