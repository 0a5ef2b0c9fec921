import TsCommons.Foundations.Execution
import TsCommons.K8s.CanaryRelease

/-!
# Rollbacks of a canary are final

Calls of one canary release interleave between the answers of the metrics
provider and what `analyse` and `promote` do with them.  After a rollback the
canary is to get no traffic until a `promote` that was called later raises its
weight.
-/

namespace TsCommons.K8s

open Foundations

inductive Target
  | stable
  | canary
deriving DecidableEq

/-- A call of `promote` or `analyse` that has not returned.  `since` is the
number of rollbacks before it, and `passed` the result of the analysis that
`promote` is about to go on with. -/
structure Call where
  promotes : Bool
  since : ℕ
  stable : Option CanaryMetrics
  canary : Option CanaryMetrics
  passed : Option Bool
deriving DecidableEq

/-- `raised` is whether a `promote` that was called after the last rollback has
raised the weight. -/
structure State where
  release : CanaryRelease
  calls : List Call
  rollbacks : ℕ
  raised : Bool
deriving DecidableEq

def State.initial (config : CanaryConfig) : State where
  release := .create config
  calls := []
  rollbacks := 0
  raised := false

inductive Label
  | promote
  | analyse
  | rollback
  | pause
  | resume
  | answer (position : ℕ) (target : Target) (metrics : CanaryMetrics)
  | refuse (position : ℕ)
  | finishAnalysis (position : ℕ)
  | finishPromote (position : ℕ)
deriving DecidableEq

namespace State

def call (state : State) (promotes : Bool) : State :=
  { state with
    calls := state.calls ++
      [⟨promotes, state.rollbacks, none, none, none⟩] }

def rollback (state : State) : State :=
  { state with
    release := state.release.rollback
    rollbacks := state.rollbacks + 1
    raised := false }

def finishAnalysis (state : State) (position : ℕ) (call : Call)
    (stable canary : CanaryMetrics) : State :=
  let (release, passed) := state.release.finishAnalysis stable canary
  { state with
    release := release
    calls :=
      if call.promotes then
        state.calls.set position { call with passed := some passed }
      else state.calls.eraseIdx position }

def finishPromote (state : State) (position : ℕ) (call : Call)
    (passed : Bool) : State :=
  let release := state.release.finishPromote passed
  { state with
    release := release
    calls := state.calls.eraseIdx position
    raised := state.raised || (decide (call.since = state.rollbacks) &&
      decide (state.release.canaryWeight < release.canaryWeight)) }

end State

/-- The call with the answer, if it waits for it. -/
def Call.answer (call : Call) (target : Target) (metrics : CanaryMetrics) :
    Option Call :=
  match target, call.stable, call.canary with
  | .stable, none, _ => some { call with stable := some metrics }
  | .canary, _, none => some { call with canary := some metrics }
  | _, _, _ => none

def step (state : State) : Label → Option State
  | .promote => some (state.call true)
  | .analyse => some (state.call false)
  | .rollback => some state.rollback
  | .pause => some { state with release := state.release.pause }
  | .resume => some { state with release := state.release.resume }
  | .answer position target metrics =>
      ((state.calls[position]?).bind (·.answer target metrics)).map
        fun call => { state with calls := state.calls.set position call }
  | .refuse position =>
      (state.calls[position]?).bind fun call =>
        if call.stable = none ∨ call.canary = none then
          some { state with calls := state.calls.eraseIdx position }
        else none
  | .finishAnalysis position =>
      (state.calls[position]?).bind fun call =>
        match call.stable, call.canary, call.passed with
        | some stable, some canary, none =>
            some (state.finishAnalysis position call stable canary)
        | _, _, _ => none
  | .finishPromote position =>
      (state.calls[position]?).bind fun call =>
        match call.promotes, call.passed with
        | true, some passed => some (state.finishPromote position call passed)
        | _, _ => none

/-- The weight is a percentage, no step raises it unless a `promote` is under
way, and after a rollback it stays zero until a later `promote` raises it. -/
structure RollbackLaw (state : State) : Prop where
  bounds : 0 ≤ state.release.canaryWeight ∧ state.release.canaryWeight ≤ 100
  quiet : ∀ label next, step state label = some next →
    state.release.canaryWeight < next.release.canaryWeight →
    ∃ call ∈ state.calls, call.promotes = true
  final : 0 < state.rollbacks → state.raised = false →
    state.release.canaryWeight = 0

/-- A `promote` that goes on with passed thresholds, while the weight is held
at zero by a rollback, was called after that rollback. -/
def PromotesAfresh (state : State) : Label → Prop
  | .finishPromote position =>
      ∀ call ∈ state.calls[position]?, call.passed = some true →
        0 < state.release.stepSize → 0 < state.rollbacks →
        state.raised = false → call.since = state.rollbacks
  | _ => True

instance PromotesAfresh.decidable (state : State) (label : Label) :
    Decidable (PromotesAfresh state label) :=
  match label with
  | .finishPromote position =>
      inferInstanceAs (Decidable (∀ call ∈ state.calls[position]?,
        call.passed = some true → 0 < state.release.stepSize →
          0 < state.rollbacks → state.raised = false →
            call.since = state.rollbacks))
  | .promote => inferInstanceAs (Decidable True)
  | .analyse => inferInstanceAs (Decidable True)
  | .rollback => inferInstanceAs (Decidable True)
  | .pause => inferInstanceAs (Decidable True)
  | .resume => inferInstanceAs (Decidable True)
  | .answer _ _ _ => inferInstanceAs (Decidable True)
  | .refuse _ => inferInstanceAs (Decidable True)
  | .finishAnalysis _ => inferInstanceAs (Decidable True)

variable {config : CanaryConfig} {state next : State} {label : Label}
  {position : ℕ} {call : Call} {passed : Bool}

/-! ## What a step does to the weight -/

/-- A step that leaves alone what the law is about. -/
structure Keeps (state next : State) : Prop where
  weight : next.release.canaryWeight = state.release.canaryWeight
  stepSize : next.release.stepSize = state.release.stepSize
  rollbacks : next.rollbacks = state.rollbacks
  raised : next.raised = state.raised

theorem finishPromote_of_step
    (hstep : step state (.finishPromote position) = some next) :
    ∃ call passed, state.calls[position]? = some call ∧
      call.promotes = true ∧ call.passed = some passed ∧
      next = state.finishPromote position call passed := by
  obtain ⟨call, hcall, hnext⟩ := Option.bind_eq_some_iff.mp hstep
  split at hnext
  · rename_i passed hpromotes hpassed
    exact ⟨call, passed, hcall, hpromotes, hpassed,
      (Option.some.inj hnext).symm⟩
  · cases hnext

theorem keeps_finishAnalysis (state : State) (position : ℕ) (call : Call)
    (stable canary : CanaryMetrics) :
    Keeps state (state.finishAnalysis position call stable canary) := by
  obtain ⟨hweight, hstep⟩ := state.release.finishAnalysis_fst stable canary
  exact ⟨hweight, hstep, rfl, rfl⟩

/-- Only a rollback and the end of a `promote` change the weight. -/
theorem step_cases (hstep : step state label = some next) :
    label = .rollback ∧ next = state.rollback ∨
      (∃ position, label = .finishPromote position) ∨ Keeps state next := by
  cases label with
  | promote =>
      cases hstep
      exact .inr (.inr ⟨rfl, rfl, rfl, rfl⟩)
  | analyse =>
      cases hstep
      exact .inr (.inr ⟨rfl, rfl, rfl, rfl⟩)
  | rollback =>
      cases hstep
      exact .inl ⟨rfl, rfl⟩
  | pause =>
      cases hstep
      exact .inr (.inr ⟨CanaryRelease.canaryWeight_setPhase _ _,
        CanaryRelease.stepSize_setPhase _ _, rfl, rfl⟩)
  | resume =>
      cases hstep
      obtain ⟨hweight, hsize⟩ := state.release.resume_keeps
      exact .inr (.inr ⟨hweight, hsize, rfl, rfl⟩)
  | answer position target metrics =>
      obtain ⟨call, -, rfl⟩ := Option.map_eq_some_iff.mp hstep
      exact .inr (.inr ⟨rfl, rfl, rfl, rfl⟩)
  | refuse position =>
      obtain ⟨call, -, hnext⟩ := Option.bind_eq_some_iff.mp hstep
      obtain ⟨-, hnext⟩ := Option.ite_none_right_eq_some.mp hnext
      cases hnext
      exact .inr (.inr ⟨rfl, rfl, rfl, rfl⟩)
  | finishAnalysis position =>
      obtain ⟨call, -, hnext⟩ := Option.bind_eq_some_iff.mp hstep
      split at hnext
      · cases hnext
        exact .inr (.inr (keeps_finishAnalysis _ _ _ _ _))
      · cases hnext
  | finishPromote position => exact .inr (.inl ⟨position, rfl⟩)

/-! ## What holds in every run whose promotions are called afresh -/

structure Invariant (state : State) : Prop where
  stepSize : 0 ≤ state.release.stepSize
  bounds : 0 ≤ state.release.canaryWeight ∧ state.release.canaryWeight ≤ 100
  final : 0 < state.rollbacks → state.raised = false →
    state.release.canaryWeight = 0

theorem Invariant.of_keeps (hinv : Invariant state)
    (hkeeps : Keeps state next) : Invariant next := by
  refine ⟨?_, ?_, ?_⟩
  · rw [hkeeps.stepSize]
    exact hinv.stepSize
  · rw [hkeeps.weight]
    exact hinv.bounds
  · rw [hkeeps.weight, hkeeps.rollbacks, hkeeps.raised]
    exact hinv.final

theorem Invariant.rollback (hinv : Invariant state) :
    Invariant state.rollback := by
  refine ⟨?_, ?_, fun _ _ => CanaryRelease.canaryWeight_rollback _⟩
  · rw [State.rollback, CanaryRelease.stepSize_rollback]
    exact hinv.stepSize
  · rw [State.rollback, CanaryRelease.canaryWeight_rollback]
    exact ⟨le_refl 0, by decide⟩

theorem bounds_finishPromote (hinv : Invariant state) (passed : Bool) :
    0 ≤ (state.release.finishPromote passed).canaryWeight ∧
      (state.release.finishPromote passed).canaryWeight ≤ 100 := by
  rw [CanaryRelease.canaryWeight_finishPromote]
  split
  · exact ⟨le_min (by decide) (add_nonneg hinv.bounds.1 hinv.stepSize),
      min_le_left _ _⟩
  · exact hinv.bounds

/-- A weight of zero is raised exactly by a passed analysis and a positive
step size. -/
theorem finishPromote_of_zero (hinv : Invariant state)
    (hzero : state.release.canaryWeight = 0) :
    (state.release.finishPromote passed).canaryWeight ≠ 0 ↔
      passed = true ∧ 0 < state.release.stepSize := by
  rw [CanaryRelease.canaryWeight_finishPromote, hzero, zero_add]
  cases passed with
  | false => simp
  | true =>
      rw [if_pos rfl]
      constructor
      · intro hne
        refine ⟨rfl, lt_of_le_of_ne hinv.stepSize fun hsize => hne ?_⟩
        rw [← hsize]
        exact min_eq_right (by decide)
      · rintro ⟨-, hpos⟩
        exact ne_of_gt (lt_min (by decide) hpos)

theorem Invariant.finishPromote (hinv : Invariant state)
    (hcall : state.calls[position]? = some call)
    (hpassed : call.passed = some passed)
    (hafresh : PromotesAfresh state (.finishPromote position)) :
    Invariant (state.finishPromote position call passed) := by
  refine ⟨?_, bounds_finishPromote hinv passed, ?_⟩
  · rw [State.finishPromote, CanaryRelease.stepSize_finishPromote]
    exact hinv.stepSize
  · intro hrollbacks hraised
    simp only [State.finishPromote, Bool.or_eq_false_iff] at hraised
    obtain ⟨hbefore, hraises⟩ := hraised
    have hzero := hinv.final hrollbacks hbefore
    by_contra hne
    obtain ⟨rfl, hpos⟩ := (finishPromote_of_zero hinv hzero).mp hne
    have hsince := hafresh call hcall hpassed hpos hrollbacks hbefore
    have hlt : state.release.canaryWeight <
        (state.release.finishPromote true).canaryWeight := by
      rw [hzero]
      exact lt_of_le_of_ne (bounds_finishPromote hinv true).1 (Ne.symm hne)
    simp [hsince, hlt] at hraises

theorem Invariant.step (hinv : Invariant state)
    (hafresh : PromotesAfresh state label)
    (hstep : step state label = some next) : Invariant next := by
  obtain ⟨rfl, rfl⟩ | ⟨position, rfl⟩ | hkeeps := step_cases hstep
  · exact hinv.rollback
  · obtain ⟨call, passed, hcall, -, hpassed, rfl⟩ :=
      finishPromote_of_step hstep
    exact hinv.finishPromote hcall hpassed hafresh
  · exact hinv.of_keeps hkeeps

/-- A step that raises the weight ends a `promote`. -/
theorem promotes_of_raise (hinv : Invariant state)
    (hstep : step state label = some next)
    (hraise : state.release.canaryWeight < next.release.canaryWeight) :
    ∃ call ∈ state.calls, call.promotes = true := by
  obtain ⟨rfl, rfl⟩ | ⟨position, rfl⟩ | hkeeps := step_cases hstep
  · rw [State.rollback, CanaryRelease.canaryWeight_rollback] at hraise
    exact absurd hinv.bounds.1 (not_le_of_gt hraise)
  · obtain ⟨call, passed, hcall, hpromotes, -⟩ := finishPromote_of_step hstep
    exact ⟨call, List.mem_of_getElem? hcall, hpromotes⟩
  · rw [hkeeps.weight] at hraise
    exact absurd hraise (lt_irrefl _)

theorem Invariant.law (hinv : Invariant state) : RollbackLaw state :=
  ⟨hinv.bounds, fun _ _ => promotes_of_raise hinv, hinv.final⟩

/-- A `promote` from before the rollback raises the weight from zero. -/
theorem not_rollbackLaw_of_step (hinv : Invariant state)
    (hnot : ¬ PromotesAfresh state label)
    (hstep : step state label = some next) : ¬ RollbackLaw next := by
  cases label with
  | finishPromote position =>
      intro hlaw
      obtain ⟨call, passed, hcall, -, hpassed, rfl⟩ :=
        finishPromote_of_step hstep
      apply hnot
      intro other hother htrue hpos hrollbacks hraised
      rw [hcall] at hother
      cases hother
      rw [hpassed] at htrue
      cases htrue
      by_contra hsince
      have hzero := hinv.final hrollbacks hraised
      refine (finishPromote_of_zero hinv hzero).mpr ⟨rfl, hpos⟩
        (hlaw.final hrollbacks ?_)
      simp [State.finishPromote, hraised, hsince]
  | _ => exact absurd trivial hnot

theorem invariant_initial (hsize : 0 ≤ config.stepSize.getD 10)
    (hweight : 0 ≤ config.initialWeight.getD 5 ∧
      config.initialWeight.getD 5 ≤ 100) :
    Invariant (State.initial config) :=
  ⟨hsize, hweight, fun hpos => absurd hpos (lt_irrefl 0)⟩

/-- A run keeps the law of rollbacks if and only if no `promote` that was
called before a rollback is the first to raise the weight after it. -/
theorem rollbackLaw_iff_promotesAfresh {labels : List Label}
    (hsize : 0 ≤ config.stepSize.getD 10)
    (hweight : 0 ≤ config.initialWeight.getD 5 ∧
      config.initialWeight.getD 5 ≤ 100)
    (hrun : exec step (State.initial config) labels = some state) :
    Throughout step RollbackLaw (State.initial config) labels ↔
      StepsMeet step PromotesAfresh (State.initial config) labels :=
  throughout_iff_stepsMeet (I := Invariant)
    (fun _ hinv => hinv.law)
    (fun _ _ _ hinv hafresh hstep => hinv.step hafresh hstep)
    (fun _ _ _ hinv hnot hstep => not_rollbackLaw_of_step hinv hnot hstep)
    (invariant_initial hsize hweight) hrun

/-- A canary with the defaults of every option. -/
def defaults : CanaryConfig := ⟨none, none, none, none⟩

def healthy : CanaryMetrics := ⟨some (1 / 100), some 100⟩

/-- A `promote` whose metrics arrive, with `between` before it goes on. -/
def promoteAround (between : List Label) : List Label :=
  [.promote, .answer 0 .canary healthy, .answer 0 .stable healthy] ++
    between ++ [.finishAnalysis 0, .finishPromote 0]

theorem rollbackLaw_iff_promotesAfresh_samples :
    Throughout step RollbackLaw (State.initial defaults)
        ([.rollback] ++ promoteAround [.pause]) ∧
      ¬ Throughout step RollbackLaw (State.initial defaults)
        (promoteAround [.rollback]) := by
  have hafter : (exec step (State.initial defaults)
      ([.rollback] ++ promoteAround [.pause])).isSome := by
    decide +kernel
  have haround : (exec step (State.initial defaults)
      (promoteAround [.rollback])).isSome := by
    decide +kernel
  obtain ⟨_, hafter⟩ := Option.isSome_iff_exists.mp hafter
  obtain ⟨_, haround⟩ := Option.isSome_iff_exists.mp haround
  constructor
  · apply (rollbackLaw_iff_promotesAfresh (by decide) (by decide)
      hafter).mpr
    decide +kernel
  · intro hlaw
    have hmeet := (rollbackLaw_iff_promotesAfresh (by decide) (by decide)
      haround).mp hlaw
    exact absurd hmeet (by decide +kernel)

/-- A rollback while a `promote` waits for metrics is undone by it. -/
theorem not_rollbackLaw_of_promoteAround :
    ∃ state,
      exec step (State.initial defaults) (promoteAround [.rollback]) =
        some state ∧
      state.release.canaryWeight = 10 ∧
      state.release.phase = .progressing ∧ ¬ RollbackLaw state := by
  have hends : (exec step (State.initial defaults)
      (promoteAround [.rollback])).any (fun state => decide
        (state.release.canaryWeight = 10 ∧
          state.release.phase = .progressing ∧ 0 < state.rollbacks ∧
            state.raised = false)) = true := by
    decide +kernel
  obtain ⟨state, hrun, hfacts⟩ := (Option.any_eq_true _ _).mp hends
  obtain ⟨hweight, hphase, hrollbacks, hraised⟩ := of_decide_eq_true hfacts
  refine ⟨state, hrun, hweight, hphase, fun hlaw => ?_⟩
  have hzero := hlaw.final hrollbacks hraised
  rw [hweight] at hzero
  exact absurd hzero (by decide)

end TsCommons.K8s
