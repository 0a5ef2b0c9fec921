import Mathlib.Data.List.Basic
import Mathlib.Tactic.Common

/-!
# Executions of guarded transition functions

A component is given by a guarded, executable transition function: `step s l`
is the state after the label `l`, or `none` where `l` is not enabled in `s`.
An interleaving of concurrent parties is a list of labels, so "for every
interleaving" is a quantifier over lists, and a concrete schedule can be
replayed by evaluation.  Conditions on a run are stated either on each step
(`StepsMeet`) or on each state visited (`Throughout`).
-/

namespace TsCommons.Foundations

variable {σ ι : Type*}

/-- The state after a list of labels, if each of them is enabled in turn. -/
def exec (step : σ → ι → Option σ) : σ → List ι → Option σ
  | state, [] => some state
  | state, label :: rest =>
      (step state label).bind fun next => exec step next rest

/-- Every step of the run from `state` along the labels meets `P`, which may
look at the label and at the state before the step. -/
def StepsMeet (step : σ → ι → Option σ) (P : σ → ι → Prop) :
    σ → List ι → Prop
  | _, [] => True
  | state, label :: rest =>
      P state label ∧
        ∀ next, step state label = some next → StepsMeet step P next rest

/-- Every state visited along the labels satisfies `P`, the first and the
last one included. -/
def Throughout (step : σ → ι → Option σ) (P : σ → Prop) :
    σ → List ι → Prop
  | state, [] => P state
  | state, label :: rest =>
      P state ∧
        ∀ next, step state label = some next → Throughout step P next rest

instance StepsMeet.decidable (step : σ → ι → Option σ) (P : σ → ι → Prop)
    [∀ state label, Decidable (P state label)] :
    (state : σ) → (labels : List ι) → Decidable (StepsMeet step P state labels)
  | _, [] => inferInstanceAs (Decidable True)
  | state, label :: rest =>
      match hstep : step state label with
      | none =>
          decidable_of_iff (P state label) (by simp [StepsMeet, hstep])
      | some next =>
          have := StepsMeet.decidable step P next rest
          decidable_of_iff (P state label ∧ StepsMeet step P next rest)
            (by simp [StepsMeet, hstep])

instance Throughout.decidable (step : σ → ι → Option σ) (P : σ → Prop)
    [DecidablePred P] :
    (state : σ) → (labels : List ι) → Decidable (Throughout step P state labels)
  | state, [] => inferInstanceAs (Decidable (P state))
  | state, label :: rest =>
      match hstep : step state label with
      | none =>
          decidable_of_iff (P state) (by simp [Throughout, hstep])
      | some next =>
          have := Throughout.decidable step P next rest
          decidable_of_iff (P state ∧ Throughout step P next rest)
            (by simp [Throughout, hstep])

variable {step : σ → ι → Option σ} {P : σ → ι → Prop} {Q I : σ → Prop}

@[simp] theorem exec_nil (step : σ → ι → Option σ) (state : σ) :
    exec step state [] = some state := rfl

theorem exec_cons_eq_some {state last : σ} {label : ι} {rest : List ι} :
    exec step state (label :: rest) = some last ↔
      ∃ next, step state label = some next ∧
        exec step next rest = some last :=
  Option.bind_eq_some_iff

theorem exec_append_eq_some {state last : σ} {before after : List ι} :
    exec step state (before ++ after) = some last ↔
      ∃ middle, exec step state before = some middle ∧
        exec step middle after = some last := by
  induction before generalizing state with
  | nil => simp
  | cons label before ih =>
      rw [List.cons_append, exec_cons_eq_some]
      constructor
      · rintro ⟨next, hstep, hrest⟩
        obtain ⟨middle, hbefore, hafter⟩ := ih.mp hrest
        exact ⟨middle, exec_cons_eq_some.mpr ⟨next, hstep, hbefore⟩, hafter⟩
      · rintro ⟨middle, hbefore, hafter⟩
        obtain ⟨next, hstep, hrest⟩ := exec_cons_eq_some.mp hbefore
        exact ⟨next, hstep, ih.mpr ⟨middle, hrest, hafter⟩⟩

theorem exec_singleton_eq_some {state last : σ} {label : ι} :
    exec step state [label] = some last ↔ step state label = some last := by
  simp [exec]

theorem exec_eq_foldl {next : σ → ι → σ}
    (htotal : ∀ state label, step state label = some (next state label))
    (state : σ) (labels : List ι) :
    exec step state labels = some (labels.foldl next state) := by
  induction labels generalizing state with
  | nil => rfl
  | cons label rest ih =>
      exact exec_cons_eq_some.mpr ⟨_, htotal state label, ih _⟩

/-- A label that occurs in a run splits it at one of its steps. -/
theorem exec_split_of_mem {state last : σ} {labels : List ι} {label : ι}
    (hrun : exec step state labels = some last) (hmem : label ∈ labels) :
    ∃ before after middle next,
      labels = before ++ label :: after ∧
      exec step state before = some middle ∧
      step middle label = some next ∧
      exec step next after = some last := by
  obtain ⟨before, after, rfl⟩ := List.append_of_mem hmem
  obtain ⟨middle, hbefore, hrest⟩ := exec_append_eq_some.mp hrun
  obtain ⟨next, hstep, hafter⟩ := exec_cons_eq_some.mp hrest
  exact ⟨before, after, middle, next, rfl, hbefore, hstep, hafter⟩

theorem StepsMeet.append_right {state middle : σ} {before after : List ι}
    (hmeet : StepsMeet step P state (before ++ after))
    (hrun : exec step state before = some middle) :
    StepsMeet step P middle after := by
  induction before generalizing state with
  | nil =>
      cases hrun
      exact hmeet
  | cons label before ih =>
      obtain ⟨next, hstep, hrest⟩ := exec_cons_eq_some.mp hrun
      exact ih (hmeet.2 next hstep) hrest

theorem StepsMeet.append_left {state : σ} {before after : List ι}
    (hmeet : StepsMeet step P state (before ++ after)) :
    StepsMeet step P state before := by
  induction before generalizing state with
  | nil => trivial
  | cons label before ih =>
      exact ⟨hmeet.1, fun next hstep => ih (hmeet.2 next hstep)⟩

theorem StepsMeet.head_of_append {state middle : σ} {before after : List ι}
    {label : ι}
    (hmeet : StepsMeet step P state (before ++ label :: after))
    (hrun : exec step state before = some middle) :
    P middle label :=
  (hmeet.append_right hrun).1

theorem StepsMeet.mono {P' : σ → ι → Prop} {state : σ} {labels : List ι}
    (himp : ∀ state label, P state label → P' state label)
    (hmeet : StepsMeet step P state labels) :
    StepsMeet step P' state labels := by
  induction labels generalizing state with
  | nil => trivial
  | cons label rest ih =>
      exact ⟨himp _ _ hmeet.1, fun next hstep => ih (hmeet.2 next hstep)⟩

theorem StepsMeet.of_forall_mem {state : σ} {labels : List ι}
    (hall : ∀ label ∈ labels, ∀ state, P state label) :
    StepsMeet step P state labels := by
  induction labels generalizing state with
  | nil => trivial
  | cons label rest ih =>
      refine ⟨hall label List.mem_cons_self state, fun next _ => ?_⟩
      exact ih fun other hother =>
        hall other (List.mem_cons_of_mem label hother)

theorem StepsMeet.of_forall_split {state : σ} {labels : List ι}
    (hall : ∀ before label after middle, labels = before ++ label :: after →
      exec step state before = some middle → P middle label) :
    StepsMeet step P state labels := by
  induction labels generalizing state with
  | nil => trivial
  | cons first rest ih =>
      refine ⟨hall [] first rest state rfl rfl, fun next hnext => ih ?_⟩
      intro before label after middle hsplit hrun
      exact hall (first :: before) label after middle
        (by rw [hsplit, List.cons_append])
        (exec_cons_eq_some.mpr ⟨next, hnext, hrun⟩)

theorem StepsMeet.append {state : σ} {before after : List ι}
    (hbefore : StepsMeet step P state before)
    (hafter : ∀ middle, exec step state before = some middle →
      StepsMeet step P middle after) :
    StepsMeet step P state (before ++ after) := by
  induction before generalizing state with
  | nil => exact hafter state rfl
  | cons label before ih =>
      refine ⟨hbefore.1, fun next hstep => ih (hbefore.2 next hstep) ?_⟩
      intro middle hrun
      exact hafter middle (exec_cons_eq_some.mpr ⟨next, hstep, hrun⟩)

theorem StepsMeet.and_of_forall_mem {R : ι → Prop} {state : σ}
    {labels : List ι} (hmeet : StepsMeet step P state labels)
    (hmem : ∀ label ∈ labels, R label) :
    StepsMeet step (fun state label => P state label ∧ R label) state
      labels := by
  induction labels generalizing state with
  | nil => trivial
  | cons label rest ih =>
      refine ⟨⟨hmeet.1, hmem label List.mem_cons_self⟩, fun next hstep => ?_⟩
      exact ih (hmeet.2 next hstep) fun other hother =>
        hmem other (List.mem_cons_of_mem label hother)

theorem Throughout.head {state : σ} {labels : List ι}
    (hall : Throughout step Q state labels) : Q state := by
  cases labels with
  | nil => exact hall
  | cons label rest => exact hall.1

theorem Throughout.append_right {state middle : σ} {before after : List ι}
    (hall : Throughout step Q state (before ++ after))
    (hrun : exec step state before = some middle) :
    Throughout step Q middle after := by
  induction before generalizing state with
  | nil =>
      cases hrun
      exact hall
  | cons label before ih =>
      obtain ⟨next, hstep, hrest⟩ := exec_cons_eq_some.mp hrun
      exact ih (hall.2 next hstep) hrest

theorem Throughout.append_left {state : σ} {before after : List ι}
    (hall : Throughout step Q state (before ++ after)) :
    Throughout step Q state before := by
  induction before generalizing state with
  | nil => exact hall.head
  | cons label before ih =>
      exact ⟨hall.1, fun next hstep => ih (hall.2 next hstep)⟩

theorem Throughout.last {state last : σ} {labels : List ι}
    (hall : Throughout step Q state labels)
    (hrun : exec step state labels = some last) : Q last := by
  rw [← List.append_nil labels] at hall
  exact hall.append_right hrun

/-! ## Invariant rules -/

/-- The invariant rule for runs whose steps meet a condition. -/
theorem exec_invariant_of_stepsMeet
    (hstep : ∀ state label next, I state → P state label →
      step state label = some next → I next)
    {state last : σ} {labels : List ι}
    (hinit : I state) (hmeet : StepsMeet step P state labels)
    (hrun : exec step state labels = some last) : I last := by
  induction labels generalizing state with
  | nil =>
      cases hrun
      exact hinit
  | cons label rest ih =>
      obtain ⟨next, hnext, hrest⟩ := exec_cons_eq_some.mp hrun
      exact ih (hstep _ _ _ hinit hmeet.1 hnext) (hmeet.2 next hnext) hrest

/-- The invariant rule for runs all of whose states satisfy a condition. -/
theorem exec_invariant_of_throughout
    (hstep : ∀ state label next, I state → Q state → Q next →
      step state label = some next → I next)
    {state last : σ} {labels : List ι}
    (hinit : I state) (hall : Throughout step Q state labels)
    (hrun : exec step state labels = some last) : I last := by
  induction labels generalizing state with
  | nil =>
      cases hrun
      exact hinit
  | cons label rest ih =>
      obtain ⟨next, hnext, hrest⟩ := exec_cons_eq_some.mp hrun
      have htail := hall.2 next hnext
      exact ih (hstep _ _ _ hinit hall.1 htail.head hnext) htail hrest

/-- The unconditional invariant rule. -/
theorem exec_invariant
    (hstep : ∀ state label next, I state →
      step state label = some next → I next)
    {state last : σ} {labels : List ι}
    (hinit : I state) (hrun : exec step state labels = some last) :
    I last := by
  induction labels generalizing state with
  | nil =>
      cases hrun
      exact hinit
  | cons label rest ih =>
      obtain ⟨next, hnext, hrest⟩ := exec_cons_eq_some.mp hrun
      exact ih (hstep _ _ _ hinit hnext) hrest

theorem StepsMeet.of_invariant {P' : σ → ι → Prop}
    (hstep : ∀ state label next, I state → P state label →
      step state label = some next → I next)
    (himp : ∀ state label, I state → P state label → P' state label)
    {state : σ} {labels : List ι} (hinit : I state)
    (hmeet : StepsMeet step P state labels) :
    StepsMeet step P' state labels := by
  induction labels generalizing state with
  | nil => trivial
  | cons label rest ih =>
      refine ⟨himp _ _ hinit hmeet.1, fun next hnext => ?_⟩
      exact ih (hstep _ _ _ hinit hmeet.1 hnext) (hmeet.2 next hnext)

/-- Two conditions that agree on the states of an invariant are met by the
steps of the same runs. -/
theorem stepsMeet_congr {P' : σ → ι → Prop}
    (hstep : ∀ state label next, I state →
      step state label = some next → I next)
    (hiff : ∀ state label, I state → (P state label ↔ P' state label))
    {state : σ} {labels : List ι} (hinit : I state) :
    StepsMeet step P state labels ↔ StepsMeet step P' state labels := by
  induction labels generalizing state with
  | nil => exact Iff.rfl
  | cons label rest ih =>
      apply and_congr (hiff state label hinit)
      apply forall_congr'
      intro next
      exact imp_congr_right fun hnext => ih (hstep _ _ _ hinit hnext)

/-- If the states of an invariant satisfy `Q`, and the steps that leave it are
those that do not meet `P` and lead to a state that does not satisfy `Q`, then
a run satisfies `Q` throughout exactly when all its steps meet `P`. -/
theorem throughout_iff_stepsMeet
    (hholds : ∀ state, I state → Q state)
    (hkeeps : ∀ state label next, I state → P state label →
      step state label = some next → I next)
    (hbreaks : ∀ state label next, I state → ¬ P state label →
      step state label = some next → ¬ Q next)
    {state last : σ} {labels : List ι} (hinit : I state)
    (hrun : exec step state labels = some last) :
    Throughout step Q state labels ↔ StepsMeet step P state labels := by
  induction labels generalizing state with
  | nil => exact iff_of_true (hholds state hinit) trivial
  | cons label rest ih =>
      obtain ⟨next, hnext, hrest⟩ := exec_cons_eq_some.mp hrun
      constructor
      · intro hall
        have htail := hall.2 next hnext
        have hmeets : P state label := by
          by_contra hnot
          exact hbreaks state label next hinit hnot hnext htail.head
        refine ⟨hmeets, fun other hother => ?_⟩
        rw [hnext, Option.some.injEq] at hother
        subst other
        exact (ih (hkeeps _ _ _ hinit hmeets hnext) hrest).mp htail
      · intro hmeet
        refine ⟨hholds state hinit, fun other hother => ?_⟩
        have hmeets := hmeet.2 next hnext
        rw [hnext, Option.some.injEq] at hother
        subst other
        exact (ih (hkeeps _ _ _ hinit hmeet.1 hnext) hrest).mpr hmeets

/-- A condition that is not regained once it is lost holds throughout a run if
and only if it holds at its end. -/
theorem throughout_iff_last
    (hlost : ∀ state label next, step state label = some next →
      Q next → Q state)
    {state last : σ} {labels : List ι}
    (hrun : exec step state labels = some last) :
    Throughout step Q state labels ↔ Q last := by
  refine ⟨fun hall => hall.last hrun, fun hlast => ?_⟩
  induction labels generalizing state with
  | nil =>
      cases hrun
      exact hlast
  | cons label rest ih =>
      obtain ⟨next, hnext, hrest⟩ := exec_cons_eq_some.mp hrun
      have htail := ih hrest
      refine ⟨hlost _ _ _ hnext htail.head, fun other hother => ?_⟩
      rw [hnext, Option.some.injEq] at hother
      subst other
      exact htail

/-! ## Continuations -/

/-- The second state is reached from the first one by labels that satisfy
`R`. -/
def CanReach (step : σ → ι → Option σ) (R : ι → Prop) (state last : σ) :
    Prop :=
  ∃ labels, (∀ label ∈ labels, R label) ∧ exec step state labels = some last

section Continuations

variable {R : ι → Prop} {state middle last : σ}

theorem CanReach.refl (step : σ → ι → Option σ) (R : ι → Prop) (state : σ) :
    CanReach step R state state :=
  ⟨[], List.forall_mem_nil _, rfl⟩

theorem CanReach.of_step {label : ι} (hlabel : R label)
    (hstep : step state label = some last) : CanReach step R state last :=
  ⟨[label], List.forall_mem_singleton.mpr hlabel,
    exec_singleton_eq_some.mpr hstep⟩

theorem CanReach.trans (hbefore : CanReach step R state middle)
    (hafter : CanReach step R middle last) : CanReach step R state last := by
  obtain ⟨before, hlabels, hrun⟩ := hbefore
  obtain ⟨after, hlabelsAfter, hrunAfter⟩ := hafter
  exact ⟨before ++ after, List.forall_mem_append.mpr ⟨hlabels, hlabelsAfter⟩,
    exec_append_eq_some.mpr ⟨middle, hrun, hrunAfter⟩⟩

theorem CanReach.invariant
    (hstep : ∀ state label next, I state → R label →
      step state label = some next → I next)
    (hinit : I state) (hreaches : CanReach step R state last) : I last := by
  obtain ⟨labels, hlabels, hrun⟩ := hreaches
  have hmeet : StepsMeet step (fun _ label => R label) state labels :=
    StepsMeet.of_forall_mem fun label hlabel _ => hlabels label hlabel
  exact exec_invariant_of_stepsMeet hstep hinit hmeet hrun

end Continuations

/-! ## Simulation -/

section Simulation

variable {σ' : Type*} {step' : σ' → ι → Option σ'} {P' : σ' → ι → Prop}
  {view : σ → σ'}

/-- If every step is the same step on the views of its states, a run is the
same run on their views. -/
theorem exec_simulates
    (hstep : ∀ state label next, I state → step state label = some next →
      step' (view state) label = some (view next) ∧ I next)
    {state last : σ} {labels : List ι} (hinit : I state)
    (hrun : exec step state labels = some last) :
    exec step' (view state) labels = some (view last) ∧ I last := by
  induction labels generalizing state with
  | nil =>
      cases hrun
      exact ⟨rfl, hinit⟩
  | cons label rest ih =>
      obtain ⟨next, hnext, hrest⟩ := exec_cons_eq_some.mp hrun
      obtain ⟨hview, hinv⟩ := hstep _ _ _ hinit hnext
      obtain ⟨hviewRest, hlast⟩ := ih hinv hrest
      exact ⟨exec_cons_eq_some.mpr ⟨_, hview, hviewRest⟩, hlast⟩

theorem StepsMeet.simulates
    (hstep : ∀ state label next, I state → step state label = some next →
      step' (view state) label = some (view next) ∧ I next)
    (himp : ∀ state label, P state label → P' (view state) label)
    {state last : σ} {labels : List ι} (hinit : I state)
    (hrun : exec step state labels = some last)
    (hmeet : StepsMeet step P state labels) :
    StepsMeet step' P' (view state) labels := by
  induction labels generalizing state with
  | nil => trivial
  | cons label rest ih =>
      obtain ⟨next, hnext, hrest⟩ := exec_cons_eq_some.mp hrun
      obtain ⟨hview, hinv⟩ := hstep _ _ _ hinit hnext
      refine ⟨himp _ _ hmeet.1, fun other hother => ?_⟩
      rw [hview, Option.some.injEq] at hother
      subst other
      exact ih hinv hrest (hmeet.2 next hnext)

end Simulation

end TsCommons.Foundations
