import TsCommons.Resilience.CircuitBreaker
import Mathlib.Tactic.Linarith

/-!
# The open period

A failure that leaves the breaker open keeps functions from being invoked for
`resetTimeoutMs`.  A call that was let through before can still answer in that
period, and `onSuccess` closes the breaker whatever its state is.
-/

namespace TsCommons.Resilience.CircuitBreaker

open Foundations

variable {V Err : Type} {breaker next : State V Err}

/-- No function is invoked in the period behind a failure that has left the
breaker open. -/
def OpenPeriodLaw (resetTimeoutMs : ℚ) (log : List (Effect V Err)) : Prop :=
  ∀ later earlier call error opening,
    log = later ++ .failed call error opening .opened :: earlier →
    ∀ other time, .invoked other time ∈ later → opening < time →
      opening + resetTimeoutMs < time

def PeriodOver (resetTimeoutMs opening now : ℚ) : Prop :=
  0 < resetTimeoutMs → opening + resetTimeoutMs < now

/-- A success that finds the breaker open comes after the open period. -/
def KeepsOpen (breaker : State V Err) : Label V Err → Prop
  | .fnSettles _ (.ok _) =>
      breaker.state = .opened → 0 < breaker.resetTimeoutMs →
        breaker.ResetElapsed
  | _ => True

instance (breaker : State V Err) : DecidablePred (KeepsOpen breaker)
  | .advance _ => inferInstanceAs (Decidable True)
  | .execute => inferInstanceAs (Decidable True)
  | .fnSettles _ (.ok _) => inferInstanceAs (Decidable (_ → _ → _))
  | .fnSettles _ (.error _) => inferInstanceAs (Decidable True)

namespace OpenPeriodLaw

variable {resetTimeoutMs : ℚ} {log : List (Effect V Err)}

theorem cons (hlaw : OpenPeriodLaw resetTimeoutMs log)
    {effect : Effect V Err}
    (heffect : ∀ other time, effect = .invoked other time →
      ∀ call error opening, .failed call error opening .opened ∈ log →
        opening < time → opening + resetTimeoutMs < time) :
    OpenPeriodLaw resetTimeoutMs (effect :: log) := by
  intro later earlier call error opening hsplit other time hmem hlt
  cases later with
  | nil => simp at hmem
  | cons first later =>
      rw [List.cons_append, List.cons.injEq] at hsplit
      obtain ⟨rfl, hsplit⟩ := hsplit
      rcases List.mem_cons.mp hmem with heq | hold
      · apply heffect other time heq.symm call error opening _ hlt
        rw [hsplit]
        simp
      · exact hlaw later earlier call error opening hsplit other time hold
          hlt

end OpenPeriodLaw

/-- Each failure that has left the breaker open has its period over, or finds
the breaker open since a failure that is as late. -/
structure OpenPeriodInvariant (resetTimeoutMs : ℚ)
    (breaker : State V Err) : Prop where
  reset : breaker.resetTimeoutMs = resetTimeoutMs
  law : OpenPeriodLaw resetTimeoutMs breaker.log
  past : ∀ last, breaker.lastFailureTime = some last → last ≤ breaker.clock
  opened : breaker.state = .opened →
    ∃ call error last, breaker.lastFailureTime = some last ∧
      .failed call error last .opened ∈ breaker.log
  reached : breaker.state ≠ .closed →
    breaker.failureThreshold ≤ breaker.failures
  periods : ∀ call error opening,
    .failed call error opening .opened ∈ breaker.log →
      opening ≤ breaker.clock ∧
      (breaker.state = .opened ∧
          (∃ last, breaker.lastFailureTime = some last ∧ opening ≤ last) ∨
        PeriodOver resetTimeoutMs opening breaker.clock)

theorem openPeriodInvariant_initial
    (failureThreshold resetTimeoutMs clock : ℚ) :
    OpenPeriodInvariant resetTimeoutMs
      (State.initial failureThreshold resetTimeoutMs clock :
        State V Err) := by
  constructor <;> simp [State.initial, OpenPeriodLaw]

namespace OpenPeriodInvariant

variable {resetTimeoutMs : ℚ}

theorem advance (hinv : OpenPeriodInvariant resetTimeoutMs breaker)
    {now : ℚ} (hnow : breaker.clock ≤ now) :
    OpenPeriodInvariant resetTimeoutMs { breaker with clock := now } := by
  constructor
  · exact hinv.reset
  · exact hinv.law
  · intro last hlast
    exact (hinv.past last hlast).trans hnow
  · exact hinv.opened
  · exact hinv.reached
  · intro call error opening hmem
    obtain ⟨hle, hperiod⟩ := hinv.periods call error opening hmem
    refine ⟨hle.trans hnow, hperiod.imp_right fun helapsed hpos => ?_⟩
    exact (helapsed hpos).trans_le hnow

/-- A step that adds an effect to the log that no period depends on. -/
theorem record (hinv : OpenPeriodInvariant resetTimeoutMs breaker)
    {effect : Effect V Err} (hfailure : effect.isFailure = false)
    (hinvoked : ∀ other time, effect = .invoked other time →
      breaker.state ≠ .opened ∧ time = breaker.clock) :
    OpenPeriodInvariant resetTimeoutMs (breaker.record effect) := by
  have hold : ∀ call error opening,
      .failed call error opening .opened ∈ effect :: breaker.log →
        .failed call error opening .opened ∈ breaker.log := by
    intro call error opening hmem
    rcases List.mem_cons.mp hmem with rfl | hmem
    · simp [Effect.isFailure] at hfailure
    · exact hmem
  constructor
  · exact hinv.reset
  · apply hinv.law.cons
    intro other time heq call error opening hmem hlt
    obtain ⟨hnotOpened, rfl⟩ := hinvoked other time heq
    rcases (hinv.periods call error opening hmem).2 with ⟨hopened, -⟩ |
      helapsed
    · exact absurd hopened hnotOpened
    · by_cases hpos : 0 < resetTimeoutMs
      · exact helapsed hpos
      · linarith
  · exact hinv.past
  · intro hopened
    obtain ⟨call, error, last, hlast, hmem⟩ := hinv.opened hopened
    exact ⟨call, error, last, hlast, List.mem_cons_of_mem effect hmem⟩
  · exact hinv.reached
  · intro call error opening hmem
    exact hinv.periods call error opening (hold call error opening hmem)

theorem setCall (hinv : OpenPeriodInvariant resetTimeoutMs breaker)
    (call : ℕ) (progress : CallProgress) :
    OpenPeriodInvariant resetTimeoutMs (breaker.setCall call progress) :=
  ⟨hinv.reset, hinv.law, hinv.past, hinv.opened, hinv.reached, hinv.periods⟩

theorem reject (hinv : OpenPeriodInvariant resetTimeoutMs breaker) :
    OpenPeriodInvariant resetTimeoutMs breaker.reject := by
  have hrecord : OpenPeriodInvariant resetTimeoutMs
      ((breaker.setCall breaker.begun .settled).record
        (.rejected breaker.begun .circuitBreakerOpenError)) := by
    apply (hinv.setCall breaker.begun .settled).record rfl
    intro other time heq
    cases heq
  exact ⟨hrecord.reset, hrecord.law, hrecord.past, hrecord.opened,
    hrecord.reached, hrecord.periods⟩

theorem invoke (hinv : OpenPeriodInvariant resetTimeoutMs breaker)
    (hopened : breaker.state ≠ .opened) :
    OpenPeriodInvariant resetTimeoutMs breaker.invoke := by
  have hrecord : OpenPeriodInvariant resetTimeoutMs
      ((breaker.setCall breaker.begun .invoking).record
        (.invoked breaker.begun breaker.clock)) := by
    apply (hinv.setCall breaker.begun .invoking).record rfl
    intro other time heq
    cases heq
    exact ⟨hopened, rfl⟩
  exact ⟨hrecord.reset, hrecord.law, hrecord.past, hrecord.opened,
    hrecord.reached, hrecord.periods⟩

/-- Once the timeout has elapsed, every open period is over. -/
theorem periods_of_resetElapsed
    (hinv : OpenPeriodInvariant resetTimeoutMs breaker)
    (helapsed : breaker.state = .opened → 0 < resetTimeoutMs →
      breaker.ResetElapsed) :
    ∀ call error opening,
      .failed call error opening .opened ∈ breaker.log →
        PeriodOver resetTimeoutMs opening breaker.clock := by
  intro call error opening hmem hpos
  rcases (hinv.periods call error opening hmem).2 with
    ⟨hopened, last, hlast, hle⟩ | hover
  · have hreset := helapsed hopened hpos
    simp only [State.ResetElapsed, hlast, Option.getD_some,
      hinv.reset] at hreset
    linarith
  · exact hover hpos

theorem halfOpen (hinv : OpenPeriodInvariant resetTimeoutMs breaker)
    (hopened : breaker.state = .opened) (helapsed : breaker.ResetElapsed) :
    OpenPeriodInvariant resetTimeoutMs
      { breaker with state := .halfOpen } := by
  have hover := hinv.periods_of_resetElapsed fun _ _ => helapsed
  constructor
  · exact hinv.reset
  · exact hinv.law
  · exact hinv.past
  · intro hhalfOpen
    cases hhalfOpen
  · intro _
    apply hinv.reached
    rw [hopened]
    simp
  · intro call error opening hmem
    exact ⟨(hinv.periods call error opening hmem).1,
      .inr (hover call error opening hmem)⟩

theorem onSuccess (hinv : OpenPeriodInvariant resetTimeoutMs breaker)
    (helapsed : breaker.state = .opened → 0 < resetTimeoutMs →
      breaker.ResetElapsed) :
    OpenPeriodInvariant resetTimeoutMs breaker.onSuccess := by
  have hover := hinv.periods_of_resetElapsed helapsed
  constructor
  · exact hinv.reset
  · exact hinv.law
  · exact hinv.past
  · intro hopened
    cases hopened
  · exact fun hclosed => absurd rfl hclosed
  · intro call error opening hmem
    exact ⟨(hinv.periods call error opening hmem).1,
      .inr (hover call error opening hmem)⟩

/-- The state that a failure leaves, with its entry in the log. -/
theorem onFailure (hinv : OpenPeriodInvariant resetTimeoutMs breaker)
    (call : ℕ) (error : Err) :
    OpenPeriodInvariant resetTimeoutMs
      (breaker.onFailure.record
        (.failed call error breaker.clock breaker.onFailure.state)) := by
  have hstate : breaker.onFailure.state = .opened ∨
      breaker.onFailure.state = breaker.state ∧
        ¬ breaker.failureThreshold ≤ (breaker.failures + 1 : ℕ) := by
    by_cases hreached :
        breaker.failureThreshold ≤ (breaker.failures + 1 : ℕ)
    · left
      exact if_pos hreached
    · right
      exact ⟨if_neg hreached, hreached⟩
  have hgrows : breaker.state ≠ .closed →
      breaker.failureThreshold ≤ (breaker.failures + 1 : ℕ) := by
    intro hclosed
    apply (hinv.reached hclosed).trans
    exact_mod_cast Nat.le_succ _
  constructor
  · exact hinv.reset
  · apply hinv.law.cons
    intro other time heq
    cases heq
  · intro last hlast
    cases hlast
    exact le_rfl
  · intro hopened
    have hnow : breaker.onFailure.state = .opened := hopened
    refine ⟨call, error, breaker.clock, rfl, ?_⟩
    rw [← hnow]
    exact List.mem_cons_self
  · intro hclosed
    rcases hstate with hopened | ⟨hkept, hbelow⟩
    · by_contra hbelow
      have hsame : breaker.onFailure.state = breaker.state := if_neg hbelow
      apply hbelow
      apply hgrows
      rw [← hsame, hopened]
      simp
    · apply hgrows
      rw [← hkept]
      exact hclosed
  · intro other reason opening hmem
    have hle : opening ≤ breaker.clock := by
      rcases List.mem_cons.mp hmem with heq | hold
      · rw [Effect.failed.injEq] at heq
        exact heq.2.2.1.le
      · exact (hinv.periods other reason opening hold).1
    refine ⟨hle, ?_⟩
    by_cases hopened : breaker.onFailure.state = .opened
    · left
      exact ⟨hopened, breaker.clock, rfl, hle⟩
    · right
      rcases List.mem_cons.mp hmem with heq | hold
      · rw [Effect.failed.injEq] at heq
        exact absurd heq.2.2.2.symm hopened
      · have hkept : breaker.onFailure.state = breaker.state :=
          (hstate.resolve_left hopened).1
        rcases (hinv.periods other reason opening hold).2 with
          ⟨hstillOpen, -⟩ | hover
        · rw [hkept] at hopened
          exact absurd hstillOpen hopened
        · exact hover

theorem step (hinv : OpenPeriodInvariant resetTimeoutMs breaker)
    {label : Label V Err} (hkeeps : KeepsOpen breaker label)
    (hstep : CircuitBreaker.step breaker label = some next) :
    OpenPeriodInvariant resetTimeoutMs next := by
  rcases step_cases hstep with ⟨now, -, hnow, rfl⟩ |
    ⟨-, ⟨hopened, helapsed, rfl⟩ | ⟨-, -, rfl⟩ | ⟨hopened, rfl⟩⟩ |
    ⟨call, result, rfl, -, rfl⟩ | ⟨call, error, -, -, rfl⟩
  · exact hinv.advance hnow
  · apply (hinv.halfOpen hopened helapsed).invoke
    simp
  · exact hinv.reject
  · exact hinv.invoke hopened
  · have hsuccess := hinv.onSuccess fun hopened hpos =>
      hkeeps hopened (hinv.reset ▸ hpos)
    apply (hsuccess.setCall call .settled).record rfl
    intro other time heq
    cases heq
  · apply ((hinv.onFailure call error).setCall call .settled).record rfl
    intro other time heq
    cases heq

end OpenPeriodInvariant

theorem openPeriodInvariant_of_keepsOpen
    {failureThreshold resetTimeoutMs clock : ℚ} {labels : List (Label V Err)}
    (hmeet : StepsMeet step KeepsOpen
      (State.initial failureThreshold resetTimeoutMs clock) labels)
    (hrun : exec step (State.initial failureThreshold resetTimeoutMs clock)
      labels = some breaker) :
    OpenPeriodInvariant resetTimeoutMs breaker :=
  exec_invariant_of_stepsMeet
    (fun _ _ _ hinv hkeeps hstep => hinv.step hkeeps hstep)
    (openPeriodInvariant_initial failureThreshold resetTimeoutMs clock)
    hmeet hrun

/-- A success in the open period closes the breaker, and a call at the end of
the period is let through. -/
theorem exists_invoked_of_success
    {resetTimeoutMs : ℚ} (hinv : OpenPeriodInvariant resetTimeoutMs breaker)
    {call : ℕ} {result : V}
    (hcloses : ¬ KeepsOpen breaker (.fnSettles call (.ok result)))
    (hstep : step breaker (.fnSettles call (.ok result)) = some next) :
    ∃ rest last, exec step next rest = some last ∧
      ¬ OpenPeriodLaw resetTimeoutMs last.log := by
  simp only [KeepsOpen, Classical.not_imp] at hcloses
  obtain ⟨hopened, hpos, hearly⟩ := hcloses
  obtain ⟨failing, error, opening, hlast, hmem⟩ := hinv.opened hopened
  simp only [State.ResetElapsed, hlast, Option.getD_some, hinv.reset,
    not_lt, gt_iff_lt] at hpos hearly
  have hclock : breaker.clock ≤ opening + resetTimeoutMs := by linarith
  simp only [step, Option.ite_none_right_eq_some,
    Option.some.injEq] at hstep
  obtain ⟨-, rfl⟩ := hstep
  refine ⟨[.advance (opening + resetTimeoutMs), .execute], _,
    exec_cons_eq_some.mpr ⟨_, if_pos hclock,
      exec_singleton_eq_some.mpr rfl⟩, fun hlaw => ?_⟩
  obtain ⟨before, after, hlog⟩ := List.append_of_mem hmem
  have hlate := hlaw
    (.invoked breaker.begun (opening + resetTimeoutMs) ::
      .resolved call result :: before) after failing error opening
    (by
      rw [List.cons_append, List.cons_append, ← hlog]
      rfl)
    breaker.begun (opening + resetTimeoutMs) List.mem_cons_self
    (by linarith)
  exact lt_irrefl _ hlate

/-- In a run in which no success finds the breaker in an open period, no call
that starts in the open period invokes its function; and a run that ends with
the first such success can be continued to a call that does. -/
theorem openPeriodLaw_of_keepsOpen
    (failureThreshold resetTimeoutMs clock : ℚ) :
    (∀ (labels : List (Label V Err)) (breaker : State V Err),
      exec step (State.initial failureThreshold resetTimeoutMs clock) labels =
        some breaker →
      StepsMeet step KeepsOpen
        (State.initial failureThreshold resetTimeoutMs clock) labels →
      OpenPeriodLaw resetTimeoutMs breaker.log) ∧
    ∀ (labels : List (Label V Err)) (breaker next : State V Err) (label),
      exec step (State.initial failureThreshold resetTimeoutMs clock) labels =
        some breaker →
      StepsMeet step KeepsOpen
        (State.initial failureThreshold resetTimeoutMs clock) labels →
      step breaker label = some next →
      ¬ KeepsOpen breaker label →
      ∃ rest last, exec step next rest = some last ∧
        ¬ OpenPeriodLaw resetTimeoutMs last.log := by
  constructor
  · intro labels breaker hrun hmeet
    exact (openPeriodInvariant_of_keepsOpen hmeet hrun).law
  · intro labels breaker next label hrun hmeet hstep hcloses
    have hinv := openPeriodInvariant_of_keepsOpen hmeet hrun
    cases label with
    | fnSettles call outcome =>
        cases outcome with
        | ok result => exact exists_invoked_of_success hinv hcloses hstep
        | error error => exact absurd trivial hcloses
    | _ => exact absurd trivial hcloses

/-- Two calls are let through, the first one fails and opens the breaker, and
the second one is still running. -/
def lateSuccess : List (Label ℕ String) :=
  [.execute, .execute, .advance 10, .fnSettles 0 (.error "down"),
    .advance 15]

theorem openPeriodLaw_of_keepsOpen_lateSuccess :
    (∃ breaker, exec step (State.initial 1 100 0) lateSuccess =
      some breaker ∧ OpenPeriodLaw 100 breaker.log) ∧
    ∃ breaker next rest last,
      exec step (State.initial 1 100 0) lateSuccess = some breaker ∧
      step breaker (.fnSettles 1 (.ok 7)) = some next ∧
      exec step next rest = some last ∧
      ¬ OpenPeriodLaw 100 last.log := by
  have hmeet : StepsMeet step KeepsOpen (State.initial 1 100 0)
      lateSuccess := by
    decide +kernel
  have hends : ∃ breaker next,
      exec step (State.initial 1 100 0) lateSuccess = some breaker ∧
      step breaker (.fnSettles 1 (.ok 7)) = some next ∧
      ¬ KeepsOpen breaker (.fnSettles 1 (.ok 7)) := by
    refine ⟨_, _, rfl, rfl, ?_⟩
    decide +kernel
  obtain ⟨breaker, next, hrun, hstep, hcloses⟩ := hends
  obtain ⟨hlaw, hbreaks⟩ := @openPeriodLaw_of_keepsOpen ℕ String 1 100 0
  obtain ⟨rest, last, hrest, hlast⟩ :=
    hbreaks lateSuccess breaker next _ hrun hmeet hstep hcloses
  exact ⟨⟨breaker, hrun, hlaw lateSuccess breaker hrun hmeet⟩,
    breaker, next, rest, last, hrun, hstep, hrest, hlast⟩

/-- The failure at 10 opens the breaker until 110.  The second call succeeds at
15, and a call that starts at 20 invokes its function. -/
theorem not_openPeriodLaw_of_late_success :
    ∃ breaker : State ℕ String,
      exec step (State.initial 1 100 0)
        (lateSuccess ++ [.fnSettles 1 (.ok 7), .advance 20, .execute]) =
        some breaker ∧
      breaker.log = [.invoked 2 20, .resolved 1 7,
        .rejected 0 (.thrown "down"), .failed 0 "down" 10 .opened,
        .invoked 1 0, .invoked 0 0] ∧
      ¬ OpenPeriodLaw 100 breaker.log := by
  have hends : ∃ breaker : State ℕ String,
      exec step (State.initial 1 100 0)
        (lateSuccess ++ [.fnSettles 1 (.ok 7), .advance 20, .execute]) =
        some breaker ∧
      breaker.log = [.invoked 2 20, .resolved 1 7,
        .rejected 0 (.thrown "down"), .failed 0 "down" 10 .opened,
        .invoked 1 0, .invoked 0 0] := by
    refine ⟨_, rfl, ?_⟩
    decide +kernel
  obtain ⟨breaker, hrun, hlog⟩ := hends
  refine ⟨breaker, hrun, hlog, fun hlaw => ?_⟩
  have hlate := hlaw
    [.invoked 2 20, .resolved 1 7, .rejected 0 (.thrown "down")]
    [.invoked 1 0, .invoked 0 0] 0 "down" 10 hlog 2 20 (by simp)
    (by decide +kernel)
  exact absurd hlate (by decide +kernel)

end TsCommons.Resilience.CircuitBreaker
