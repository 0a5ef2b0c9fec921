import TsCommons.Foundations.Execution
import TsCommons.Foundations.InsertionMap
import Mathlib.Algebra.BigOperators.Group.List.Basic
import Mathlib.Algebra.Order.BigOperators.Group.List
import Mathlib.Algebra.Order.Field.Basic
import Mathlib.Algebra.Order.Field.Rat
import Mathlib.Tactic.NormNum

/-!
# The SLO tracker

The burn rate is the consumed part of the error budget.  It is cut off at one
before it is compared with the threshold, so a threshold of one or more is
never exceeded, however large the error is.
-/

namespace TsCommons.Observability

open Foundations

structure SloConfig where
  name : String
  sliName : String
  target : ℚ
  windowMs : ℕ
deriving DecidableEq

structure ErrorBudget where
  sloName : String
  target : ℚ
  consumed : ℚ
  remaining : ℚ
  exhausted : Bool
deriving DecidableEq

structure BurnRateAlert where
  sloName : String
  burnRate : ℚ
  threshold : ℚ
  firing : Bool
  timestamp : ℕ
deriving DecidableEq

structure SloStatus where
  slo : SloConfig
  currentSli : ℚ
  met : Bool
  errorBudget : ErrorBudget
  burnRate : BurnRateAlert
deriving DecidableEq

/-- What a provider of SLIs measures. -/
structure Percentage where
  value : ℚ
  nonneg : 0 ≤ value
  le_hundred : value ≤ 100

/-- `ι` names the handlers. -/
structure SloTracker (ι : Type*) where
  config : SloConfig
  sliHistory : InsertionMap String (List ℚ)
  alertHandlers : List ι
  burnRateThreshold : ℚ

namespace SloTracker

variable {ι : Type*}

def new (config : SloConfig) (burnRateThreshold : ℚ) : SloTracker ι :=
  ⟨config, .empty, [], burnRateThreshold⟩

def getHistory (tracker : SloTracker ι) : List ℚ :=
  (tracker.sliHistory.get tracker.config.sliName).getD []

def calcErrorBudget (tracker : SloTracker ι) (history : List ℚ) :
    ErrorBudget :=
  if history.length = 0 then
    { sloName := tracker.config.name
      target := tracker.config.target
      consumed := 0
      remaining := 1
      exhausted := false }
  else
    let avg := history.foldl (fun s v => s + v) (0 : ℚ) / history.length
    let allowedError := (100 - tracker.config.target) / 100
    let actualError := (100 - avg) / 100
    let consumed :=
      if 0 < allowedError then min 1 (actualError / allowedError)
      else if 0 < actualError then 1 else 0
    { sloName := tracker.config.name
      target := tracker.config.target
      consumed := consumed
      remaining := max 0 (1 - consumed)
      exhausted := decide (1 ≤ consumed) }

def calcBurnRate (tracker : SloTracker ι) (history : List ℚ)
    (budget : ErrorBudget) (now : ℕ) : BurnRateAlert :=
  let burnRate := if 0 < budget.consumed
    then budget.consumed * history.length else 0
  let normalised := if 0 < history.length
    then burnRate / history.length else 0
  { sloName := tracker.config.name
    burnRate := normalised
    threshold := tracker.burnRateThreshold
    firing := decide (tracker.burnRateThreshold < normalised)
    timestamp := now }

/-- The status of an evaluation, and the handlers that were called. -/
structure Evaluation (ι : Type*) where
  status : SloStatus
  alerted : List (ι × BurnRateAlert)

/-- The history after one more measurement. -/
def measured (tracker : SloTracker ι) (value : ℚ) : List ℚ :=
  tracker.getHistory ++ [value]

def evaluate (tracker : SloTracker ι) (value : ℚ) (now : ℕ) :
    SloTracker ι × Evaluation ι :=
  let history := tracker.measured value
  let errorBudget := tracker.calcErrorBudget history
  let burnRate := tracker.calcBurnRate history errorBudget now
  ({ tracker with
      sliHistory := tracker.sliHistory.set tracker.config.sliName history },
    { status :=
        { slo := tracker.config
          currentSli := value
          met := decide (tracker.config.target ≤ value)
          errorBudget := errorBudget
          burnRate := burnRate }
      alerted :=
        if burnRate.firing then
          tracker.alertHandlers.map fun handler => (handler, burnRate)
        else [] })

def onBurnRateAlert (tracker : SloTracker ι) (handler : ι) : SloTracker ι :=
  { tracker with alertHandlers := tracker.alertHandlers ++ [handler] }

/-- What the function returned by `onBurnRateAlert` does. -/
def unsubscribe [DecidableEq ι] (tracker : SloTracker ι) (handler : ι) :
    SloTracker ι :=
  { tracker with alertHandlers := tracker.alertHandlers.erase handler }

def setBurnRateThreshold (tracker : SloTracker ι) (threshold : ℚ) :
    SloTracker ι :=
  { tracker with burnRateThreshold := threshold }

/-! ## Calls -/

inductive Call (ι : Type*)
  | evaluate (sli : Percentage) (now : ℕ)
  | onBurnRateAlert (handler : ι)
  | unsubscribe (handler : ι)
  | setBurnRateThreshold (threshold : ℚ)

def perform [DecidableEq ι] (tracker : SloTracker ι) : Call ι → SloTracker ι
  | .evaluate sli now => (tracker.evaluate sli.value now).1
  | .onBurnRateAlert handler => tracker.onBurnRateAlert handler
  | .unsubscribe handler => tracker.unsubscribe handler
  | .setBurnRateThreshold threshold => tracker.setBurnRateThreshold threshold

def step [DecidableEq ι] (tracker : SloTracker ι) (call : Call ι) :
    Option (SloTracker ι) :=
  some (tracker.perform call)

/-! ## What an evaluation should report -/

def averageError (history : List ℚ) : ℚ :=
  100 - history.sum / history.length

def allowedError (tracker : SloTracker ι) : ℚ :=
  100 - tracker.config.target

/-- The average error is more than the threshold times the allowed one. -/
def BurnsFaster (tracker : SloTracker ι) (value : ℚ) : Prop :=
  tracker.burnRateThreshold * tracker.allowedError <
    averageError (tracker.measured value)

structure IsRight (tracker : SloTracker ι) (value : ℚ)
    (evaluation : Evaluation ι) : Prop where
  firing : evaluation.status.burnRate.firing ↔ tracker.BurnsFaster value
  alerted : evaluation.alerted =
    if evaluation.status.burnRate.firing then
      tracker.alertHandlers.map fun handler =>
        (handler, evaluation.status.burnRate)
    else []
  consumed_nonneg : 0 ≤ evaluation.status.errorBudget.consumed
  consumed_le_one : evaluation.status.errorBudget.consumed ≤ 1
  remaining : evaluation.status.errorBudget.remaining =
    1 - evaluation.status.errorBudget.consumed
  exhausted : evaluation.status.errorBudget.exhausted ↔
    tracker.allowedError ≤ averageError (tracker.measured value)

def EvaluatesRight (tracker : SloTracker ι) : Call ι → Prop
  | .evaluate sli now =>
      tracker.IsRight sli.value (tracker.evaluate sli.value now).2
  | _ => True

/-- Cutting off at one does not hide that the threshold is exceeded. -/
def NotHidden (tracker : SloTracker ι) : Call ι → Prop
  | .evaluate sli _ =>
      tracker.burnRateThreshold < 1 ∨ ¬ tracker.BurnsFaster sli.value
  | _ => True

/-! ## The budget and the burn rate -/

variable {tracker : SloTracker ι} {value : ℚ}

/-- The target leaves room for errors, and no measurement is above one hundred
percent. -/
structure Sound (tracker : SloTracker ι) : Prop where
  target : tracker.config.target < 100
  history : ∀ value ∈ tracker.getHistory, value ≤ 100

theorem averageError_nonneg {history : List ℚ} (hne : history ≠ [])
    (hhistory : ∀ value ∈ history, value ≤ 100) :
    0 ≤ averageError history := by
  have hlength : (0 : ℚ) < history.length :=
    Nat.cast_pos.mpr (List.length_pos_iff.mpr hne)
  have hsum : history.sum ≤ history.length * 100 := by
    have hcard := List.sum_le_card_nsmul history 100 hhistory
    rwa [nsmul_eq_mul] at hcard
  rw [averageError, sub_nonneg, div_le_iff₀ hlength, mul_comm]
  exact hsum

theorem measured_ne_nil (tracker : SloTracker ι) (value : ℚ) :
    tracker.measured value ≠ [] :=
  List.append_ne_nil_of_right_ne_nil _ (List.cons_ne_nil value [])

theorem Sound.allowedError_pos (hsound : tracker.Sound) :
    0 < tracker.allowedError :=
  sub_pos.mpr hsound.target

/-- The consumed part is the average error by the allowed one, up to one. -/
theorem Sound.consumed_eq (hsound : tracker.Sound) {history : List ℚ}
    (hne : history ≠ []) :
    (tracker.calcErrorBudget history).consumed =
      min 1 (averageError history / tracker.allowedError) := by
  have hpos : 0 < (100 - tracker.config.target) / 100 :=
    div_pos hsound.allowedError_pos (by norm_num)
  have hlength : history.length ≠ 0 := by
    rwa [Ne, List.length_eq_zero_iff]
  have hsum : history.foldl (fun s v => s + v) 0 = history.sum :=
    List.sum_eq_foldl.symm
  rw [calcErrorBudget, if_neg hlength]
  simp only [if_pos hpos, hsum]
  rw [div_div_div_cancel_right₀ (by norm_num)]
  rfl

theorem remaining_eq (history : List ℚ)
    (hone : (tracker.calcErrorBudget history).consumed ≤ 1) :
    (tracker.calcErrorBudget history).remaining =
      1 - (tracker.calcErrorBudget history).consumed := by
  unfold calcErrorBudget at hone ⊢
  split
  · exact (sub_zero 1).symm
  next hlength =>
    rw [if_neg hlength] at hone
    exact max_eq_right (sub_nonneg.mpr hone)

theorem exhausted_iff {history : List ℚ} :
    (tracker.calcErrorBudget history).exhausted ↔
      1 ≤ (tracker.calcErrorBudget history).consumed := by
  unfold calcErrorBudget
  split
  · simp
  · exact decide_eq_true_iff

theorem firing_iff {history : List ℚ} (hne : history ≠ [])
    {budget : ErrorBudget} (hconsumed : 0 ≤ budget.consumed) (now : ℕ) :
    (tracker.calcBurnRate history budget now).firing ↔
      tracker.burnRateThreshold < budget.consumed := by
  have hlength : 0 < history.length := List.length_pos_iff.mpr hne
  have hcast : (history.length : ℚ) ≠ 0 :=
    Nat.cast_ne_zero.mpr hlength.ne'
  have hrate : (if 0 < budget.consumed then
      budget.consumed * history.length else 0) =
        budget.consumed * history.length := by
    split
    · rfl
    next hnot => rw [le_antisymm (not_lt.mp hnot) hconsumed, zero_mul]
  simp only [calcBurnRate, if_pos hlength, hrate, mul_div_cancel_right₀ _ hcast,
    decide_eq_true_iff]

/-! ## Evaluations -/

theorem Sound.averageError_nonneg (hsound : tracker.Sound)
    (hvalue : value ≤ 100) :
    0 ≤ averageError (tracker.measured value) := by
  apply SloTracker.averageError_nonneg (tracker.measured_ne_nil value)
  intro other hother
  rcases List.mem_append.mp hother with hmem | hmem
  · exact hsound.history other hmem
  · rwa [List.mem_singleton.mp hmem]

/-- Everything is right but the firing, which also needs a threshold below
one. -/
theorem Sound.isRight_iff (hsound : tracker.Sound) (hvalue : value ≤ 100)
    (now : ℕ) :
    tracker.IsRight value (tracker.evaluate value now).2 ↔
      tracker.burnRateThreshold < 1 ∨ ¬ tracker.BurnsFaster value := by
  have hne := tracker.measured_ne_nil value
  have hpos := hsound.allowedError_pos
  have herror := hsound.averageError_nonneg hvalue
  have hconsumed := hsound.consumed_eq hne
  have hnonneg : 0 ≤
      (tracker.calcErrorBudget (tracker.measured value)).consumed := by
    rw [hconsumed]
    exact le_min zero_le_one (div_nonneg herror hpos.le)
  have hone : (tracker.calcErrorBudget (tracker.measured value)).consumed ≤
      1 := by
    rw [hconsumed]
    exact min_le_left ..
  have hfiring :
      (tracker.evaluate value now).2.status.burnRate.firing ↔
        tracker.burnRateThreshold < 1 ∧ tracker.BurnsFaster value := by
    rw [BurnsFaster, ← lt_div_iff₀ hpos, ← lt_min_iff, ← hconsumed]
    exact firing_iff hne hnonneg now
  constructor
  · intro hright
    by_contra hnot
    push Not at hnot
    have hboth := hfiring.mp (hright.firing.mpr hnot.2)
    exact hnot.1.not_gt hboth.1
  · intro hcondition
    have hburns : tracker.burnRateThreshold < 1 ∧ tracker.BurnsFaster value ↔
        tracker.BurnsFaster value :=
      and_iff_right_of_imp fun hburns =>
        hcondition.resolve_right (not_not_intro hburns)
    refine ⟨hfiring.trans hburns, rfl, hnonneg, hone, remaining_eq _ hone, ?_⟩
    refine exhausted_iff.trans ?_
    rw [hconsumed, le_min_iff, one_le_div hpos]
    exact and_iff_right le_rfl

/-! ## Runs -/

variable [DecidableEq ι]

theorem Sound.perform (hsound : tracker.Sound) (call : Call ι) :
    (tracker.perform call).Sound := by
  cases call with
  | evaluate sli now =>
      refine ⟨hsound.target, fun value hvalue => ?_⟩
      have hhistory : (tracker.perform (.evaluate sli now)).getHistory =
          tracker.measured sli.value := by
        simp only [SloTracker.perform, evaluate, getHistory,
          InsertionMap.get_set, if_true, Option.getD_some]
      rw [hhistory] at hvalue
      rcases List.mem_append.mp hvalue with hmem | hmem
      · exact hsound.history value hmem
      · rw [List.mem_singleton.mp hmem]
        exact sli.le_hundred
  | onBurnRateAlert handler => exact ⟨hsound.target, hsound.history⟩
  | unsubscribe handler => exact ⟨hsound.target, hsound.history⟩
  | setBurnRateThreshold threshold => exact ⟨hsound.target, hsound.history⟩

/-- In every run all evaluations are right exactly when none of them has an
error beyond a threshold of one or more. -/
theorem stepsMeet_evaluatesRight_iff {config : SloConfig}
    (htarget : config.target < 100) (threshold : ℚ) (calls : List (Call ι)) :
    StepsMeet step EvaluatesRight (new config threshold) calls ↔
      StepsMeet step NotHidden (new config threshold) calls := by
  have hnew : (new config threshold : SloTracker ι).Sound :=
    ⟨htarget, List.forall_mem_nil _⟩
  refine stepsMeet_congr (I := Sound) ?_ ?_ hnew
  · intro tracker call next hsound hnext
    rw [← Option.some.inj hnext]
    exact hsound.perform call
  · intro tracker call hsound
    cases call with
    | evaluate sli now => exact hsound.isRight_iff sli.le_hundred now
    | onBurnRateAlert handler => exact Iff.rfl
    | unsubscribe handler => exact Iff.rfl
    | setBurnRateThreshold threshold => exact Iff.rfl

def availability : SloConfig where
  name := "availability"
  sliName := "availability"
  target := 99
  windowMs := 3600000

/-- Nine tenths of the requests succeed. -/
def nineTenths : Percentage where
  value := 90
  nonneg := by norm_num
  le_hundred := by norm_num

theorem stepsMeet_evaluatesRight_half :
    StepsMeet step EvaluatesRight (new availability (1 / 2))
      [.onBurnRateAlert "page", .evaluate nineTenths 0,
        .evaluate nineTenths 60000] := by
  refine (stepsMeet_evaluatesRight_iff ?_ (1 / 2) _).mpr ?_
  · norm_num [availability]
  · refine ⟨trivial, fun _ hnext => ?_⟩
    cases hnext
    refine ⟨Or.inl (by norm_num [new, perform, onBurnRateAlert]), ?_⟩
    intro _ hnext
    cases hnext
    refine ⟨Or.inl ?_, fun _ _ => trivial⟩
    norm_num [new, perform, onBurnRateAlert, evaluate]

/-- Ten times the allowed error does not fire at twice the consumption. -/
theorem not_evaluatesRight_default :
    ¬ StepsMeet step EvaluatesRight (new availability 2)
      [.onBurnRateAlert "page", .evaluate nineTenths 0] := by
  intro hmeet
  have hsound : ((new availability 2 : SloTracker String).onBurnRateAlert
      "page").Sound :=
    ⟨by norm_num [new, onBurnRateAlert, availability], List.forall_mem_nil _⟩
  have hright := (hmeet.2 _ rfl).1
  rcases (hsound.isRight_iff nineTenths.le_hundred 0).mp hright with hlow | hnot
  · norm_num [new, onBurnRateAlert] at hlow
  · apply hnot
    norm_num [BurnsFaster, measured, getHistory, averageError, allowedError,
      new, onBurnRateAlert, availability, nineTenths]

end SloTracker

end TsCommons.Observability
