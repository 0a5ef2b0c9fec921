import Mathlib.Algebra.Order.Ring.Rat
import Mathlib.Tactic.Common

/-!
# The canary release

The share of the traffic that a canary gets is raised step by step as long as
its metrics stay within thresholds.  `analyse` and `promote` wait for the
metrics, and what they do with them are functions of their own.
-/

namespace TsCommons.K8s

structure CanaryConfig where
  initialWeight : Option ℚ
  stepSize : Option ℚ
  errorRateThreshold : Option ℚ
  baselineLatencyMs : Option ℚ

/-- `none` is `NaN`. -/
structure CanaryMetrics where
  errorRate : Option ℚ
  p99LatencyMs : Option ℚ
deriving DecidableEq

inductive CanaryPhase
  | initializing
  | progressing
  | paused
  | succeeded
  | failed
  | rollback
deriving DecidableEq

structure CanaryRelease where
  canaryWeight : ℚ
  phase : CanaryPhase
  stepSize : ℚ
  errorRateThreshold : ℚ
  baselineLatencyMs : ℚ
deriving DecidableEq

/-- The comparison `>`, which is false if a side of it is `NaN`. -/
def greater : Option ℚ → Option ℚ → Bool
  | some left, some right => left > right
  | _, _ => false

namespace CanaryRelease

def create (config : CanaryConfig) : CanaryRelease where
  canaryWeight := config.initialWeight.getD 5
  phase := .initializing
  stepSize := config.stepSize.getD 10
  errorRateThreshold := config.errorRateThreshold.getD (5 / 100)
  baselineLatencyMs := config.baselineLatencyMs.getD 200

def setPhase (release : CanaryRelease) (phase : CanaryPhase) :
    CanaryRelease :=
  if release.phase ≠ phase then { release with phase := phase }
  else release

def meetsThresholds (release : CanaryRelease)
    (canary stable : CanaryMetrics) : Bool :=
  if greater canary.errorRate (some release.errorRateThreshold) then false
  else if greater canary.p99LatencyMs
      (some (release.baselineLatencyMs * (12 / 10))) then false
  else if greater canary.errorRate (stable.errorRate.map (· * 2)) then false
  else true

/-- The metrics that `analyse` waits for are there. -/
def finishAnalysis (release : CanaryRelease)
    (stable canary : CanaryMetrics) : CanaryRelease × Bool :=
  let passed := release.meetsThresholds canary stable
  (if !passed then release.setPhase .failed else release, passed)

/-- The analysis that `promote` waits for is there. -/
def finishPromote (release : CanaryRelease) (passed : Bool) :
    CanaryRelease :=
  if !passed then release.setPhase .failed
  else
    let canaryWeight := min 100 (release.canaryWeight + release.stepSize)
    let release := { release with canaryWeight := canaryWeight }
    if canaryWeight ≥ 100 then release.setPhase .succeeded
    else release.setPhase .progressing

def rollback (release : CanaryRelease) : CanaryRelease :=
  { release with canaryWeight := 0 }.setPhase .rollback

def pause (release : CanaryRelease) : CanaryRelease :=
  release.setPhase .paused

def resume (release : CanaryRelease) : CanaryRelease :=
  if release.phase = .paused then release.setPhase .progressing else release

variable (release : CanaryRelease)

@[simp] theorem canaryWeight_setPhase (phase : CanaryPhase) :
    (release.setPhase phase).canaryWeight = release.canaryWeight := by
  unfold setPhase
  split <;> rfl

@[simp] theorem stepSize_setPhase (phase : CanaryPhase) :
    (release.setPhase phase).stepSize = release.stepSize := by
  unfold setPhase
  split <;> rfl

theorem finishAnalysis_fst (stable canary : CanaryMetrics) :
    (release.finishAnalysis stable canary).1.canaryWeight =
        release.canaryWeight ∧
      (release.finishAnalysis stable canary).1.stepSize =
        release.stepSize := by
  cases hpassed : release.meetsThresholds canary stable with
  | false => simp [finishAnalysis, hpassed]
  | true => simp [finishAnalysis, hpassed]

theorem canaryWeight_finishPromote (passed : Bool) :
    (release.finishPromote passed).canaryWeight =
      if passed then min 100 (release.canaryWeight + release.stepSize)
      else release.canaryWeight := by
  cases passed with
  | false => simp [finishPromote]
  | true =>
      simp only [finishPromote, Bool.not_true, Bool.false_eq_true, if_false]
      split <;> simp

theorem stepSize_finishPromote (passed : Bool) :
    (release.finishPromote passed).stepSize = release.stepSize := by
  cases passed with
  | false => simp [finishPromote]
  | true =>
      simp only [finishPromote, Bool.not_true, Bool.false_eq_true, if_false]
      split <;> simp

@[simp] theorem canaryWeight_rollback :
    release.rollback.canaryWeight = 0 := by
  simp [rollback]

@[simp] theorem stepSize_rollback :
    release.rollback.stepSize = release.stepSize := by
  simp [rollback]

theorem resume_keeps :
    release.resume.canaryWeight = release.canaryWeight ∧
      release.resume.stepSize = release.stepSize := by
  unfold resume
  split <;> simp

end CanaryRelease

end TsCommons.K8s
