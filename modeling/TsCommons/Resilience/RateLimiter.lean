import TsCommons.Foundations.Execution
import TsCommons.Foundations.TokenBucket
import Mathlib.Algebra.Order.Ring.Rat
import Mathlib.Tactic.NormNum
import Mathlib.Tactic.Ring

/-!
# The rate limiter

`acquire` first adds the tokens of the time since the last refill, and then
takes the tokens it needs if they are there.  It does not wait, so a run is
the list of its calls, each with what `Date.now()` reads.
-/

namespace TsCommons.Resilience

open Foundations Foundations.TokenBucket

structure RateLimiter where
  maxTokens : ℚ
  refillRatePerSecond : ℚ
  tokens : ℚ
  lastRefill : ℚ
deriving DecidableEq

namespace RateLimiter

def new (maxTokens refillRatePerSecond now : ℚ) : RateLimiter where
  maxTokens := maxTokens
  refillRatePerSecond := refillRatePerSecond
  tokens := maxTokens
  lastRefill := now

def refill (limiter : RateLimiter) (now : ℚ) : RateLimiter :=
  let elapsedSeconds := (now - limiter.lastRefill) / 1000
  let tokensToAdd := elapsedSeconds * limiter.refillRatePerSecond
  { limiter with
    tokens := min limiter.maxTokens (limiter.tokens + tokensToAdd)
    lastRefill := now }

def acquire (limiter : RateLimiter) (now tokensNeeded : ℚ) :
    Bool × RateLimiter :=
  let refilled := limiter.refill now
  if refilled.tokens ≥ tokensNeeded then
    (true, { refilled with tokens := refilled.tokens - tokensNeeded })
  else (false, refilled)

/-- A call of `acquire`.  Without an argument it needs one token. -/
structure Request where
  now : ℚ
  tokensNeeded : ℚ := 1

/-- The limiter, and the calls it has granted, newest first. -/
structure State where
  limiter : RateLimiter
  granted : List (Draw ℚ)

def State.initial (maxTokens refillRatePerSecond now : ℚ) : State where
  limiter := .new maxTokens refillRatePerSecond now
  granted := []

/-- The clock does not run backwards. -/
def step (state : State) (request : Request) : Option State :=
  if state.limiter.lastRefill ≤ request.now then
    match state.limiter.acquire request.now request.tokensNeeded with
    | (true, limiter) =>
        some ⟨limiter, ⟨request.now, request.tokensNeeded⟩ :: state.granted⟩
    | (false, limiter) => some { state with limiter }
  else none

variable {state next : State}

theorem step_cases {request : Request}
    (hstep : step state request = some next) :
    state.limiter.lastRefill ≤ request.now ∧
      (request.tokensNeeded ≤ (state.limiter.refill request.now).tokens ∧
          next = ⟨{ state.limiter.refill request.now with
            tokens := (state.limiter.refill request.now).tokens -
              request.tokensNeeded },
            ⟨request.now, request.tokensNeeded⟩ :: state.granted⟩ ∨
        next = ⟨state.limiter.refill request.now, state.granted⟩) := by
  simp only [step, Option.ite_none_right_eq_some] at hstep
  obtain ⟨hclock, hacquire⟩ := hstep
  refine ⟨hclock, ?_⟩
  by_cases henough :
      request.tokensNeeded ≤ (state.limiter.refill request.now).tokens
  · left
    simp only [RateLimiter.acquire, ge_iff_le, henough, if_true,
      Option.some.injEq] at hacquire
    exact ⟨henough, hacquire.symm⟩
  · right
    simp only [RateLimiter.acquire, ge_iff_le, henough, if_false,
      Option.some.injEq] at hacquire
    exact hacquire.symm

/-- The limiter is a bucket of `maxTokens` that gains `refillRatePerSecond`
in a thousand units of time. -/
structure BucketInvariant (maxTokens refillRatePerSecond : ℚ)
    (state : State) : Prop where
  capacity : state.limiter.maxTokens = maxTokens
  rate : state.limiter.refillRatePerSecond = refillRatePerSecond
  bounded : Bounded maxTokens (refillRatePerSecond / 1000) state.granted
    state.limiter.lastRefill state.limiter.tokens

namespace BucketInvariant

variable {maxTokens refillRatePerSecond : ℚ}

theorem initial (hmaxTokens : 0 ≤ maxTokens)
    (hrate : 0 ≤ refillRatePerSecond) (now : ℚ) :
    BucketInvariant maxTokens refillRatePerSecond
      (State.initial maxTokens refillRatePerSecond now) :=
  ⟨rfl, rfl, Bounded.full hmaxTokens (div_nonneg hrate (by norm_num)) now⟩

theorem refill (hinv : BucketInvariant maxTokens refillRatePerSecond state)
    (hrate : 0 ≤ refillRatePerSecond) {now : ℚ}
    (hnow : state.limiter.lastRefill ≤ now) :
    Bounded maxTokens (refillRatePerSecond / 1000) state.granted now
      (state.limiter.refill now).tokens := by
  have hperMs : 0 ≤ refillRatePerSecond / 1000 :=
    div_nonneg hrate (by norm_num)
  have htokens : (state.limiter.refill now).tokens =
      min maxTokens (state.limiter.tokens +
        refillRatePerSecond / 1000 * (now - state.limiter.lastRefill)) := by
    rw [← hinv.capacity, ← hinv.rate]
    simp only [RateLimiter.refill]
    congr 2
    ring
  have hgain := mul_nonneg hperMs (sub_nonneg.mpr hnow)
  rw [htokens]
  apply hinv.bounded.refill hperMs hnow
  · apply le_min
    · exact hinv.bounded.nonneg.trans hinv.bounded.le_capacity
    · linarith [hinv.bounded.nonneg]
  · exact min_le_left _ _
  · exact min_le_right _ _

theorem step (hinv : BucketInvariant maxTokens refillRatePerSecond state)
    (hrate : 0 ≤ refillRatePerSecond) {request : Request}
    (hneeded : 0 ≤ request.tokensNeeded)
    (hstep : RateLimiter.step state request = some next) :
    BucketInvariant maxTokens refillRatePerSecond next := by
  obtain ⟨hclock, hcases⟩ := step_cases hstep
  have hrefilled := hinv.refill hrate hclock
  rcases hcases with ⟨henough, rfl⟩ | rfl
  · refine ⟨hinv.capacity, hinv.rate, ?_⟩
    exact hrefilled.draw (div_nonneg hrate (by norm_num)) hneeded henough
  · exact ⟨hinv.capacity, hinv.rate, hrefilled⟩

end BucketInvariant

/-- However tokens are requested, the balance stays between zero and
`maxTokens`, and what is granted between two moments is at most `maxTokens`
and what has come in between them. -/
theorem granted_le {maxTokens refillRatePerSecond createdAt : ℚ}
    (hmaxTokens : 0 ≤ maxTokens) (hrate : 0 ≤ refillRatePerSecond)
    {requests : List Request}
    (hneeded : ∀ request ∈ requests, 0 ≤ request.tokensNeeded)
    (hrun : exec step (State.initial maxTokens refillRatePerSecond createdAt)
      requests = some state) :
    0 ≤ state.limiter.tokens ∧ state.limiter.tokens ≤ maxTokens ∧
    ∀ first last, first ≤ last →
      drawnBetween first last state.granted ≤
        maxTokens + refillRatePerSecond * (last - first) / 1000 := by
  have hinv : BucketInvariant maxTokens refillRatePerSecond state :=
    exec_invariant_of_stepsMeet
      (I := BucketInvariant maxTokens refillRatePerSecond)
      (P := fun _ request => 0 ≤ request.tokensNeeded)
      (fun _ _ _ hinv hneeded hstep => hinv.step hrate hneeded hstep)
      (BucketInvariant.initial hmaxTokens hrate createdAt)
      (StepsMeet.of_forall_mem fun request hmem _ => hneeded request hmem)
      hrun
  refine ⟨hinv.bounded.nonneg, hinv.bounded.le_capacity,
    fun first last hle => ?_⟩
  have hbetween := hinv.bounded.between first last hle
  rw [div_mul_eq_mul_div] at hbetween
  exact hbetween

/-- Five tokens at once, a refusal, and one second later two more. -/
def burst : List Request :=
  [⟨0, 5⟩, ⟨0, 1⟩, { now := 1000, tokensNeeded := 2 }, { now := 1000 }]

theorem granted_le_burst :
    ∃ state, exec step (State.initial 5 2 0) burst = some state ∧
      drawnBetween 0 1000 state.granted = 7 ∧
      drawnBetween 0 1000 state.granted ≤ 5 + 2 * (1000 - 0) / 1000 := by
  have hneeded : ∀ request ∈ burst, 0 ≤ request.tokensNeeded := by
    decide +kernel
  have hends : (exec step (State.initial 5 2 0) burst).map
      (fun state => drawnBetween 0 1000 state.granted) = some 7 := by
    decide +kernel
  obtain ⟨state, hrun, hdrawn⟩ := Option.map_eq_some_iff.mp hends
  obtain ⟨-, -, hbound⟩ :=
    granted_le (by norm_num) (by norm_num) hneeded hrun
  exact ⟨state, hrun, hdrawn, hbound 0 1000 (by norm_num)⟩

end RateLimiter

end TsCommons.Resilience
