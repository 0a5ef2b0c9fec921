import Mathlib.Algebra.Order.Ring.Rat
import Mathlib.Data.List.Basic
import Mathlib.Tactic.Common

/-!
# Retries

A call is retried after a wait until it succeeds or has been made often
enough.  The waits grow by a factor up to a maximum.  The first wait is not
compared with the maximum, and none is if there is no factor.
-/

namespace TsCommons.Resilience

variable {V Err : Type*}

structure RetryPolicy where
  maxAttempts : ℕ
  delayMs : ℚ
  backoffMultiplier : Option ℚ := none
  maxDelayMs : Option ℚ := none
deriving DecidableEq

/-- What a call of `fn` comes to.  A reason is missing if it is `undefined` or
`null`. -/
inductive Outcome (V Err : Type*)
  | resolved (value : V)
  | rejected (reason : Option Err)
deriving DecidableEq

def Outcome.isResolved : Outcome V Err → Bool
  | resolved _ => true
  | rejected _ => false

/-- What a retry comes to: the outcome of a call, or the rejection with
`new Error('Retry failed')`. -/
inductive Settled (V Err : Type*)
  | outcome (outcome : Outcome V Err)
  | retryFailed
deriving DecidableEq

inductive RetryEvent
  | call
  | wait (ms : ℚ)
deriving DecidableEq

namespace Retry

/-- `delay` after a wait of this length. -/
def nextDelay (policy : RetryPolicy) (delay : ℚ) : ℚ :=
  match policy.backoffMultiplier with
  | none => delay
  | some multiplier =>
      if 0 < multiplier then
        match policy.maxDelayMs with
        | none => delay * multiplier
        | some maxDelayMs => min (delay * multiplier) maxDelayMs
      else delay

/-- `throw lastError ?? new Error('Retry failed')` -/
def rethrow : Option Err → Settled V Err
  | none => .retryFailed
  | some error => .outcome (.rejected (some error))

/-- The loop with so many rounds to go, and the calls and waits so far. -/
def loop (fn : ℕ → Outcome V Err) (policy : RetryPolicy) :
    ℕ → ℕ → ℚ → Option Err → List RetryEvent →
      Settled V Err × List RetryEvent
  | 0, _, _, lastError, log => (rethrow lastError, log)
  | rounds + 1, attempt, delay, _, log =>
      match fn attempt with
      | .resolved value => (.outcome (.resolved value), log ++ [.call])
      | .rejected error =>
          if 0 < attempt ∧ attempt < policy.maxAttempts then
            loop fn policy rounds (attempt + 1) (nextDelay policy delay) error
              (log ++ [.call, .wait delay])
          else
            loop fn policy rounds (attempt + 1) delay error (log ++ [.call])

/-- The outcome of each call of `fn` is given by the number of the attempt. -/
def execute (fn : ℕ → Outcome V Err) (policy : RetryPolicy) :
    Settled V Err × List RetryEvent :=
  loop fn policy policy.maxAttempts 1 policy.delayMs none []

end Retry

/-! ## What a retry is to do -/

/-- The number of the first attempt of so many that succeeds, or a greater
number. -/
def firstSuccess (fn : ℕ → Outcome V Err) (attempts : ℕ) : ℕ :=
  ((List.range attempts).findIdx fun index => (fn (index + 1)).isResolved) + 1

/-- The calls with a wait between any two of them. -/
def timeline (waits : List ℚ) : List RetryEvent :=
  .call :: waits.flatMap fun ms => [.wait ms, .call]

structure RetryLaw (fn : ℕ → Outcome V Err) (policy : RetryPolicy)
    (settled : Settled V Err) (log : List RetryEvent) : Prop where
  calls_eq : log.count .call =
    min (firstSuccess fn policy.maxAttempts) policy.maxAttempts
  settles : settled = .outcome (fn (log.count .call))
  alternates : ∃ waits, log = timeline waits
  capped : ∀ maxDelayMs ∈ policy.maxDelayMs, ∀ ms,
    .wait ms ∈ log → ms ≤ maxDelayMs

/-- The first wait, if there is one, is at most the maximum. -/
def FirstCapped (fn : ℕ → Outcome V Err) (policy : RetryPolicy) : Prop :=
  ∀ maxDelayMs ∈ policy.maxDelayMs,
    policy.delayMs ≤ maxDelayMs ∨ policy.maxAttempts = 1 ∨
      (fn 1).isResolved = true

/-- If every attempt fails, the last one does so for a reason. -/
def FailsWithReason (fn : ℕ → Outcome V Err) (policy : RetryPolicy) : Prop :=
  fn policy.maxAttempts = .rejected none →
    ∃ attempt < policy.maxAttempts,
      0 < attempt ∧ (fn attempt).isResolved = true

variable {fn : ℕ → Outcome V Err} {policy : RetryPolicy} {delay : ℚ}
  {attempt rounds : ℕ} {lastError reason : Option Err}
  {log : List RetryEvent} {value : V}

/-! ## The loop -/

theorem loop_resolved (hcall : fn attempt = .resolved value) :
    Retry.loop fn policy (rounds + 1) attempt delay lastError log =
      (.outcome (.resolved value), log ++ [.call]) := by
  rw [Retry.loop, hcall]

theorem loop_retry (hcall : fn attempt = .rejected reason)
    (hattempt : 0 < attempt) (hmore : attempt < policy.maxAttempts) :
    Retry.loop fn policy (rounds + 1) attempt delay lastError log =
      Retry.loop fn policy rounds (attempt + 1)
        (Retry.nextDelay policy delay) reason
        (log ++ [.call, .wait delay]) := by
  rw [Retry.loop, hcall]
  exact if_pos ⟨hattempt, hmore⟩

theorem loop_last (hcall : fn attempt = .rejected reason)
    (hlast : attempt = policy.maxAttempts) :
    Retry.loop fn policy 1 attempt delay lastError log =
      (Retry.rethrow reason, log ++ [.call]) := by
  rw [Retry.loop, hcall]
  exact if_neg fun hmore => Nat.lt_irrefl _ (hlast ▸ hmore.2)

/-- A run of the loop: failed calls, each with a wait, and then a call that
succeeds or is the last one allowed. -/
structure Runs (fn : ℕ → Outcome V Err) (policy : RetryPolicy)
    (attempt rounds : ℕ) (delay : ℚ) (waits : List ℚ)
    (settled : Settled V Err) : Prop where
  waits_eq : waits = List.iterate (Retry.nextDelay policy) delay waits.length
  few : waits.length < rounds
  failed : ∀ index < waits.length,
    (fn (attempt + index)).isResolved = false
  last : ((fn (attempt + waits.length)).isResolved = true ∧
      settled = .outcome (fn (attempt + waits.length))) ∨
    waits.length + 1 = rounds ∧ ∃ reason,
      fn (attempt + waits.length) = .rejected reason ∧
        settled = Retry.rethrow reason

theorem Runs.of_resolved (hcall : fn attempt = .resolved value) :
    Runs fn policy attempt (rounds + 1) delay []
      (.outcome (.resolved value)) where
  waits_eq := rfl
  few := Nat.succ_pos rounds
  failed _ hindex := absurd hindex (Nat.not_lt_zero _)
  last := by
    left
    rw [List.length_nil, Nat.add_zero, hcall]
    exact ⟨rfl, rfl⟩

theorem Runs.of_last (hcall : fn attempt = .rejected reason) :
    Runs fn policy attempt 1 delay [] (Retry.rethrow reason) where
  waits_eq := rfl
  few := Nat.one_pos
  failed _ hindex := absurd hindex (Nat.not_lt_zero _)
  last := .inr ⟨rfl, reason, hcall, rfl⟩

theorem Runs.cons {waits : List ℚ} {settled : Settled V Err}
    (hcall : fn attempt = .rejected reason)
    (hruns : Runs fn policy (attempt + 1) rounds
      (Retry.nextDelay policy delay) waits settled) :
    Runs fn policy attempt (rounds + 1) delay (delay :: waits) settled := by
  have hshift : ∀ index, attempt + 1 + index = attempt + (index + 1) := by
    intro index
    omega
  constructor
  · exact congrArg (delay :: ·) hruns.waits_eq
  · exact Nat.succ_lt_succ hruns.few
  · intro index hindex
    cases index with
    | zero =>
        rw [Nat.add_zero, hcall]
        rfl
    | succ index =>
        rw [← hshift]
        exact hruns.failed index (Nat.lt_of_succ_lt_succ hindex)
  · have hlast := hruns.last
    rw [hshift] at hlast
    exact hlast.imp id fun hlast =>
      ⟨congrArg (· + 1) hlast.1, hlast.2⟩

theorem timeline_cons (delay : ℚ) (waits : List ℚ) :
    timeline (delay :: waits) = [.call, .wait delay] ++ timeline waits := rfl

theorem exists_runs (rounds attempt : ℕ) (delay : ℚ)
    (lastError : Option Err) (log : List RetryEvent) (hattempt : 0 < attempt)
    (hrounds : attempt + rounds = policy.maxAttempts) :
    ∃ waits settled,
      Retry.loop fn policy (rounds + 1) attempt delay lastError log =
        (settled, log ++ timeline waits) ∧
      Runs fn policy attempt (rounds + 1) delay waits settled := by
  induction rounds generalizing attempt delay lastError log with
  | zero =>
      cases hcall : fn attempt with
      | resolved value => exact ⟨[], _, loop_resolved hcall, .of_resolved hcall⟩
      | rejected reason =>
          exact ⟨[], _, loop_last hcall hrounds, .of_last hcall⟩
  | succ rounds ih =>
      cases hcall : fn attempt with
      | resolved value => exact ⟨[], _, loop_resolved hcall, .of_resolved hcall⟩
      | rejected reason =>
          obtain ⟨waits, settled, hloop, hruns⟩ := ih (attempt + 1)
            (Retry.nextDelay policy delay) reason
            (log ++ [.call, .wait delay]) (Nat.succ_pos attempt) (by omega)
          refine ⟨delay :: waits, settled, ?_, hruns.cons hcall⟩
          rw [loop_retry hcall hattempt (by omega), hloop, timeline_cons,
            List.append_assoc]

/-! ## Waits -/

theorem count_call_timeline (waits : List ℚ) :
    (timeline waits).count .call = waits.length + 1 := by
  induction waits with
  | nil => rfl
  | cons delay waits ih =>
      rw [timeline_cons, List.count_append, ih, List.length_cons]
      exact Nat.add_comm _ _

theorem wait_mem_timeline_iff {ms : ℚ} {waits : List ℚ} :
    .wait ms ∈ timeline waits ↔ ms ∈ waits := by
  simp [timeline]

/-- After the first wait, a wait is at most the maximum or as long as the
first one. -/
theorem nextDelay_le {maxDelayMs : ℚ}
    (hmax : policy.maxDelayMs = some maxDelayMs) (hle : delay ≤ maxDelayMs) :
    Retry.nextDelay policy delay ≤ maxDelayMs := by
  rw [Retry.nextDelay, hmax]
  cases policy.backoffMultiplier with
  | none => exact hle
  | some multiplier =>
      simp only
      split
      · exact min_le_right _ _
      · exact hle

theorem forall_mem_iterate_le {maxDelayMs : ℚ}
    (hmax : policy.maxDelayMs = some maxDelayMs) (hle : delay ≤ maxDelayMs)
    (count : ℕ) :
    ∀ ms ∈ List.iterate (Retry.nextDelay policy) delay count,
      ms ≤ maxDelayMs := by
  induction count generalizing delay with
  | zero => exact List.forall_mem_nil _
  | succ count ih =>
      exact List.forall_mem_cons.mpr ⟨hle, ih (nextDelay_le hmax hle)⟩

section Runs

variable {waits : List ℚ} {settled : Settled V Err}

theorem Runs.eq_nil (hruns : Runs fn policy 1 rounds delay waits settled)
    (hfirst : (fn 1).isResolved = true) : waits = [] := by
  apply List.eq_nil_of_length_eq_zero
  by_contra hpos
  have hfailed := hruns.failed 0 (Nat.pos_of_ne_zero hpos)
  rw [Nat.add_zero, hfirst] at hfailed
  cases hfailed

theorem Runs.cons_delay {ms : ℚ} {later : List ℚ}
    (hruns : Runs fn policy attempt rounds delay (ms :: later) settled) :
    ms = delay := by
  have hwaits := hruns.waits_eq
  rw [List.length_cons, List.iterate] at hwaits
  exact (List.cons.inj hwaits).1

theorem Runs.capped_iff
    (hruns : Runs fn policy 1 policy.maxAttempts policy.delayMs waits
      settled) :
    (∀ maxDelayMs ∈ policy.maxDelayMs, ∀ ms ∈ waits, ms ≤ maxDelayMs) ↔
      FirstCapped fn policy := by
  apply forall_congr'
  intro maxDelayMs
  apply imp_congr_right
  intro hmax
  constructor
  · intro hcapped
    cases hwaits : waits with
    | nil =>
        have hlast := hruns.last
        rw [hwaits] at hlast
        right
        exact hlast.symm.imp (fun hlast => hlast.1.symm) fun hlast => hlast.1
    | cons ms later =>
        rw [hwaits] at hruns hcapped
        left
        rw [← hruns.cons_delay]
        exact hcapped ms List.mem_cons_self
  · intro hfirst ms hms
    rcases hfirst with hle | hone | hresolved
    · rw [hruns.waits_eq] at hms
      exact forall_mem_iterate_le hmax hle _ ms hms
    · have hfew := hruns.few
      rw [hone, Nat.lt_one_iff, List.length_eq_zero_iff] at hfew
      rw [hfew] at hms
      cases hms
    · rw [hruns.eq_nil hresolved] at hms
      cases hms

theorem Runs.calls_eq
    (hruns : Runs fn policy 1 rounds delay waits settled) :
    min (firstSuccess fn rounds) rounds = waits.length + 1 := by
  have hfailed : ∀ index < waits.length,
      (fn (index + 1)).isResolved = false := by
    intro index hindex
    rw [Nat.add_comm]
    exact hruns.failed index hindex
  have hfew := hruns.few
  rw [firstSuccess]
  rcases hruns.last with ⟨hresolved, -⟩ | ⟨hrounds, reason, hcall, -⟩
  · rw [Nat.add_comm] at hresolved
    have hlt : waits.length < (List.range rounds).length := by
      rw [List.length_range]
      exact hfew
    have hindex : (List.range rounds).findIdx
        (fun index => (fn (index + 1)).isResolved) = waits.length := by
      rw [List.findIdx_eq hlt, List.getElem_range]
      refine ⟨hresolved, fun index hindex => ?_⟩
      rw [List.getElem_range]
      exact hfailed index hindex
    rw [hindex]
    omega
  · rw [Nat.add_comm] at hcall
    have hindex : (List.range rounds).findIdx
        (fun index => (fn (index + 1)).isResolved) = rounds := by
      rw [List.findIdx_eq_length_of_false, List.length_range]
      intro index hmem
      have hlt := List.mem_range.mp hmem
      rcases Nat.lt_or_ge index waits.length with hbefore | hafter
      · exact hfailed index hbefore
      · have hlast : index = waits.length := by omega
        rw [hlast, hcall]
        rfl
    rw [hindex]
    omega

theorem Runs.settles_iff
    (hruns : Runs fn policy 1 policy.maxAttempts delay waits settled) :
    settled = .outcome (fn (waits.length + 1)) ↔
      FailsWithReason fn policy := by
  have hfew := hruns.few
  rcases hruns.last with ⟨hresolved, hsettled⟩ |
    ⟨hlast, reason, hcall, hsettled⟩
  · rw [Nat.add_comm] at hresolved hsettled
    refine iff_of_true hsettled fun hmissing => ?_
    refine ⟨waits.length + 1, lt_of_le_of_ne hfew ?_, Nat.succ_pos _,
      hresolved⟩
    intro hend
    rw [hend, hmissing] at hresolved
    cases hresolved
  · rw [Nat.add_comm, hlast] at hcall
    rw [hlast, hcall, hsettled]
    cases reason with
    | none =>
        refine iff_of_false (by intro hsame; cases hsame) fun hreason => ?_
        obtain ⟨attempt, hlt, hpos, hresolved⟩ := hreason hcall
        have hfailed := hruns.failed (attempt - 1) (by omega)
        rw [Nat.add_sub_cancel' hpos, hresolved] at hfailed
        cases hfailed
    | some error =>
        refine iff_of_true rfl fun hmissing => ?_
        rw [hcall] at hmissing
        cases hmissing

end Runs

/-- The law holds if and only if the first wait is at most the maximum and a
retry that fails does so for a reason. -/
theorem retryLaw_iff (fn : ℕ → Outcome V Err) (policy : RetryPolicy)
    (hattempts : 1 ≤ policy.maxAttempts) :
    RetryLaw fn policy (Retry.execute fn policy).1
        (Retry.execute fn policy).2 ↔
      FirstCapped fn policy ∧ FailsWithReason fn policy := by
  obtain ⟨waits, settled, hloop, hruns⟩ := exists_runs (policy.maxAttempts - 1)
    1 policy.delayMs none [] Nat.one_pos (Nat.add_sub_cancel' hattempts)
  rw [Nat.sub_add_cancel hattempts] at hloop hruns
  have hcount := count_call_timeline waits
  rw [Retry.execute, hloop, List.nil_append, ← hruns.capped_iff,
    ← hruns.settles_iff]
  constructor
  · intro hlaw
    refine ⟨fun maxDelayMs hmax ms hms => ?_, ?_⟩
    · exact hlaw.capped maxDelayMs hmax ms (wait_mem_timeline_iff.mpr hms)
    · rw [← hcount]
      exact hlaw.settles
  · rintro ⟨hcapped, hsettles⟩
    constructor
    · rw [hcount]
      exact hruns.calls_eq.symm
    · rw [hcount]
      exact hsettles
    · exact ⟨waits, rfl⟩
    · intro maxDelayMs hmax ms hms
      exact hcapped maxDelayMs hmax ms (wait_mem_timeline_iff.mp hms)

/-- Two calls fail and the third one succeeds. -/
def thirdTime (attempt : ℕ) : Outcome ℕ ℕ :=
  if attempt < 3 then .rejected (some attempt) else .resolved 7

theorem retryLaw_iff_samples :
    RetryLaw thirdTime ⟨4, 10, some 3, some 20⟩
        (Retry.execute thirdTime ⟨4, 10, some 3, some 20⟩).1
        (Retry.execute thirdTime ⟨4, 10, some 3, some 20⟩).2 ∧
      ¬ RetryLaw thirdTime ⟨4, 30, none, some 20⟩
        (Retry.execute thirdTime ⟨4, 30, none, some 20⟩).1
        (Retry.execute thirdTime ⟨4, 30, none, some 20⟩).2 := by
  constructor
  · refine (retryLaw_iff thirdTime ⟨4, 10, some 3, some 20⟩ (by decide)).mpr
      ⟨?_, ?_⟩
    · intro maxDelayMs hmax
      cases hmax
      exact .inl (by decide +kernel)
    · intro hmissing
      cases hmissing
  · intro hlaw
    obtain ⟨hfirst, -⟩ :=
      (retryLaw_iff thirdTime ⟨4, 30, none, some 20⟩ (by decide)).mp hlaw
    have hcapped := hfirst 20 rfl
    revert hcapped
    decide +kernel

/-- The first wait is longer than the maximum. -/
theorem not_retryLaw_example :
    Retry.execute thirdTime ⟨3, 30, some 2, some 20⟩ =
        (.outcome (.resolved 7), [.call, .wait 30, .call, .wait 20, .call]) ∧
      ¬ RetryLaw thirdTime ⟨3, 30, some 2, some 20⟩
        (Retry.execute thirdTime ⟨3, 30, some 2, some 20⟩).1
        (Retry.execute thirdTime ⟨3, 30, some 2, some 20⟩).2 := by
  have hrun : Retry.execute thirdTime ⟨3, 30, some 2, some 20⟩ =
      (.outcome (.resolved 7), [.call, .wait 30, .call, .wait 20, .call]) := by
    decide +kernel
  refine ⟨hrun, fun hlaw => ?_⟩
  rw [hrun] at hlaw
  have hcapped := hlaw.capped 20 rfl 30 (by decide +kernel)
  revert hcapped
  decide +kernel

end TsCommons.Resilience
