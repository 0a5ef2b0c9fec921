import TsCommons.Foundations.InsertionMap
import Mathlib.Data.Rat.Defs
import Mathlib.Algebra.Order.Ring.Unbundled.Rat
import Mathlib.Tactic.Linarith

/-!
# The rate limiter of the notifications

The times of the sends are kept for each channel and user, and dropped when
the window has moved past them.  The readings of the clock are inputs.
-/

namespace TsCommons.Notifications

open Foundations

inductive NotificationChannel
  | email
  | sms
  | push
  | webhook
deriving DecidableEq

def NotificationChannel.text : NotificationChannel → String
  | .email => "email"
  | .sms => "sms"
  | .push => "push"
  | .webhook => "webhook"

structure RateLimitConfig where
  windowMs : ℚ
  maxCount : ℕ
deriving DecidableEq

structure RateLimiter where
  config : RateLimitConfig
  windows : InsertionMap String (List ℚ)
deriving DecidableEq

def windowKey (channel : NotificationChannel) (userId : String) : String :=
  channel.text ++ "::" ++ userId

def pruneOldTimestamps (timestamps : List ℚ) (windowMs now : ℚ) : List ℚ :=
  timestamps.filter fun time => now - time < windowMs

namespace RateLimiter

def create (config : RateLimitConfig) : RateLimiter := ⟨config, .empty⟩

def raw (limiter : RateLimiter) (key : String) : List ℚ :=
  (limiter.windows.get key).getD []

def isAllowed (limiter : RateLimiter) (channel : NotificationChannel)
    (userId : String) (now : ℚ) : Bool :=
  let active := pruneOldTimestamps (limiter.raw (windowKey channel userId))
    limiter.config.windowMs now
  active.length < limiter.config.maxCount

def record (limiter : RateLimiter) (channel : NotificationChannel)
    (userId : String) (now : ℚ) : RateLimiter :=
  let key := windowKey channel userId
  let active := pruneOldTimestamps (limiter.raw key)
    limiter.config.windowMs now
  { limiter with windows := limiter.windows.set key (active ++ [now]) }

def getCount (limiter : RateLimiter) (channel : NotificationChannel)
    (userId : String) (now : ℚ) : ℕ :=
  (pruneOldTimestamps (limiter.raw (windowKey channel userId))
    limiter.config.windowMs now).length

end RateLimiter

/-! ## Sends within a window -/

/-- How many of the times are younger than the window at the time. -/
def younger (windowMs now : ℚ) (times : List ℚ) : ℕ :=
  times.countP fun time => now - time < windowMs

/-- How many of the times lie in the window from the start on. -/
def within (windowMs start : ℚ) (times : List ℚ) : ℕ :=
  times.countP fun time => start ≤ time ∧ time < start + windowMs

variable {windowMs now later start : ℚ} {times : List ℚ}
  {limiter : RateLimiter} {channel : NotificationChannel} {userId key : String}

theorem younger_append (windowMs now : ℚ) (first second : List ℚ) :
    younger windowMs now (first ++ second) =
      younger windowMs now first + younger windowMs now second :=
  List.countP_append

theorem younger_anti (hle : now ≤ later) :
    younger windowMs later times ≤ younger windowMs now times := by
  apply List.countP_mono_left
  intro time _ hyounger
  simp only [decide_eq_true_eq] at hyounger ⊢
  linarith

theorem within_le_younger (hnow : now < start + windowMs) :
    within windowMs start times ≤ younger windowMs now times := by
  apply List.countP_mono_left
  intro time _ hwithin
  simp only [decide_eq_true_eq] at hwithin ⊢
  linarith [hwithin.1]

theorem younger_pruneOldTimestamps (hle : now ≤ later) :
    younger windowMs later (pruneOldTimestamps times windowMs now) =
      younger windowMs later times := by
  rw [younger, pruneOldTimestamps, List.countP_filter, younger]
  apply List.countP_congr
  intro time _
  simp only [Bool.and_eq_true, decide_eq_true_eq]
  constructor
  · exact fun hboth => hboth.1
  · intro hyounger
    exact ⟨hyounger, by linarith⟩

theorem isAllowed_iff :
    limiter.isAllowed channel userId now = true ↔
      younger limiter.config.windowMs now
        (limiter.raw (windowKey channel userId)) <
          limiter.config.maxCount := by
  rw [RateLimiter.isAllowed, decide_eq_true_eq, pruneOldTimestamps,
    ← List.countP_eq_length_filter, younger]

theorem raw_record :
    (limiter.record channel userId now).raw key =
      if key = windowKey channel userId then
        pruneOldTimestamps (limiter.raw key) limiter.config.windowMs now ++
          [now]
      else limiter.raw key := by
  simp only [RateLimiter.raw, RateLimiter.record, InsertionMap.get_set]
  split
  · rename_i heq
    rw [heq]
    rfl
  · rfl

/-- What is recorded bounds the sends that were handed over, and those within
any window are at most as many as are allowed. -/
structure Limits (limiter : RateLimiter) (now : ℚ)
    (times : String → List ℚ) : Prop where
  recorded : ∀ key later, now ≤ later →
    younger limiter.config.windowMs later (times key) ≤
      younger limiter.config.windowMs later (limiter.raw key)
  limited : ∀ key start,
    within limiter.config.windowMs start (times key) ≤
      limiter.config.maxCount

variable {sent : String → List ℚ}

theorem limits_create (config : RateLimitConfig) (now : ℚ) :
    Limits (.create config) now fun _ => [] := by
  constructor
  · intro key later _
    exact Nat.zero_le _
  · intro key start
    exact Nat.zero_le _

theorem Limits.mono (hlimits : Limits limiter now sent)
    (hle : now ≤ later) : Limits limiter later sent :=
  ⟨fun key time htime => hlimits.recorded key time (hle.trans htime),
    hlimits.limited⟩

theorem Limits.record (hlimits : Limits limiter now sent)
    (hle : now ≤ later) :
    Limits (limiter.record channel userId later) later sent := by
  refine ⟨fun key time htime => ?_, hlimits.limited⟩
  have hbefore := hlimits.recorded key time (hle.trans htime)
  rw [raw_record]
  split
  · rw [younger_append]
    change _ ≤ younger limiter.config.windowMs time _ +
      younger limiter.config.windowMs time _
    rw [younger_pruneOldTimestamps htime]
    exact hbefore.trans (Nat.le_add_right _ _)
  · exact hbefore

/-- A send that is allowed at one time is recorded and handed over at a later
one. -/
theorem Limits.handOver (hlimits : Limits limiter now sent)
    (hallowed : limiter.isAllowed channel userId now = true)
    (hle : now ≤ later) :
    Limits (limiter.record channel userId later) later
      (Function.update sent (windowKey channel userId)
        (sent (windowKey channel userId) ++ [later])) := by
  constructor
  · intro key time htime
    have hbefore := hlimits.recorded key time (hle.trans htime)
    rw [raw_record]
    by_cases hkey : key = windowKey channel userId
    · rw [if_pos hkey, hkey, Function.update_self, younger_append,
        younger_append]
      change _ ≤ younger limiter.config.windowMs time _ +
        younger limiter.config.windowMs time _
      rw [younger_pruneOldTimestamps htime, ← hkey]
      exact Nat.add_le_add_right hbefore _
    · rw [if_neg hkey, Function.update_of_ne hkey]
      exact hbefore
  · intro key start
    by_cases hkey : key = windowKey channel userId
    · rw [hkey, Function.update_self, within, List.countP_append,
        List.countP_singleton, ← within]
      split
      · rename_i hwithin
        simp only [decide_eq_true_eq] at hwithin
        have hyounger :=
          calc within limiter.config.windowMs start
                (sent (windowKey channel userId))
              ≤ younger limiter.config.windowMs later
                  (sent (windowKey channel userId)) :=
                within_le_younger hwithin.2
            _ ≤ younger limiter.config.windowMs now
                  (sent (windowKey channel userId)) := younger_anti hle
            _ ≤ younger limiter.config.windowMs now
                  (limiter.raw (windowKey channel userId)) :=
                hlimits.recorded _ now le_rfl
            _ < limiter.config.maxCount := isAllowed_iff.mp hallowed
        exact hyounger
      · exact hlimits.limited _ start
    · rw [Function.update_of_ne hkey]
      exact hlimits.limited key start

end TsCommons.Notifications
