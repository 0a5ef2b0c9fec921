import Mathlib.Data.List.Basic
import Mathlib.Tactic.Common

/-!
# Loops over callbacks

A loop calls each callback of a list in turn, up to the first that throws.
-/

namespace TsCommons.Foundations

variable {H : Type*}

/-- The handlers that a loop over them calls, up to the first that throws. -/
def reached (throws : H → Bool) : List H → List H
  | [] => []
  | handler :: rest =>
      handler :: if throws handler then [] else reached throws rest

theorem reached_of_forall_not {throws : H → Bool} {handlers : List H}
    (hnone : ∀ handler ∈ handlers, throws handler = false) :
    reached throws handlers = handlers := by
  induction handlers with
  | nil => rfl
  | cons handler rest ih =>
      rw [List.forall_mem_cons] at hnone
      rw [reached, hnone.1, ih hnone.2]
      rfl

/-- A handler that throws is reached if there is one. -/
theorem any_reached (throws : H → Bool) (handlers : List H) :
    (reached throws handlers).any throws = handlers.any throws := by
  induction handlers with
  | nil => rfl
  | cons handler rest ih =>
      rw [reached, List.any_cons, List.any_cons]
      cases throws handler with
      | true => rfl
      | false => exact congrArg (false || ·) ih

end TsCommons.Foundations
