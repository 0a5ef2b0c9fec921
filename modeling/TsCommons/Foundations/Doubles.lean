import Mathlib.Algebra.Group.Nat.Defs
import Mathlib.Data.Nat.Log
import Mathlib.Tactic.Common

/-!
# Natural numbers as doubles

A double has 53 significant bits.  A natural number that needs more of them is
rounded to the nearest double.
-/

namespace TsCommons.Foundations

/-- The double that is nearest to a natural number, or the even one of two. -/
def toDouble (number : ℕ) : ℕ :=
  let unit := 2 ^ (number.log2 - 52)
  let quotient := number / unit
  let remainder := number % unit
  if unit < 2 * remainder ∨ 2 * remainder = unit ∧ quotient % 2 = 1 then
    (quotient + 1) * unit
  else quotient * unit

theorem toDouble_of_lt {number : ℕ} (hexact : number < 2 ^ 53) :
    toDouble number = number := by
  have hlog : number.log2 - 52 = 0 := by
    by_cases hzero : number = 0
    · subst hzero
      rfl
    · have hlt := (Nat.log2_lt hzero).mpr hexact
      omega
  simp [toDouble, hlog, Nat.mod_one]

end TsCommons.Foundations
