import Mathlib.Algebra.BigOperators.Group.List.Basic
import Mathlib.Algebra.Order.BigOperators.Group.List
import Mathlib.Data.Nat.Periodic
import Mathlib.Data.Rat.Floor
import Mathlib.Data.ZMod.Basic
import Mathlib.Tactic.FieldSimp
import Mathlib.Tactic.Linarith
import Mathlib.Tactic.Ring

/-!
# Choices by weight

The running totals of some weights cut the numbers from zero to the total into
a share for each weight.  The remainder of a natural number by the total lies
in one of the shares.  It is a multiple of the unit of the total, which is one
over its denominator, so a share without such a multiple is never met.
-/

namespace TsCommons.Foundations

/-- The position at which the running total first exceeds the bucket. -/
def indexAbove (bucket cumulative : ℚ) : List ℚ → Option ℕ
  | [] => none
  | weight :: weights =>
      if bucket < cumulative + weight then some 0
      else (indexAbove bucket (cumulative + weight) weights).map (· + 1)

/-- The sum of the weights that stand before the position. -/
def totalBefore (weights : List ℚ) (i : ℕ) : ℚ := (weights.take i).sum

/-- The remainder of a division that rounds towards zero. -/
def remainder (x y : ℚ) : ℚ :=
  x - y * ((if 0 ≤ x / y then ⌊x / y⌋ else ⌈x / y⌉ : ℤ) : ℚ)

section Shares

variable {weights : List ℚ} {bucket cumulative weight : ℚ} {i : ℕ}

@[simp] theorem totalBefore_zero (weights : List ℚ) :
    totalBefore weights 0 = 0 := rfl

@[simp] theorem totalBefore_cons_succ (weight : ℚ) (weights : List ℚ) (i : ℕ) :
    totalBefore (weight :: weights) (i + 1) =
      weight + totalBefore weights i := by
  simp [totalBefore]

theorem totalBefore_succ (hweight : weights[i]? = some weight) :
    totalBefore weights (i + 1) = totalBefore weights i + weight := by
  rw [totalBefore, List.take_add_one, List.sum_append, hweight, totalBefore]
  simp

theorem totalBefore_nonneg (hweights : ∀ weight ∈ weights, 0 ≤ weight)
    (i : ℕ) : 0 ≤ totalBefore weights i :=
  List.sum_nonneg fun weight hmem =>
    hweights weight (List.mem_of_mem_take hmem)

theorem totalBefore_le_sum (hweights : ∀ weight ∈ weights, 0 ≤ weight)
    (i : ℕ) : totalBefore weights i ≤ weights.sum := by
  have hrest : 0 ≤ (weights.drop i).sum :=
    List.sum_nonneg fun weight hmem =>
      hweights weight (List.mem_of_mem_drop hmem)
  have hsplit := congrArg List.sum (List.take_append_drop i weights)
  rw [List.sum_append] at hsplit
  rw [totalBefore]
  linarith

theorem exists_natCast_sum
    (hinteger : ∀ weight ∈ weights, ∃ n : ℕ, weight = n) :
    ∃ n : ℕ, weights.sum = n := by
  induction weights with
  | nil => exact ⟨0, rfl⟩
  | cons weight weights ih =>
      obtain ⟨rest, hrest⟩ := ih fun other hother =>
        hinteger other (List.mem_cons_of_mem weight hother)
      obtain ⟨n, hn⟩ := hinteger weight List.mem_cons_self
      refine ⟨n + rest, ?_⟩
      rw [List.sum_cons, hrest, hn, Nat.cast_add]

theorem exists_natCast_totalBefore
    (hinteger : ∀ weight ∈ weights, ∃ n : ℕ, weight = n) (i : ℕ) :
    ∃ n : ℕ, totalBefore weights i = n :=
  exists_natCast_sum fun weight hweight =>
    hinteger weight (List.mem_of_mem_take hweight)

theorem indexAbove_eq_some_iff (hweights : ∀ weight ∈ weights, 0 ≤ weight)
    (hbucket : cumulative ≤ bucket) :
    indexAbove bucket cumulative weights = some i ↔
      cumulative + totalBefore weights i ≤ bucket ∧
        bucket < cumulative + totalBefore weights (i + 1) := by
  induction weights generalizing cumulative i with
  | nil =>
      simp only [indexAbove, totalBefore, List.take_nil, List.sum_nil]
      constructor
      · intro hnone
        cases hnone
      · rintro ⟨hle, hlt⟩
        exact absurd hlt (not_lt.mpr hle)
  | cons weight weights ih =>
      have hrest : ∀ other ∈ weights, 0 ≤ other := fun other hother =>
        hweights other (List.mem_cons_of_mem weight hother)
      by_cases hhere : bucket < cumulative + weight
      · rw [indexAbove, if_pos hhere, Option.some.injEq]
        cases i with
        | zero => simpa using ⟨hbucket, hhere⟩
        | succ i =>
            have hnonneg := totalBefore_nonneg hrest i
            rw [totalBefore_cons_succ]
            constructor
            · intro hzero
              cases hzero
            · rintro ⟨hle, -⟩
              linarith
      · rw [indexAbove, if_neg hhere]
        cases i with
        | zero =>
            simp only [totalBefore_zero, totalBefore_cons_succ, add_zero, hhere,
              and_false, iff_false]
            intro hzero
            obtain ⟨_, -, hsucc⟩ := Option.map_eq_some_iff.mp hzero
            cases hsucc
        | succ i =>
            have hshift : (indexAbove bucket (cumulative + weight) weights).map
                (· + 1) = some (i + 1) ↔
                  indexAbove bucket (cumulative + weight) weights = some i := by
              simp [Option.map_eq_some_iff]
            rw [hshift, ih hrest (not_lt.mp hhere), totalBefore_cons_succ,
              totalBefore_cons_succ, add_assoc, add_assoc]

/-- Every bucket below the total is in a share. -/
theorem exists_indexAbove (hbucket : cumulative ≤ bucket)
    (htotal : bucket < cumulative + weights.sum) :
    ∃ i, indexAbove bucket cumulative weights = some i := by
  induction weights generalizing cumulative with
  | nil =>
      rw [List.sum_nil, add_zero] at htotal
      exact absurd htotal (not_lt.mpr hbucket)
  | cons weight weights ih =>
      by_cases hhere : bucket < cumulative + weight
      · exact ⟨0, if_pos hhere⟩
      · rw [List.sum_cons, ← add_assoc] at htotal
        obtain ⟨i, hi⟩ := ih (not_lt.mp hhere) htotal
        refine ⟨i + 1, ?_⟩
        rw [indexAbove, if_neg hhere, hi, Option.map_some]

end Shares

/-! ## Remainders of natural numbers -/

section Remainders

variable {total : ℚ}

/-- How many units the total has. -/
def unitCount (total : ℚ) : ℕ := total.num.toNat

theorem unitCount_pos (htotal : 0 < total) : 0 < unitCount total := by
  have hnum : 0 < total.num := Rat.num_pos.mpr htotal
  rw [unitCount]
  omega

theorem eq_unitCount_div_den (htotal : 0 < total) :
    total = (unitCount total : ℚ) / total.den := by
  have hnum : ((unitCount total : ℕ) : ℤ) = total.num :=
    Int.toNat_of_nonneg (Rat.num_pos.mpr htotal).le
  have hcast : (unitCount total : ℚ) = (total.num : ℚ) := by
    rw [← hnum]
    rfl
  rw [hcast, Rat.num_div_den]

theorem remainder_natCast_div {count den : ℕ} (hcount : 0 < count)
    (hden : 0 < den) (hash : ℕ) :
    remainder hash ((count : ℚ) / den) =
      ((hash * den % count : ℕ) : ℚ) / den := by
  have hcountNe : (count : ℚ) ≠ 0 := Nat.cast_ne_zero.mpr hcount.ne'
  have hdenNe : (den : ℚ) ≠ 0 := Nat.cast_ne_zero.mpr hden.ne'
  have hquotient : (hash : ℚ) / ((count : ℚ) / den) =
      ((hash * den : ℕ) : ℚ) / (count : ℚ) := by
    rw [Nat.cast_mul]
    field_simp
  have hsplit : (count : ℚ) * (hash * den / count : ℕ) +
      (hash * den % count : ℕ) = hash * den := by
    exact_mod_cast Nat.div_add_mod (hash * den) count
  have hrest : ((hash * den % count : ℕ) : ℚ) =
      hash * den - count * (hash * den / count : ℕ) := by
    linarith
  have hfloor : ⌊((hash * den : ℕ) : ℚ) / (count : ℚ)⌋ =
      ((hash * den / count : ℕ) : ℤ) := by
    rw [Rat.floor_natCast_div_natCast, Int.natCast_div]
  rw [remainder, hquotient, if_pos (by positivity), hfloor, Int.cast_natCast,
    hrest]
  field_simp

theorem remainder_natCast_natCast {count : ℕ} (hcount : 0 < count)
    (hash : ℕ) : remainder hash count = (hash % count : ℕ) := by
  have hunit := remainder_natCast_div hcount Nat.one_pos hash
  rw [Nat.cast_one, div_one, div_one, mul_one] at hunit
  exact hunit

theorem remainder_natCast (htotal : 0 < total) (hash : ℕ) :
    remainder hash total =
      ((hash * total.den % unitCount total : ℕ) : ℚ) / total.den := by
  conv_lhs => rw [eq_unitCount_div_den htotal]
  exact remainder_natCast_div (unitCount_pos htotal) total.den_pos hash

theorem remainder_nonneg (htotal : 0 < total) (hash : ℕ) :
    0 ≤ remainder hash total := by
  rw [remainder_natCast htotal]
  positivity

theorem remainder_lt (htotal : 0 < total) (hash : ℕ) :
    remainder hash total < total := by
  have hlt : ((hash * total.den % unitCount total : ℕ) : ℚ) <
      unitCount total := by
    exact_mod_cast Nat.mod_lt _ (unitCount_pos htotal)
  have hden : (0 : ℚ) < total.den := by exact_mod_cast total.den_pos
  rw [remainder_natCast htotal]
  conv_rhs => rw [eq_unitCount_div_den htotal]
  exact div_lt_div_of_pos_right hlt hden

/-- The least number whose remainder by the total is so many units. -/
def leastHash (total : ℚ) (units : ℕ) : ℕ :=
  ((units : ZMod (unitCount total)) *
    (total.den : ZMod (unitCount total))⁻¹).val

theorem den_mul_inv (htotal : 0 < total) :
    (total.den : ZMod (unitCount total)) *
      (total.den : ZMod (unitCount total))⁻¹ = 1 := by
  apply ZMod.coe_mul_inv_eq_one
  have hnum : unitCount total = total.num.natAbs := by
    have hpos : 0 < total.num := Rat.num_pos.mpr htotal
    rw [unitCount]
    omega
  rw [hnum]
  exact total.reduced.symm

theorem leastHash_mod (htotal : 0 < total) (hash : ℕ) :
    leastHash total (hash * total.den % unitCount total) =
      hash % unitCount total := by
  rw [leastHash, ZMod.natCast_mod, Nat.cast_mul, mul_assoc,
    den_mul_inv htotal, mul_one, ZMod.val_natCast]

theorem leastHash_mul_mod (htotal : 0 < total) {units : ℕ}
    (hunits : units < unitCount total) :
    leastHash total units * total.den % unitCount total = units := by
  have hnonzero : NeZero (unitCount total) := ⟨(unitCount_pos htotal).ne'⟩
  have hcast : ((leastHash total units * total.den : ℕ) :
      ZMod (unitCount total)) = (units : ZMod (unitCount total)) := by
    rw [Nat.cast_mul, leastHash, ZMod.natCast_zmod_val, mul_assoc,
      mul_comm (_⁻¹), den_mul_inv htotal, mul_one]
  have hval := congrArg ZMod.val hcast
  rw [ZMod.val_natCast, ZMod.val_natCast, Nat.mod_eq_of_lt hunits] at hval
  exact hval

end Remainders

/-- Of consecutive numbers, as many as the modulus, each residue is met
once. -/
theorem card_filter_mod {low high count : ℕ} (hhigh : high ≤ count)
    (start : ℕ) :
    ((Finset.Ico start (start + count)).filter fun n =>
      low ≤ n % count ∧ n % count < high).card = high - low := by
  have hperiodic : Function.Periodic
      (fun n => low ≤ n % count ∧ n % count < high) count := by
    intro n
    simp
  rw [Nat.filter_Ico_card_eq_of_periodic start count _ hperiodic,
    Nat.count_eq_card_filter_range, ← Nat.card_Ico]
  congr 1
  ext n
  simp only [Finset.mem_filter, Finset.mem_range, Finset.mem_Ico]
  constructor
  · rintro ⟨hn, hin⟩
    rw [Nat.mod_eq_of_lt hn] at hin
    exact hin
  · rintro ⟨hlow, hlt⟩
    have hn : n < count := hlt.trans_le hhigh
    rw [Nat.mod_eq_of_lt hn]
    exact ⟨hn, hlow, hlt⟩

end TsCommons.Foundations
