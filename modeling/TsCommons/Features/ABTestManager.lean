import TsCommons.Foundations.Utf16
import TsCommons.Foundations.WeightedChoice

/-!
# The variants of an A/B test

A hash of the flag and the user is reduced by the total weight to a bucket, and
the running totals of the weights say whose bucket it is.  Weights are rational
numbers, and the totals are exact where the code adds doubles.
-/

namespace TsCommons.Features

open Foundations

structure FeatureContext where
  userId : Option CodeUnits
  tenantId : Option CodeUnits
deriving DecidableEq

structure ABTestVariant (ν : Type*) where
  name : CodeUnits
  value : ν
  weight : ℚ
deriving DecidableEq

/-- The name and the value of the variant that is assigned. -/
structure AssignedVariant (ν : Type*) where
  name : CodeUnits
  value : ν
deriving DecidableEq

def hashModulus : ℕ := 2147483647

def hashStep (hash : ℕ) (unit : UInt16) : ℕ :=
  (hash * 31 + unit.toNat) % hashModulus

def anonymous : CodeUnits := "anonymous".toList.flatMap Utf16.units

def seedOf (context : Option FeatureContext) : CodeUnits :=
  ((context.bind (·.userId)).or (context.bind (·.tenantId))).getD anonymous

def hashForAB (flagKey : CodeUnits) (context : Option FeatureContext) : ℕ :=
  (flagKey ++ [UInt16.ofNat ':'.toNat] ++ seedOf context).foldl hashStep 0

variable {ν : Type*}

def totalWeight (variants : List (ABTestVariant ν)) : ℚ :=
  variants.foldl (fun sum variant => sum + variant.weight) 0

/-- The position of the variant that is assigned for a hash value; the last
one where the loop finds none. -/
def assignedIndex (variants : List (ABTestVariant ν)) (hash : ℕ) : Option ℕ :=
  if variants.length = 0 then none
  else if totalWeight variants = 0 then none
  else
    let bucket := remainder hash (totalWeight variants)
    some ((indexAbove bucket 0 (variants.map ABTestVariant.weight)).getD
      (variants.length - 1))

def assignVariant (flagKey : CodeUnits) (variants : List (ABTestVariant ν))
    (context : Option FeatureContext) : Option (AssignedVariant ν) :=
  (assignedIndex variants (hashForAB flagKey context)).bind fun i =>
    variants[i]?.map fun variant => ⟨variant.name, variant.value⟩

/-! ## The hash values -/

theorem hashStep_lt (hash : ℕ) (unit : UInt16) :
    hashStep hash unit < hashModulus :=
  Nat.mod_lt _ (by decide)

theorem foldl_hashStep_lt {hash : ℕ} (hhash : hash < hashModulus)
    (seed : CodeUnits) : seed.foldl hashStep hash < hashModulus := by
  induction seed generalizing hash with
  | nil => exact hhash
  | cons unit seed ih => exact ih (hashStep_lt hash unit)

theorem hashForAB_lt (flagKey : CodeUnits) (context : Option FeatureContext) :
    hashForAB flagKey context < hashModulus :=
  foldl_hashStep_lt (by decide) _

/-- The seeds of so many units take a hash to every value below the power. -/
theorem exists_seed (hash : ℕ) {length value : ℕ}
    (hvalue : value < 31 ^ length) :
    ∃ seed : CodeUnits, Nat.ModEq hashModulus (seed.foldl hashStep hash)
      (hash * 31 ^ length + value) := by
  induction length generalizing value with
  | zero =>
      have hzero : value = 0 := Nat.lt_one_iff.mp hvalue
      refine ⟨[], ?_⟩
      rw [hzero, pow_zero, mul_one]
      rfl
  | succ length ih =>
      have hdiv : value / 31 < 31 ^ length := by
        rw [pow_succ] at hvalue
        omega
      obtain ⟨seed, hseed⟩ := ih hdiv
      refine ⟨seed ++ [UInt16.ofNat (value % 31)], ?_⟩
      have hunit : (UInt16.ofNat (value % 31)).toNat = value % 31 := by
        rw [UInt16.toNat_ofNat']
        omega
      rw [List.foldl_concat, hashStep, hunit]
      calc (seed.foldl hashStep hash * 31 + value % 31) % hashModulus
        _ ≡ seed.foldl hashStep hash * 31 + value % 31 [MOD hashModulus] :=
            Nat.mod_modEq _ _
        _ ≡ (hash * 31 ^ length + value / 31) * 31 + value % 31
              [MOD hashModulus] :=
            Nat.ModEq.add_right _ (hseed.mul_right 31)
        _ = hash * 31 ^ (length + 1) + value := by
            rw [pow_succ, add_mul, ← mul_assoc]
            omega

theorem exists_foldl_hashStep_eq {start hash : ℕ}
    (hstart : start < hashModulus) (hhash : hash < hashModulus) :
    ∃ seed : CodeUnits, seed.foldl hashStep start = hash := by
  have hvalue : (hash + (hashModulus - start * 31 ^ 7 % hashModulus)) %
      hashModulus < 31 ^ 7 :=
    (Nat.mod_lt _ (by decide)).trans (by decide)
  obtain ⟨seed, hseed⟩ := exists_seed start hvalue
  have hlt := foldl_hashStep_lt hstart seed
  refine ⟨seed, ?_⟩
  rw [Nat.ModEq, Nat.mod_eq_of_lt hlt] at hseed
  rw [hseed]
  simp only [hashModulus] at hhash ⊢
  omega

/-- Every hash value is that of some user. -/
theorem exists_userId (flagKey : CodeUnits) {hash : ℕ}
    (hhash : hash < hashModulus) :
    ∃ userId, hashForAB flagKey (some ⟨some userId, none⟩) = hash := by
  have hstart := foldl_hashStep_lt (show 0 < hashModulus by decide)
    (flagKey ++ [UInt16.ofNat ':'.toNat])
  obtain ⟨userId, hseed⟩ := exists_foldl_hashStep_eq hstart hhash
  refine ⟨userId, ?_⟩
  rw [hashForAB, List.foldl_append]
  exact hseed

/-- A variant that is assigned for some hash value is assigned to some user of
every flag. -/
theorem exists_user_of_assignedIndex {variants : List (ABTestVariant ν)}
    {variant : ABTestVariant ν} {hash i : ℕ} (hhash : hash < hashModulus)
    (hvariant : variants[i]? = some variant)
    (hassigned : assignedIndex variants hash = some i) (flagKey : CodeUnits) :
    ∃ userId, assignVariant flagKey variants (some ⟨some userId, none⟩) =
      some ⟨variant.name, variant.value⟩ := by
  obtain ⟨userId, huser⟩ := exists_userId flagKey hhash
  refine ⟨userId, ?_⟩
  rw [assignVariant, huser, hassigned, Option.bind_some, hvariant,
    Option.map_some]

/-! ## The shares of the variants -/

section Shares

variable {variants : List (ABTestVariant ν)} {variant : ABTestVariant ν}
  {hash i : ℕ}

/-- The weights are not negative and their total is positive. -/
structure Weighted (variants : List (ABTestVariant ν)) : Prop where
  nonneg : ∀ variant ∈ variants, 0 ≤ variant.weight
  pos : 0 < totalWeight variants

/-- The sum of the weights before the position. -/
def weightBefore (variants : List (ABTestVariant ν)) (i : ℕ) : ℚ :=
  totalBefore (variants.map ABTestVariant.weight) i

theorem totalWeight_eq_sum (variants : List (ABTestVariant ν)) :
    totalWeight variants = (variants.map ABTestVariant.weight).sum := by
  rw [totalWeight, List.sum_eq_foldl, List.foldl_map]

theorem weightBefore_succ (hvariant : variants[i]? = some variant) :
    weightBefore variants (i + 1) =
      weightBefore variants i + variant.weight := by
  apply totalBefore_succ
  rw [List.getElem?_map, hvariant]
  rfl

theorem Weighted.weights_nonneg (hweighted : Weighted variants) :
    ∀ weight ∈ variants.map ABTestVariant.weight, 0 ≤ weight := by
  intro weight hweight
  obtain ⟨variant, hvariant, rfl⟩ := List.mem_map.mp hweight
  exact hweighted.nonneg variant hvariant

/-- A variant is assigned if and only if the bucket is in its share. -/
theorem assignedIndex_eq_some_iff (hweighted : Weighted variants)
    (hash i : ℕ) :
    assignedIndex variants hash = some i ↔
      weightBefore variants i ≤ remainder hash (totalWeight variants) ∧
        remainder hash (totalWeight variants) <
          weightBefore variants (i + 1) := by
  have hne : variants.length ≠ 0 := by
    intro hnil
    rw [List.length_eq_zero_iff] at hnil
    subst hnil
    exact lt_irrefl _ hweighted.pos
  have hbucket := remainder_nonneg hweighted.pos hash
  have hlt : remainder hash (totalWeight variants) <
      0 + (variants.map ABTestVariant.weight).sum := by
    rw [zero_add, ← totalWeight_eq_sum]
    exact remainder_lt hweighted.pos hash
  have hshare := indexAbove_eq_some_iff (i := i) hweighted.weights_nonneg
    hbucket
  rw [zero_add, zero_add] at hshare
  obtain ⟨j, hj⟩ := exists_indexAbove hbucket hlt
  have hassigned : assignedIndex variants hash =
      some ((indexAbove (remainder hash (totalWeight variants)) 0
        (variants.map ABTestVariant.weight)).getD (variants.length - 1)) := by
    rw [assignedIndex, if_neg hne, if_neg hweighted.pos.ne']
  rw [hassigned, hj, Option.getD_some, ← hj]
  exact hshare

/-- The weights are respected by the assignment, as far as the hash values
reach. -/
structure WeightsRespected (variants : List (ABTestVariant ν)) : Prop where
  zero_never : ∀ i variant, variants[i]? = some variant →
    variant.weight = 0 → ∀ hash, assignedIndex variants hash ≠ some i
  positive_some : ∀ i variant, variants[i]? = some variant →
    0 < variant.weight →
      ∃ hash, hash < hashModulus ∧ assignedIndex variants hash = some i
  exact_share : (∀ variant ∈ variants, ∃ n : ℕ, variant.weight = n) →
    ∀ count : ℕ, totalWeight variants = count →
      ∀ start i variant, variants[i]? = some variant →
        (((Finset.Ico start (start + count)).filter fun hash =>
          assignedIndex variants hash = some i).card : ℚ) = variant.weight

/-- Each share of a positive weight has a multiple of the unit of the total
that some hash value is reduced to. -/
def SharesMet (variants : List (ABTestVariant ν)) : Prop :=
  ∀ i variant, variants[i]? = some variant → 0 < variant.weight →
    ∃ units : ℕ,
      weightBefore variants i ≤ (units : ℚ) / (totalWeight variants).den ∧
        (units : ℚ) / (totalWeight variants).den <
          weightBefore variants (i + 1) ∧
        leastHash (totalWeight variants) units < hashModulus

theorem weightBefore_le_totalWeight (hweighted : Weighted variants) (i : ℕ) :
    weightBefore variants i ≤ totalWeight variants := by
  rw [totalWeight_eq_sum]
  exact totalBefore_le_sum hweighted.weights_nonneg i

theorem assignedIndex_ne_of_weight_eq_zero (hweighted : Weighted variants)
    (hvariant : variants[i]? = some variant) (hzero : variant.weight = 0)
    (hash : ℕ) : assignedIndex variants hash ≠ some i := by
  rw [Ne, assignedIndex_eq_some_iff hweighted, weightBefore_succ hvariant,
    hzero, add_zero, not_and]
  exact not_lt.mpr

/-- Fewer units than the total has come from some hash value. -/
theorem units_lt_unitCount (hweighted : Weighted variants) {units : ℕ}
    (hunits : (units : ℚ) / (totalWeight variants).den <
      weightBefore variants i) : units < unitCount (totalWeight variants) := by
  have hlt := hunits.trans_le (weightBefore_le_totalWeight hweighted i)
  have hden : (0 : ℚ) < (totalWeight variants).den := by
    exact_mod_cast (totalWeight variants).den_pos
  conv_rhs at hlt => rw [eq_unitCount_div_den hweighted.pos]
  have hcast := (div_lt_div_iff_of_pos_right hden).mp hlt
  exact_mod_cast hcast

theorem exists_hash_iff (hweighted : Weighted variants) (i : ℕ) :
    (∃ hash, hash < hashModulus ∧ assignedIndex variants hash = some i) ↔
      ∃ units : ℕ,
        weightBefore variants i ≤ (units : ℚ) / (totalWeight variants).den ∧
          (units : ℚ) / (totalWeight variants).den <
            weightBefore variants (i + 1) ∧
          leastHash (totalWeight variants) units < hashModulus := by
  constructor
  · rintro ⟨hash, hhash, hassigned⟩
    rw [assignedIndex_eq_some_iff hweighted,
      remainder_natCast hweighted.pos] at hassigned
    refine ⟨_, hassigned.1, hassigned.2, ?_⟩
    rw [leastHash_mod hweighted.pos]
    exact (Nat.mod_le _ _).trans_lt hhash
  · rintro ⟨units, hlow, hhigh, hleast⟩
    refine ⟨_, hleast, ?_⟩
    rw [assignedIndex_eq_some_iff hweighted, remainder_natCast hweighted.pos,
      leastHash_mul_mod hweighted.pos (units_lt_unitCount hweighted hhigh)]
    exact ⟨hlow, hhigh⟩

theorem exists_natCast_weightBefore
    (hinteger : ∀ variant ∈ variants, ∃ n : ℕ, variant.weight = n) (i : ℕ) :
    ∃ n : ℕ, weightBefore variants i = n := by
  apply exists_natCast_totalBefore
  intro weight hweight
  obtain ⟨variant, hvariant, rfl⟩ := List.mem_map.mp hweight
  exact hinteger variant hvariant

/-- With integer weights the share of a variant is made of the residues from
one bound to the next. -/
theorem exists_residues (hweighted : Weighted variants)
    (hinteger : ∀ variant ∈ variants, ∃ n : ℕ, variant.weight = n) {count : ℕ}
    (hcount : totalWeight variants = count)
    (hvariant : variants[i]? = some variant) :
    ∃ low high : ℕ, low ≤ high ∧ high ≤ count ∧
      (high : ℚ) = low + variant.weight ∧
      ∀ hash, assignedIndex variants hash = some i ↔
        low ≤ hash % count ∧ hash % count < high := by
  obtain ⟨low, hlow⟩ := exists_natCast_weightBefore hinteger i
  obtain ⟨high, hhigh⟩ := exists_natCast_weightBefore hinteger (i + 1)
  have hpos : 0 < count := by
    have htotal := hweighted.pos
    rw [hcount] at htotal
    exact_mod_cast htotal
  have hhighLe : high ≤ count := by
    have hle := weightBefore_le_totalWeight hweighted (i + 1)
    rw [hhigh, hcount] at hle
    exact_mod_cast hle
  have hweight : (high : ℚ) = low + variant.weight := by
    rw [← hhigh, ← hlow]
    exact weightBefore_succ hvariant
  have hlowLe : low ≤ high := by
    have hnonneg := hweighted.nonneg variant (List.mem_of_getElem? hvariant)
    have hle : (low : ℚ) ≤ high := by
      rw [hweight]
      exact le_add_of_nonneg_right hnonneg
    exact_mod_cast hle
  refine ⟨low, high, hlowLe, hhighLe, hweight, fun hash => ?_⟩
  rw [assignedIndex_eq_some_iff hweighted, hcount,
    remainder_natCast_natCast hpos, hlow, hhigh, Nat.cast_le, Nat.cast_lt]

theorem card_assignedIndex (hweighted : Weighted variants)
    (hinteger : ∀ variant ∈ variants, ∃ n : ℕ, variant.weight = n) {count : ℕ}
    (hcount : totalWeight variants = count) (start : ℕ)
    (hvariant : variants[i]? = some variant) :
    (((Finset.Ico start (start + count)).filter fun hash =>
      assignedIndex variants hash = some i).card : ℚ) = variant.weight := by
  obtain ⟨low, high, hlow, hhigh, hweight, hshare⟩ :=
    exists_residues hweighted hinteger hcount hvariant
  simp only [hshare]
  rw [card_filter_mod hhigh, Nat.cast_sub hlow, hweight, add_sub_cancel_left]

/-- Integer weights have their shares met as long as the hash values reach
their total. -/
theorem sharesMet_of_integer (hweighted : Weighted variants)
    (hinteger : ∀ variant ∈ variants, ∃ n : ℕ, variant.weight = n) {count : ℕ}
    (hcount : totalWeight variants = count) (hle : count ≤ hashModulus) :
    SharesMet variants := by
  intro i variant hvariant hpos
  obtain ⟨low, high, -, hhigh, hweight, hshare⟩ :=
    exists_residues hweighted hinteger hcount hvariant
  have hlt : low < high := by
    have hcast : (low : ℚ) < high := by
      rw [hweight]
      exact lt_add_of_pos_right _ hpos
    exact_mod_cast hcast
  apply (exists_hash_iff hweighted i).mp
  refine ⟨low, (hlt.trans_le hhigh).trans_le hle, ?_⟩
  rw [hshare, Nat.mod_eq_of_lt (hlt.trans_le hhigh)]
  exact ⟨le_rfl, hlt⟩

/-- The law holds if and only if the share of every variant of positive weight
is met. -/
theorem weightsRespected_iff_sharesMet (hweighted : Weighted variants) :
    WeightsRespected variants ↔ SharesMet variants := by
  constructor
  · intro hlaw i variant hvariant hpos
    exact (exists_hash_iff hweighted i).mp
      (hlaw.positive_some i variant hvariant hpos)
  · intro hshares
    exact
      { zero_never := fun i variant hvariant hzero =>
          assignedIndex_ne_of_weight_eq_zero hweighted hvariant hzero
        positive_some := fun i variant hvariant hpos =>
          (exists_hash_iff hweighted i).mpr (hshares i variant hvariant hpos)
        exact_share := fun hinteger count hcount start i variant hvariant =>
          card_assignedIndex hweighted hinteger hcount start hvariant }

end Shares

/-- Weights of one third and two thirds of the whole. -/
def oneAndTwo : List (ABTestVariant Bool) :=
  [⟨[], true, 1⟩, ⟨[], false, 2⟩]

theorem weightsRespected_iff_sharesMet_of_oneAndTwo :
    WeightsRespected oneAndTwo ↔ SharesMet oneAndTwo :=
  weightsRespected_iff_sharesMet ⟨by decide +kernel, by decide +kernel⟩

/-- The weights add up to 100. -/
def almostAlways : List (ABTestVariant Bool) :=
  [⟨[], true, 199 / 2⟩, ⟨[], false, 1 / 2⟩]

/-- The second variant has a weight and is never assigned. -/
theorem not_weightsRespected_almostAlways :
    Weighted almostAlways ∧ ¬ WeightsRespected almostAlways := by
  have hweighted : Weighted almostAlways :=
    ⟨by decide +kernel, by decide +kernel⟩
  refine ⟨hweighted, fun hlaw => ?_⟩
  obtain ⟨hash, -, hassigned⟩ := hlaw.positive_some 1 ⟨[], false, 1 / 2⟩ rfl
    (by decide +kernel)
  have htotal : totalWeight almostAlways = (100 : ℕ) := by decide +kernel
  have hfirst : weightBefore almostAlways 1 = 199 / 2 := by decide +kernel
  rw [assignedIndex_eq_some_iff hweighted, htotal, hfirst,
    remainder_natCast_natCast (by decide)] at hassigned
  have hmod : hash % 100 ≤ 99 := by omega
  have hcast : ((hash % 100 : ℕ) : ℚ) ≤ 99 := by exact_mod_cast hmod
  linarith [hassigned.1]

end TsCommons.Features
