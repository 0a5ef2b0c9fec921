import TsCommons.Timeseries.Types
import TsCommons.Foundations.Slices
import Mathlib.Algebra.BigOperators.Group.List.Basic
import Mathlib.Algebra.Order.Round

/-!
# Downsampling

Both algorithms cut the points at multiples of a size, rounded down. A target
of less than two points is below what the ends of the series need.
-/

namespace TsCommons.Timeseries

open Foundations

abbrev Point := DataPoint ℚ

def FieldValue.number? {ν : Type} : FieldValue ν → Option ν
  | .number value => some value
  | _ => none

/-- The field of a point, if it is a number. -/
def numberField (field : Text) (point : Point) : Option ℚ :=
  (point.fields.get field).bind FieldValue.number?

/-- `points.slice(start, end)` for bounds that are not negative. -/
def slice (points : List Point) (bounds : ℤ × ℤ) : List Point :=
  points.extract bounds.1.toNat bounds.2.toNat

/-- `values.reduce((a, b) => a + b, 0)`. -/
def sum (values : List ℚ) : ℚ := values.foldl (· + ·) 0

/-! ## Means -/

def buildMeanPoint (bucket : List Point) (field : Text) : Point :=
  let measurement := (bucket.head?.map DataPoint.measurement).getD []
  let timestamps := bucket.map DataPoint.timestamp
  let values := bucket.filterMap (numberField field)
  let avgTs := sum timestamps / timestamps.length
  let avgVal := if 0 < values.length then sum values / values.length else 0
  { timestamp := ⌊avgTs + 1 / 2⌋, measurement := measurement, tags := none,
    fields := InsertionMap.empty.set field (.number avgVal) }

def meanBucket (points : List Point) (bucketSize : ℚ) (i : ℕ) : List Point :=
  slice points (⌊(i : ℚ) * bucketSize⌋,
    min ⌊((i + 1 : ℕ) : ℚ) * bucketSize⌋ points.length)

def meanDownsample (points : List Point) (field : Text) (targetPoints : ℕ) :
    List Point :=
  let bucketSize : ℚ := points.length / targetPoints
  (List.range targetPoints).foldl (fun result i =>
    let bucket := meanBucket points bucketSize i
    if bucket.length = 0 then result
    else result ++ [buildMeanPoint bucket field]) []

/-! ## Largest triangles -/

def fieldValue (point : Option Point) (field : Text) : ℚ :=
  match point with
  | none => 0
  | some point => (numberField field point).getD 0

def triangleArea (x1 y1 x2 y2 x3 y3 : ℚ) : ℚ :=
  |(x1 * (y2 - y3) + x2 * (y3 - y1) + x3 * (y1 - y2)) / 2|

def bucketRange (i : ℕ) (bucketSize : ℚ) : ℤ × ℤ :=
  (⌊(i : ℚ) * bucketSize⌋ + 1, ⌊((i + 1 : ℕ) : ℚ) * bucketSize⌋ + 1)

structure Average where
  ts : ℚ
  val : ℚ
deriving DecidableEq

/-- `length || 1`. -/
def orOne (length : ℕ) : ℕ := if length = 0 then 1 else length

def bucketAvg (points : List Point) (i : ℕ) (bucketCount : ℤ)
    (bucketSize : ℚ) (field : Text) : Average :=
  if bucketCount ≤ i then
    { ts := (points.getLast?.map DataPoint.timestamp).getD 0
      val := fieldValue points.getLast? field }
  else
    let bucket := slice points (bucketRange i bucketSize)
    let vals := bucket.map fun point => fieldValue (some point) field
    { ts := sum (bucket.map DataPoint.timestamp) / orOne bucket.length
      val := sum vals / orOne vals.length }

def area (prev : Point) (nextAvg : Average) (field : Text) (point : Point) :
    ℚ :=
  triangleArea prev.timestamp (fieldValue (some prev) field) point.timestamp
    (fieldValue (some point) field) nextAvg.ts nextAvg.val

def maxAreaPoint (bucket : List Point) (prev : Point) (nextAvg : Average)
    (field : Text) : Option Point :=
  (bucket.foldl (fun (maxArea, best) point =>
    if maxArea < area prev nextAvg field point then
      (area prev nextAvg field point, some point)
    else (maxArea, best)) ((-1 : ℚ), (none : Option Point))).2

/-- One round of the loop. -/
def lttbStep (points : List Point) (field : Text) (bucketCount : ℤ)
    (bucketSize : ℚ) (first : Point) (result : List Point) (i : ℕ) :
    List Point :=
  let bucket := slice points (bucketRange i bucketSize)
  let nextAvg := bucketAvg points (i + 1) bucketCount bucketSize field
  let prev := result.getLast?.getD first
  match maxAreaPoint bucket prev nextAvg field with
  | some best => result ++ [best]
  | none => result

def lttbDownsample (points : List Point) (field : Text) (targetPoints : ℕ) :
    List Point :=
  match points.head?, points.getLast? with
  | some first, some last =>
      let bucketCount : ℤ := targetPoints - 2
      let bucketSize : ℚ := (points.length - 2) / bucketCount
      let result := (List.range bucketCount.toNat).foldl
        (lttbStep points field bucketCount bucketSize first) [first]
      result ++ [last]
  | _, _ => []

def downsample (points : List Point) (field : Text)
    (options : DownsampleOptions) : List Point :=
  if points.length ≤ options.targetPoints then points
  else
    match options.algorithm with
    | .mean => meanDownsample points field options.targetPoints
    | .lttb => lttbDownsample points field options.targetPoints

/-! ## What is returned -/

def mean (values : List ℚ) : ℚ := values.sum / values.length

/-- The mean time of a slice, rounded, and the mean of the numbers in the
field, or zero if there are none. -/
structure Averages (field : Text) (slice : List Point) (point : Point) :
    Prop where
  timestamp : point.timestamp = round (mean (slice.map DataPoint.timestamp))
  value : numberField field point =
    some (mean (slice.filterMap (numberField field)))

/-- Points of the input, at positions that increase. -/
structure Picked (points : List Point) (positions : List ℕ)
    (picked : List Point) : Prop where
  increasing : positions.Pairwise (· < ·)
  points : positions.map (points[·]?) = picked.map some

structure Downsamples (points : List Point) (field : Text)
    (options : DownsampleOptions) : Prop where
  unchanged : points.length ≤ options.targetPoints →
    downsample points field options = points
  atMost : options.targetPoints < points.length →
    (downsample points field options).length ≤ options.targetPoints
  lttb : options.algorithm = .lttb → 2 ≤ options.targetPoints →
    options.targetPoints < points.length →
      (downsample points field options).length = options.targetPoints ∧
      ∃ positions, Picked points positions (downsample points field options) ∧
        positions.head? = some 0 ∧
        positions.getLast? = some (points.length - 1)
  mean : options.algorithm = .mean → 1 ≤ options.targetPoints →
    options.targetPoints < points.length →
      (downsample points field options).length = options.targetPoints ∧
      ∃ parts : List (List Point), parts.flatten = points ∧
        (∀ part ∈ parts, part ≠ []) ∧
        List.Forall₂ (Averages field) parts (downsample points field options)

/-! ## The means of slices -/

variable {points : List Point} {field : Text} {targetPoints : ℕ}

theorem foldl_eq_append_map {α β : Type*} {step : List β → α → List β}
    {f : α → β} {list : List α}
    (hstep : ∀ result, ∀ x ∈ list, step result x = result ++ [f x])
    (result : List β) : list.foldl step result = result ++ list.map f := by
  induction list generalizing result with
  | nil => simp
  | cons x list ih =>
      rw [List.foldl_cons, hstep result x List.mem_cons_self,
        ih (fun result y hy => hstep result y (List.mem_cons_of_mem x hy)),
        List.append_assoc, List.singleton_append, List.map_cons]

theorem sum_eq (values : List ℚ) : sum values = values.sum :=
  List.sum_eq_foldl.symm

theorem averages_buildMeanPoint (bucket : List Point) (field : Text) :
    Averages field bucket (buildMeanPoint bucket field) := by
  constructor
  · simp only [buildMeanPoint, mean, sum_eq, round_eq]
  · have hvalue : numberField field (buildMeanPoint bucket field) =
        some (if 0 < (bucket.filterMap (numberField field)).length then
          sum (bucket.filterMap (numberField field)) /
            (bucket.filterMap (numberField field)).length else 0) := by
      simp [numberField, buildMeanPoint, FieldValue.number?]
    rw [hvalue, mean, sum_eq]
    cases bucket.filterMap (numberField field) with
    | nil => simp
    | cons value values => simp

theorem one_le_bucketSize {length count : ℕ} (hcount : count ≠ 0)
    (hle : count ≤ length) : (1 : ℚ) ≤ (length : ℚ) / count := by
  have hpos : (0 : ℚ) < count := Nat.cast_pos.mpr (Nat.pos_of_ne_zero hcount)
  rw [le_div_iff₀ hpos, one_mul]
  exact Nat.cast_le.mpr hle

theorem meanBucket_eq {size : ℚ} {i : ℕ}
    (hbound : floorMul size (i + 1) ≤ points.length) :
    meanBucket points size i =
      points.extract (floorMul size i) (floorMul size (i + 1)) := by
  have hmin : (min ⌊((i + 1 : ℕ) : ℚ) * size⌋ (points.length : ℤ)).toNat =
      floorMul size (i + 1) := by
    rw [floorMul] at hbound ⊢
    omega
  rw [meanBucket, slice, hmin]
  rfl

section Mean

variable (htarget : targetPoints ≠ 0) (hle : targetPoints ≤ points.length)

include htarget hle

theorem floorMul_le {i : ℕ} (hi : i ≤ targetPoints) :
    floorMul ((points.length : ℚ) / targetPoints) i ≤ points.length := by
  have hmono := (strictMono_floorMul
    (one_le_bucketSize htarget hle)).monotone hi
  rwa [floorMul_div points.length htarget] at hmono

theorem meanSlice_ne_nil {i : ℕ} (hi : i < targetPoints) :
    meanBucket points ((points.length : ℚ) / targetPoints) i ≠ [] := by
  have hbound := floorMul_le htarget hle (Nat.succ_le_of_lt hi)
  rw [meanBucket_eq hbound]
  exact extract_ne_nil (strictMono_floorMul (one_le_bucketSize htarget hle)
    (Nat.lt_succ_self i)) hbound

theorem map_meanBucket :
    (List.range targetPoints).map
        (meanBucket points ((points.length : ℚ) / targetPoints)) =
      slices (floorMul ((points.length : ℚ) / targetPoints)) targetPoints
        points :=
  List.map_congr_left fun _ hi => meanBucket_eq
    (floorMul_le htarget hle (Nat.succ_le_of_lt (List.mem_range.mp hi)))

/-- The mean points of slices that together are the input. -/
theorem meanDownsample_eq (field : Text) :
    ∃ parts : List (List Point), parts.flatten = points ∧
      (∀ part ∈ parts, part ≠ []) ∧ parts.length = targetPoints ∧
        meanDownsample points field targetPoints =
          parts.map fun part => buildMeanPoint part field := by
  refine ⟨(List.range targetPoints).map
    (meanBucket points ((points.length : ℚ) / targetPoints)), ?_, ?_, ?_, ?_⟩
  · have hmono := (strictMono_floorMul
      (one_le_bucketSize htarget hle)).monotone
    rw [map_meanBucket htarget hle, flatten_slices hmono, floorMul_zero,
      floorMul_div points.length htarget]
    simp
  · intro part hpart
    obtain ⟨i, hi, rfl⟩ := List.mem_map.mp hpart
    exact meanSlice_ne_nil htarget hle (List.mem_range.mp hi)
  · rw [List.length_map, List.length_range]
  · rw [meanDownsample, foldl_eq_append_map, List.nil_append, List.map_map]
    intro result i hi
    have hne := meanSlice_ne_nil htarget hle (List.mem_range.mp hi)
    exact if_neg (mt List.length_eq_zero_iff.mp hne)

end Mean

theorem length_meanDownsample_le (hlt : targetPoints < points.length)
    (field : Text) :
    (meanDownsample points field targetPoints).length ≤ targetPoints := by
  by_cases htarget : targetPoints = 0
  · subst htarget
    exact le_rfl
  · obtain ⟨parts, -, -, hlength, hparts⟩ :=
      meanDownsample_eq htarget hlt.le field
    rw [hparts, List.length_map, hlength]

/-! ## The points of largest triangles -/

theorem area_nonneg (prev : Point) (nextAvg : Average) (field : Text)
    (point : Point) : 0 ≤ area prev nextAvg field point := abs_nonneg _

theorem foldl_maxArea_mem (prev : Point) (nextAvg : Average) (field : Text)
    (bucket : List Point) (maxArea : ℚ) (point : Point) :
    ∃ best ∈ point :: bucket,
      (bucket.foldl (fun (maxArea, best) point =>
        if maxArea < area prev nextAvg field point then
          (area prev nextAvg field point, some point)
        else (maxArea, best)) (maxArea, some point)).2 = some best := by
  induction bucket generalizing maxArea point with
  | nil => exact ⟨point, List.mem_cons_self, rfl⟩
  | cons next bucket ih =>
      rw [List.foldl_cons]
      by_cases hlarger : maxArea < area prev nextAvg field next
      · simp only [if_pos hlarger]
        obtain ⟨best, hbest, heq⟩ := ih (area prev nextAvg field next) next
        exact ⟨best, List.mem_cons_of_mem point hbest, heq⟩
      · simp only [if_neg hlarger]
        obtain ⟨best, hbest, heq⟩ := ih maxArea point
        refine ⟨best, ?_, heq⟩
        rcases List.mem_cons.mp hbest with rfl | hrest
        · exact List.mem_cons_self
        · exact List.mem_cons_of_mem point (List.mem_cons_of_mem next hrest)

theorem exists_maxAreaPoint {bucket : List Point} (hne : bucket ≠ [])
    (prev : Point) (nextAvg : Average) (field : Text) :
    ∃ best ∈ bucket, maxAreaPoint bucket prev nextAvg field = some best := by
  obtain ⟨point, rest, rfl⟩ := List.exists_cons_of_ne_nil hne
  have hlarger : (-1 : ℚ) < area prev nextAvg field point :=
    neg_one_lt_zero.trans_le (area_nonneg prev nextAvg field point)
  obtain ⟨best, hbest, heq⟩ := foldl_maxArea_mem prev nextAvg field rest
    (area prev nextAvg field point) point
  refine ⟨best, hbest, ?_⟩
  rw [maxAreaPoint, List.foldl_cons]
  simp only [if_pos hlarger]
  exact heq

theorem slice_bucketRange {size : ℚ} (hsize : 1 ≤ size) (i : ℕ) :
    slice points (bucketRange i size) =
      points.extract (floorMul size i + 1) (floorMul size (i + 1) + 1) := by
  have hnonneg (i : ℕ) : (0 : ℤ) ≤ ⌊(i : ℚ) * size⌋ :=
    Int.floor_nonneg.mpr (mul_nonneg (Nat.cast_nonneg i)
      (zero_le_one.trans hsize))
  have hbound (i : ℕ) : (⌊(i : ℚ) * size⌋ + 1).toNat = floorMul size i + 1 := by
    have hi := hnonneg i
    rw [floorMul]
    omega
  rw [slice, bucketRange, hbound, hbound]

/-- Each round takes a point between the bounds of its bucket. -/
theorem lttbStep_eq {size : ℚ} {bucketCount : ℤ} {first : Point}
    {result : List Point} {i : ℕ} (hsize : 1 ≤ size)
    (hbound : floorMul size (i + 1) + 1 ≤ points.length) :
    ∃ best position, floorMul size i + 1 ≤ position ∧
      position < floorMul size (i + 1) + 1 ∧ points[position]? = some best ∧
        lttbStep points field bucketCount size first result i =
          result ++ [best] := by
  have hne : slice points (bucketRange i size) ≠ [] := by
    rw [slice_bucketRange hsize]
    exact extract_ne_nil (Nat.succ_lt_succ (strictMono_floorMul hsize
      (Nat.lt_succ_self i))) hbound
  obtain ⟨best, hmem, hbest⟩ := exists_maxAreaPoint hne
    (result.getLast?.getD first)
    (bucketAvg points (i + 1) bucketCount size field) field
  rw [slice_bucketRange hsize] at hmem
  obtain ⟨position, hlow, hhigh, hposition⟩ := exists_of_mem_extract hmem
  refine ⟨best, position, hlow, hhigh, hposition, ?_⟩
  simp only [lttbStep, hbest]

theorem Picked.concat {positions : List ℕ} {picked : List Point}
    (hpicked : Picked points positions picked) {position : ℕ} {point : Point}
    (hlt : ∀ other ∈ positions, other < position)
    (hpoint : points[position]? = some point) :
    Picked points (positions ++ [position]) (picked ++ [point]) := by
  constructor
  · rw [List.pairwise_append]
    refine ⟨hpicked.increasing, List.pairwise_singleton _ _, ?_⟩
    intro other hother last hlast
    rw [List.mem_singleton.mp hlast]
    exact hlt other hother
  · rw [List.map_append, List.map_append, hpicked.points, List.map_singleton,
      List.map_singleton, hpoint]

/-- What is picked before the bound, beginning with the first point. -/
structure PickedBelow (points : List Point) (bound count : ℕ)
    (result : List Point) (positions : List ℕ) : Prop where
  picked : Picked points positions result
  below : ∀ position ∈ positions, position < bound
  head : positions.head? = some 0
  length : result.length = count

theorem PickedBelow.concat {bound count : ℕ} {result : List Point}
    {positions : List ℕ}
    (hbelow : PickedBelow points bound count result positions)
    {position : ℕ} {point : Point} (hposition : bound ≤ position)
    (hpoint : points[position]? = some point) {next : ℕ}
    (hnext : position < next) :
    PickedBelow points next (count + 1) (result ++ [point])
      (positions ++ [position]) where
  picked := hbelow.picked.concat
    (fun other hother => (hbelow.below other hother).trans_le hposition) hpoint
  below other hother := by
    rcases List.mem_append.mp hother with hother | hother
    · exact (hbelow.below other hother).trans (hposition.trans_lt hnext)
    · rw [List.mem_singleton.mp hother]
      exact hnext
  head := by
    rw [List.head?_append, hbelow.head]
    rfl
  length := by
    rw [List.length_append, hbelow.length, List.length_singleton]

theorem pickedBelow_first {first : Point} (hfirst : points[0]? = some first) :
    PickedBelow points 1 1 [first] [0] := by
  refine ⟨⟨List.pairwise_singleton _ _, ?_⟩, ?_, rfl, rfl⟩
  · rw [List.map_singleton, hfirst]
    rfl
  · intro position hposition
    rw [List.mem_singleton.mp hposition]
    exact Nat.one_pos

theorem pickedBelow_foldl {size : ℚ} {bucketCount : ℤ} {first : Point}
    (hsize : 1 ≤ size) (hfirst : points[0]? = some first) (count : ℕ)
    (hbound : floorMul size count + 1 ≤ points.length) :
    ∃ positions, PickedBelow points (floorMul size count + 1) (count + 1)
      ((List.range count).foldl
        (lttbStep points field bucketCount size first) [first]) positions := by
  induction count with
  | zero =>
      rw [floorMul_zero]
      exact ⟨[0], pickedBelow_first hfirst⟩
  | succ count ih =>
      have hmono := (strictMono_floorMul hsize).monotone (Nat.le_succ count)
      obtain ⟨positions, hpositions⟩ :=
        ih ((Nat.succ_le_succ hmono).trans hbound)
      obtain ⟨best, position, hlow, hhigh, hbest, hstep⟩ :=
        lttbStep_eq hsize hbound
      refine ⟨positions ++ [position], ?_⟩
      rw [List.range_succ, List.foldl_append, List.foldl_cons, List.foldl_nil,
        hstep]
      exact hpositions.concat hlow hbest hhigh

/-- The rounds of the loop stop before the last point. -/
theorem pickedBelow_buckets {first : Point} {inner count : ℕ}
    (hlength : points.length = inner + 2) (hlt : count < inner)
    (hfirst : points[0]? = some first) (field : Text) :
    ∃ bound positions, bound ≤ points.length - 1 ∧
      PickedBelow points bound (count + 1)
        ((List.range count).foldl (lttbStep points field count
          ((inner : ℚ) / count) first) [first]) positions := by
  by_cases hnone : count = 0
  · subst hnone
    exact ⟨1, [0], by omega, pickedBelow_first hfirst⟩
  · have hfloor := floorMul_div inner hnone
    have hbound : floorMul ((inner : ℚ) / count) count + 1 ≤
        points.length - 1 := by
      rw [hfloor]
      omega
    obtain ⟨positions, hpositions⟩ := pickedBelow_foldl
      (one_le_bucketSize hnone hlt.le) hfirst count
      (hbound.trans (Nat.sub_le _ _))
    exact ⟨_, positions, hbound, hpositions⟩

theorem exists_ends (hlt : targetPoints < points.length) :
    ∃ first last, points.head? = some first ∧ points.getLast? = some last := by
  have hne : points ≠ [] := by
    rintro rfl
    exact absurd hlt (Nat.not_lt_zero _)
  exact ⟨points.head hne, points.getLast hne, List.head?_eq_some_head hne,
    List.getLast?_eq_some_getLast hne⟩

/-- The first point, one of each of the buckets, and the last. -/
theorem lttbDownsample_picked (htarget : 2 ≤ targetPoints)
    (hlt : targetPoints < points.length) (field : Text) :
    (lttbDownsample points field targetPoints).length = targetPoints ∧
      ∃ positions,
        Picked points positions (lttbDownsample points field targetPoints) ∧
          positions.head? = some 0 ∧
            positions.getLast? = some (points.length - 1) := by
  obtain ⟨first, last, hfirst, hlast⟩ := exists_ends hlt
  obtain ⟨count, rfl⟩ := Nat.exists_eq_add_of_le' htarget
  obtain ⟨inner, hinner⟩ : ∃ inner, points.length = inner + 2 :=
    Nat.exists_eq_add_of_le' (htarget.trans hlt.le)
  have hcount : ((count + 2 : ℕ) : ℤ) - 2 = count := by
    rw [Nat.cast_add, Nat.cast_ofNat, add_sub_cancel_right]
  have hlength : (points.length : ℚ) - 2 = inner := by
    rw [hinner, Nat.cast_add, Nat.cast_ofNat, add_sub_cancel_right]
  have hresult : lttbDownsample points field (count + 2) =
      (List.range count).foldl (lttbStep points field count
        ((inner : ℚ) / count) first) [first] ++ [last] := by
    simp only [lttbDownsample, hfirst, hlast, hcount, hlength,
      Int.toNat_natCast, Int.cast_natCast]
  have hzero : points[0]? = some first := by
    rw [← List.head?_eq_getElem?, hfirst]
  have hinside : count < inner := by omega
  obtain ⟨bound, positions, hbound, hpositions⟩ :=
    pickedBelow_buckets hinner hinside hzero field
  have hend : points[points.length - 1]? = some last := by
    rw [← List.getLast?_eq_getElem?, hlast]
  have hpicked := hpositions.concat hbound hend (Nat.lt_succ_self _)
  rw [hresult]
  refine ⟨hpicked.length, _, hpicked.picked, hpicked.head, ?_⟩
  rw [List.getLast?_concat]

/-- With a target below two there are only the ends. -/
theorem length_lttbDownsample_of_lt (htarget : targetPoints < 2)
    (hlt : targetPoints < points.length) (field : Text) :
    (lttbDownsample points field targetPoints).length = 2 := by
  obtain ⟨first, last, hfirst, hlast⟩ := exists_ends hlt
  have hcount : ((targetPoints : ℤ) - 2).toNat = 0 := by omega
  simp only [lttbDownsample, hfirst, hlast, hcount, List.range_zero,
    List.foldl_nil]
  rfl

/-! ## When the target is met -/

theorem downsample_of_lt {options : DownsampleOptions}
    (hlt : options.targetPoints < points.length) (field : Text) :
    downsample points field options = match options.algorithm with
      | .mean => meanDownsample points field options.targetPoints
      | .lttb => lttbDownsample points field options.targetPoints :=
  if_neg hlt.not_ge

/-- Largest triangles need a target of two points, unless nothing is to be
left out. -/
theorem downsamples_iff (points : List Point) (field : Text)
    (options : DownsampleOptions) :
    Downsamples points field options ↔ options.algorithm = .mean ∨
      2 ≤ options.targetPoints ∨ points.length ≤ options.targetPoints := by
  obtain ⟨algorithm, targetPoints⟩ := options
  constructor
  · intro hlaw
    cases algorithm with
    | mean => exact Or.inl rfl
    | lttb =>
        refine Or.inr (or_iff_not_imp_right.mpr fun hlonger => ?_)
        have hlt : targetPoints < points.length := Nat.lt_of_not_le hlonger
        by_contra htarget
        have hlength := hlaw.atMost hlt
        rw [downsample_of_lt hlt, length_lttbDownsample_of_lt
          (Nat.lt_of_not_le htarget) hlt] at hlength
        exact htarget hlength
  · intro hcondition
    refine ⟨fun hle => if_pos hle, fun hlt => ?_, ?_, ?_⟩
    · rw [downsample_of_lt hlt]
      cases algorithm with
      | mean => exact length_meanDownsample_le hlt field
      | lttb =>
          have htarget : 2 ≤ targetPoints := by
            rcases hcondition with hmean | htarget | hle
            · cases hmean
            · exact htarget
            · exact absurd hlt hle.not_gt
          exact (lttbDownsample_picked htarget hlt field).1.le
    · rintro rfl htarget hlt
      rw [downsample_of_lt hlt]
      exact lttbDownsample_picked htarget hlt field
    · rintro rfl htarget hlt
      rw [downsample_of_lt hlt]
      obtain ⟨parts, hflatten, hne, hlength, hparts⟩ := meanDownsample_eq
        (Nat.one_le_iff_ne_zero.mp htarget) hlt.le field
      simp only [hparts]
      refine ⟨by rw [List.length_map, hlength], parts, hflatten, hne, ?_⟩
      rw [List.forall₂_map_right_iff]
      exact List.forall₂_same.mpr fun part _ =>
        averages_buildMeanPoint part field

/-- A point of a series that rises by two every second. -/
def risingPoint (i : ℕ) : Point where
  timestamp := i * 1000
  measurement := "cpu".toList
  tags := none
  fields := InsertionMap.empty.set "v".toList (.number (i * 2))

def toOnePoint : DownsampleOptions where
  algorithm := .lttb
  targetPoints := 1

theorem two_points_of_three :
    (downsample ((List.range 3).map risingPoint) "v".toList
        toOnePoint).length = 2 ∧
      ¬ Downsamples ((List.range 3).map risingPoint) "v".toList
        toOnePoint := by
  have hlength : (downsample ((List.range 3).map risingPoint) "v".toList
      toOnePoint).length = 2 := rfl
  refine ⟨hlength, fun hlaw => ?_⟩
  have hmost := hlaw.atMost (by decide)
  rw [hlength] at hmost
  exact absurd hmost (by decide)

end TsCommons.Timeseries
