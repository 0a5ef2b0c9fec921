import Mathlib.Data.Rat.Floor
import Mathlib.Order.Monotone.Basic

/-!
# Consecutive slices of a list

A list is cut at bounds that increase. The bounds of parts of equal size are
the multiples of the size, rounded down.
-/

namespace TsCommons.Foundations

variable {α : Type*} {list : List α} {bounds : ℕ → ℕ} {start middle stop : ℕ}

/-- The slices from each bound to the next. -/
def slices (bounds : ℕ → ℕ) (count : ℕ) (list : List α) : List (List α) :=
  (List.range count).map fun i => list.extract (bounds i) (bounds (i + 1))

theorem extract_append_extract (hstart : start ≤ middle)
    (hstop : middle ≤ stop) :
    list.extract start middle ++ list.extract middle stop =
      list.extract start stop := by
  have hlength : stop - start = (middle - start) + (stop - middle) := by
    omega
  have hdrop : list.drop middle = (list.drop start).drop (middle - start) := by
    rw [List.drop_drop, Nat.add_sub_cancel' hstart]
  rw [List.extract_eq_take_drop, List.extract_eq_take_drop,
    List.extract_eq_take_drop, hlength, List.take_add, hdrop]

theorem flatten_slices (hbounds : Monotone bounds) (count : ℕ) :
    (slices bounds count list).flatten =
      list.extract (bounds 0) (bounds count) := by
  induction count with
  | zero => simp [slices]
  | succ count ih =>
      have hsnoc : slices bounds (count + 1) list =
          slices bounds count list ++
            [list.extract (bounds count) (bounds (count + 1))] := by
        rw [slices, List.range_succ, List.map_append]
        rfl
      rw [hsnoc, List.flatten_append, ih, List.flatten_singleton,
        extract_append_extract (hbounds (Nat.zero_le count))
          (hbounds (Nat.le_succ count))]

theorem extract_ne_nil (hlt : start < stop) (hstop : stop ≤ list.length) :
    list.extract start stop ≠ [] := by
  rw [List.extract_eq_take_drop, ← List.length_pos_iff, List.length_take,
    List.length_drop]
  omega

theorem exists_of_mem_extract {x : α} (hmem : x ∈ list.extract start stop) :
    ∃ i, start ≤ i ∧ i < stop ∧ list[i]? = some x := by
  rw [List.extract_eq_take_drop] at hmem
  obtain ⟨i, hi⟩ := List.mem_iff_getElem?.mp hmem
  obtain ⟨hlt, -⟩ := List.getElem?_eq_some_iff.mp hi
  rw [List.length_take] at hlt
  have hlt' : i < stop - start := hlt.trans_le (Nat.min_le_left _ _)
  rw [List.getElem?_take_of_lt hlt', List.getElem?_drop] at hi
  exact ⟨start + i, Nat.le_add_right start i, by omega, hi⟩

/-! ## Bounds of parts of one size -/

def floorMul (size : ℚ) (i : ℕ) : ℕ := ⌊(i : ℚ) * size⌋.toNat

theorem floorMul_zero (size : ℚ) : floorMul size 0 = 0 := by
  simp [floorMul]

variable {size : ℚ}

theorem strictMono_floorMul (hsize : 1 ≤ size) :
    StrictMono (floorMul size) := by
  refine strictMono_nat_of_lt_succ fun i => ?_
  have hnonneg : (0 : ℤ) ≤ ⌊(i : ℚ) * size⌋ :=
    Int.floor_nonneg.mpr (mul_nonneg (Nat.cast_nonneg i)
      (zero_le_one.trans hsize))
  have hstep : ⌊(i : ℚ) * size⌋ + 1 ≤ ⌊((i + 1 : ℕ) : ℚ) * size⌋ := by
    rw [← Int.floor_add_one]
    apply Int.floor_le_floor
    rw [Nat.cast_add_one, add_mul, one_mul]
    exact add_le_add_right hsize _
  rw [floorMul, floorMul]
  omega

/-- The last of the bounds is the length. -/
theorem floorMul_div (length : ℕ) {count : ℕ} (hcount : count ≠ 0) :
    floorMul ((length : ℚ) / count) count = length := by
  have hne : (count : ℚ) ≠ 0 := Nat.cast_ne_zero.mpr hcount
  rw [floorMul, mul_div_cancel₀ _ hne, Int.floor_natCast, Int.toNat_natCast]

end TsCommons.Foundations
