import Mathlib.Data.List.Basic
import Mathlib.Data.List.Perm.Subperm
import Mathlib.Data.Nat.Bitwise
import Mathlib.Tactic.Common

/-!
# The bits of a list of bytes

The bits of all bytes stand in one row of positions: eight for each byte, from
its lowest one.
-/

namespace TsCommons.Foundations.Bits

variable {bytes : List (BitVec 8)} {byte : BitVec 8} {position other : ℕ}

/-- A position behind the last byte holds no bit. -/
def bit (bytes : List (BitVec 8)) (position : ℕ) : Bool :=
  (bytes.getD (position / 8) 0).getLsbD (position % 8)

/-- How many of the bits are set. -/
def count (bytes : List (BitVec 8)) : ℕ :=
  (List.range (8 * bytes.length)).countP (bit bytes)

/-- The positions of the bits that are set. -/
def members (bytes : List (BitVec 8)) : Set ℕ :=
  {position | bit bytes position = true}

theorem getLsbD_one_shiftLeft (shift index : ℕ) (hindex : index < 8) :
    (1#8 <<< shift).getLsbD index = decide (index = shift) := by
  rw [BitVec.getLsbD_shiftLeft, BitVec.getLsbD_one]
  by_cases heq : index = shift
  · subst heq
    simp [hindex]
  · by_cases hlt : index < shift
    · simp [heq, hlt]
    · have hpos : index - shift ≠ 0 := by omega
      simp [heq, hpos]

/-- Setting the bit of a position in its byte sets that bit and no other. -/
theorem bit_set_or (hbyte : position / 8 < bytes.length) (other : ℕ) :
    bit (bytes.set (position / 8)
        (bytes.getD (position / 8) 0 ||| 1#8 <<< (position % 8))) other =
      (decide (other = position) || bit bytes other) := by
  have hindex : other % 8 < 8 := Nat.mod_lt _ (by decide)
  unfold bit
  by_cases hsame : other / 8 = position / 8
  · have hiff : (other % 8 = position % 8) = (other = position) := by
      apply propext
      omega
    rw [hsame, List.getD_eq_getElem?_getD, List.getElem?_set_self hbyte,
      Option.getD_some, BitVec.getLsbD_or, getLsbD_one_shiftLeft _ _ hindex,
      Bool.or_comm]
    simp only [hiff]
  · have hne : other ≠ position := by
      rintro rfl
      exact hsame rfl
    rw [List.getD_eq_getElem?_getD,
      List.getElem?_set_ne (Ne.symm hsame), ← List.getD_eq_getElem?_getD]
    simp [hne]

/-- A mask of one bit finds that bit. -/
theorem and_one_shiftLeft_ne_zero_iff (hindex : position < 8) :
    byte &&& 1#8 <<< position ≠ 0#8 ↔ byte.getLsbD position = true := by
  constructor
  · intro hne
    by_contra hfalse
    apply hne
    apply BitVec.eq_of_getLsbD_eq
    intro index hlt
    rw [BitVec.getLsbD_and, getLsbD_one_shiftLeft _ _ hlt]
    by_cases heq : index = position
    · rw [heq, Bool.eq_false_of_not_eq_true hfalse]
      simp
    · simp [heq]
  · intro htrue hzero
    have hbit := congrArg (fun bits => bits.getLsbD position) hzero
    simp [getLsbD_one_shiftLeft _ _ hindex, htrue] at hbit

theorem bit_of_forall_eq_zero (hzero : ∀ byte ∈ bytes, byte = 0#8)
    (position : ℕ) : bit bytes position = false := by
  rw [bit, List.getD_eq_getElem?_getD]
  cases hbyte : bytes[position / 8]? with
  | none => exact BitVec.getLsbD_zero
  | some byte =>
      rw [hzero byte (List.mem_of_getElem? hbyte)]
      exact BitVec.getLsbD_zero

theorem bit_cons_of_lt (hlt : position < 8) :
    bit (byte :: bytes) position = byte.getLsbD position := by
  have hdiv : position / 8 = 0 := Nat.div_eq_of_lt hlt
  have hmod : position % 8 = position := Nat.mod_eq_of_lt hlt
  rw [bit, hdiv, hmod]
  rfl

theorem bit_cons_add (position : ℕ) :
    bit (byte :: bytes) (8 + position) = bit bytes position := by
  have hdiv : (8 + position) / 8 = position / 8 + 1 := by omega
  have hmod : (8 + position) % 8 = position % 8 := by omega
  rw [bit, hdiv, hmod]
  rfl

@[simp] theorem count_nil : count [] = 0 := rfl

theorem count_cons :
    count (byte :: bytes) =
      (List.range 8).countP byte.getLsbD + count bytes := by
  have hlength : 8 * (byte :: bytes).length = 8 + 8 * bytes.length := by
    rw [List.length_cons]
    omega
  have hlow : (List.range 8).countP (bit (byte :: bytes)) =
      (List.range 8).countP byte.getLsbD := by
    apply List.countP_congr
    intro position hposition
    rw [bit_cons_of_lt (List.mem_range.mp hposition)]
  have hhigh : (bit (byte :: bytes) ∘ fun position => 8 + position) =
      bit bytes :=
    funext bit_cons_add
  rw [count, hlength, List.range_add, List.countP_append, List.countP_map,
    hlow, hhigh, count]

/-- The digits of a number below a power of two, one by one. -/
theorem countP_testBit_succ (width number : ℕ) :
    (List.range (width + 1)).countP number.testBit =
      number % 2 + (List.range width).countP (number / 2).testBit := by
  rw [List.range_succ_eq_map, List.countP_cons, List.countP_map, Nat.add_comm]
  congr 1
  · rw [Nat.testBit_zero]
    have hmod : number % 2 < 2 := Nat.mod_lt _ (by decide)
    by_cases hodd : number % 2 = 1
    · simp [hodd]
    · simp [show number % 2 = 0 by omega]
  · apply List.countP_congr
    intro index _
    rw [Function.comp_apply, Nat.testBit_succ]

/-- There are no more bits than positions below a bound on all of them. -/
theorem count_le {bound : ℕ}
    (hbelow : ∀ position, bit bytes position = true → position < bound) :
    count bytes ≤ bound := by
  have hsub : (List.range (8 * bytes.length)).filter (bit bytes) ⊆
      List.range bound := by
    intro position hmem
    exact List.mem_range.mpr (hbelow position (List.mem_filter.mp hmem).2)
  have hnodup :
      ((List.range (8 * bytes.length)).filter (bit bytes)).Nodup :=
    List.nodup_range.filter _
  have hlength := (hnodup.subperm hsub).length_le
  rw [List.length_range] at hlength
  rw [count, List.countP_eq_length_filter]
  exact hlength

end TsCommons.Foundations.Bits
