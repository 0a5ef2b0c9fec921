import TsCommons.Foundations.Base64
import TsCommons.Foundations.Bits
import TsCommons.Foundations.Doubles
import TsCommons.Foundations.Since
import Mathlib.Data.Set.Insert

/-!
# The Bloom filter

An item is added by setting the bits of its positions, one for each hash
function.  The bits that are set are those of the items that were added since
the last `clear`, so none of these items is missed.
-/

namespace TsCommons.Cache

open Foundations

structure BloomFilter where
  bitSize : ℕ
  numHashes : ℕ
  bits : List (BitVec 8)
  itemCount : ℕ
  length_bits : bits.length = (bitSize + 7) / 8

namespace BloomFilter

def create (bitSize : ℕ := 1024) (hashCount : ℕ := 3) : BloomFilter where
  bitSize := bitSize
  numHashes := hashCount
  bits := List.replicate ((bitSize + 7) / 8) 0
  itemCount := 0
  length_bits := List.length_replicate

/-- The code units are mixed in as 32-bit integers; a text without any leaves
the number that the seed gives. -/
def hash (item : CodeUnits) (seed : ℕ) : ℕ :=
  let mix := fun (h : ℤ) (unit : UInt16) =>
    let h := (BitVec.ofInt 32 h ^^^ unit.toBitVec.setWidth 32) * 2246822519#32
    (h ^^^ h >>> 13).toInt
  (item.foldl mix (toDouble ((seed + 1) * 2654435761))).natAbs

theorem hash_nil {seed : ℕ} (hexact : (seed + 1) * 2654435761 < 2 ^ 53) :
    hash [] seed = (seed + 1) * 2654435761 := by
  rw [hash, List.foldl_nil, toDouble_of_lt hexact]
  rfl

def setBit (filter : BloomFilter) (position : ℕ) : BloomFilter :=
  let byteIndex := position / 8
  let bitMask := 1#8 <<< (position % 8)
  let current := filter.bits.getD byteIndex 0
  { filter with
    bits := filter.bits.set byteIndex (current ||| bitMask)
    length_bits := by rw [List.length_set, filter.length_bits] }

def getBit (filter : BloomFilter) (position : ℕ) : Bool :=
  let byteIndex := position / 8
  let bitMask := 1#8 <<< (position % 8)
  filter.bits.getD byteIndex 0 &&& bitMask ≠ 0

/-- `pos` of `add` and `mightContain`. -/
def pos (filter : BloomFilter) (item : CodeUnits) (i : ℕ) : ℕ :=
  hash item i % filter.bitSize

def add (filter : BloomFilter) (item : CodeUnits) : BloomFilter :=
  let marked := (List.range filter.numHashes).foldl
    (fun marked i => marked.setBit (marked.pos item i)) filter
  { marked with itemCount := marked.itemCount + 1 }

def mightContain (filter : BloomFilter) (item : CodeUnits) : Bool :=
  (List.range filter.numHashes).all fun i => filter.getBit (filter.pos item i)

def clear (filter : BloomFilter) : BloomFilter :=
  { filter with
    bits := filter.bits.map fun _ => 0
    itemCount := 0
    length_bits := by rw [List.length_map, filter.length_bits] }

def getItemCount (filter : BloomFilter) : ℕ := filter.itemCount

def popcount (byte : ℕ) : ℕ :=
  if byte = 0 then 0 else byte % 2 + popcount (byte / 2)

def countBitsSet (filter : BloomFilter) : ℕ :=
  (filter.bits.map fun byte => popcount byte.toNat).sum

/-! ## The positions that are marked -/

variable {filter : BloomFilter} {item : CodeUnits} {position : ℕ}

/-- The positions of an item, one for each hash function. -/
def positions (filter : BloomFilter) (item : CodeUnits) : Set ℕ :=
  {position | ∃ i < filter.numHashes, position = filter.pos item i}

/-- The positions whose bits are set. -/
def marks (filter : BloomFilter) : Set ℕ := Bits.members filter.bits

theorem getBit_eq_true_iff :
    filter.getBit position = true ↔ position ∈ filter.marks := by
  rw [getBit, decide_eq_true_iff]
  exact Bits.and_one_shiftLeft_ne_zero_iff (Nat.mod_lt position (by decide))

theorem marks_setBit (hposition : position < filter.bitSize) :
    (filter.setBit position).marks = insert position filter.marks := by
  have hbyte : position / 8 < filter.bits.length := by
    rw [filter.length_bits]
    omega
  ext other
  simp only [marks, Bits.members, setBit, Set.mem_ofPred_eq, Set.mem_insert_iff,
    Bits.bit_set_or hbyte, Bool.or_eq_true, decide_eq_true_iff]

theorem pos_lt (hsize : 1 ≤ filter.bitSize) (item : CodeUnits) (i : ℕ) :
    filter.pos item i < filter.bitSize :=
  Nat.mod_lt _ hsize

/-- The first hash functions of an item mark its first positions. -/
theorem foldl_setBit (hsize : 1 ≤ filter.bitSize) (item : CodeUnits)
    (indices : List ℕ) :
    let marked := indices.foldl
      (fun marked i => marked.setBit (marked.pos item i)) filter
    marked.bitSize = filter.bitSize ∧ marked.numHashes = filter.numHashes ∧
      marked.marks =
        filter.marks ∪ {position | ∃ i ∈ indices,
          position = filter.pos item i} := by
  induction indices generalizing filter with
  | nil => simp
  | cons i rest ih =>
      have hnext : (filter.setBit (filter.pos item i)).bitSize =
          filter.bitSize := rfl
      obtain ⟨hbitSize, hnumHashes, hmarks⟩ := ih (by rw [hnext]; exact hsize)
      refine ⟨hbitSize, hnumHashes, ?_⟩
      rw [List.foldl_cons, hmarks, marks_setBit (pos_lt hsize item i)]
      have hpos : ∀ index,
          (filter.setBit (filter.pos item i)).pos item index =
            filter.pos item index := fun _ => rfl
      ext position
      simp only [hpos, Set.mem_union, Set.mem_insert_iff, Set.mem_ofPred_eq,
        List.mem_cons, exists_eq_or_imp]
      rw [← or_assoc, or_comm (a := position = filter.pos item i)]

theorem bitSize_add (hsize : 1 ≤ filter.bitSize) (item : CodeUnits) :
    (filter.add item).bitSize = filter.bitSize :=
  (foldl_setBit hsize item _).1

theorem numHashes_add (hsize : 1 ≤ filter.bitSize) (item : CodeUnits) :
    (filter.add item).numHashes = filter.numHashes :=
  (foldl_setBit hsize item _).2.1

theorem marks_add (hsize : 1 ≤ filter.bitSize) (item : CodeUnits) :
    (filter.add item).marks = filter.marks ∪ filter.positions item := by
  have hmarks := (foldl_setBit hsize item (List.range filter.numHashes)).2.2
  simp only [List.mem_range] at hmarks
  exact hmarks

theorem marks_clear (filter : BloomFilter) : filter.clear.marks = ∅ := by
  ext position
  have hzero : Bits.bit filter.clear.bits position = false :=
    Bits.bit_of_forall_eq_zero (by simp [clear]) position
  simp [marks, Bits.members, hzero]

theorem marks_create (bitSize hashCount : ℕ) :
    (create bitSize hashCount).marks = ∅ := by
  ext position
  have hzero : Bits.bit (create bitSize hashCount).bits position = false :=
    Bits.bit_of_forall_eq_zero (by simp [create]) position
  simp [marks, Bits.members, hzero]

/-- An item might be there if and only if all of its positions are marked. -/
theorem mightContain_eq_true_iff :
    filter.mightContain item = true ↔
      filter.positions item ⊆ filter.marks := by
  simp only [mightContain, List.all_eq_true, List.mem_range,
    getBit_eq_true_iff]
  constructor
  · rintro hall position ⟨i, hi, rfl⟩
    exact hall i hi
  · intro hsub i hi
    exact hsub ⟨i, hi, rfl⟩

/-! ## The number of bits -/

theorem popcount_eq_countP (width : ℕ) {byte : ℕ} (hwidth : byte < 2 ^ width) :
    popcount byte = (List.range width).countP byte.testBit := by
  induction width generalizing byte with
  | zero =>
      have hzero : byte = 0 := by simpa using hwidth
      rw [hzero, popcount]
      rfl
  | succ width ih =>
      have hhalf : byte / 2 < 2 ^ width := by
        rw [Nat.pow_succ] at hwidth
        omega
      rw [popcount, Bits.countP_testBit_succ, ← ih hhalf]
      split
      · rename_i hzero
        subst hzero
        rw [popcount]
        rfl
      · rfl

theorem sum_popcount (bytes : List (BitVec 8)) :
    (bytes.map fun byte => popcount byte.toNat).sum = Bits.count bytes := by
  induction bytes with
  | nil => rfl
  | cons byte rest ih =>
      rw [List.map_cons, List.sum_cons, ih, Bits.count_cons,
        popcount_eq_countP 8 byte.isLt]
      rfl

theorem countBitsSet_le
    (hbelow : ∀ position ∈ filter.marks, position < filter.bitSize) :
    filter.countBitsSet ≤ filter.bitSize := by
  rw [countBitsSet, sum_popcount]
  exact Bits.count_le hbelow

/-! ## Sequences of calls -/

inductive Call
  | add (item : CodeUnits)
  | clear
deriving DecidableEq

def step (filter : BloomFilter) : Call → BloomFilter
  | .add item => filter.add item
  | .clear => filter.clear

def run (bitSize hashCount : ℕ) (calls : List Call) : BloomFilter :=
  calls.foldl step (create bitSize hashCount)

/-- The item has been added, and the filter has not been cleared since. -/
def Added (item : CodeUnits) (calls : List Call) : Prop :=
  Since (fun _ call => call = .add item) (fun call => call = .clear) calls

/-- What is marked after a sequence of calls are the positions of the items
that were added since the last `clear`. -/
theorem marks_run {bitSize : ℕ} (hsize : 1 ≤ bitSize) (hashCount : ℕ)
    (calls : List Call) :
    (run bitSize hashCount calls).bitSize = bitSize ∧
      (run bitSize hashCount calls).numHashes = hashCount ∧
      (run bitSize hashCount calls).marks =
        {position | ∃ item, Added item calls ∧
          ∃ i < hashCount, position = hash item i % bitSize} := by
  induction calls using List.reverseRecOn with
  | nil =>
      refine ⟨rfl, rfl, ?_⟩
      rw [run, List.foldl_nil, marks_create]
      simp [Added]
  | append_singleton calls call ih =>
      obtain ⟨hbitSize, hnumHashes, hmarks⟩ := ih
      have hrun : run bitSize hashCount (calls ++ [call]) =
          step (run bitSize hashCount calls) call := by
        rw [run, List.foldl_concat, run]
      rw [hrun]
      have hpositive : 1 ≤ (run bitSize hashCount calls).bitSize := by
        rw [hbitSize]
        exact hsize
      cases call with
      | add item =>
          refine ⟨(bitSize_add hpositive item).trans hbitSize,
            (numHashes_add hpositive item).trans hnumHashes, ?_⟩
          rw [step, marks_add hpositive, hmarks]
          ext position
          simp only [positions, pos, hbitSize, hnumHashes, Set.mem_union,
            Set.mem_ofPred_eq, Added, since_concat_iff]
          constructor
          · rintro (⟨old, hadded, hold⟩ | hnew)
            · exact ⟨old, .inr ⟨hadded, by simp⟩, hold⟩
            · exact ⟨item, .inl rfl, hnew⟩
          · rintro ⟨other, hnew | ⟨hadded, -⟩, hposition⟩
            · cases hnew
              exact .inr hposition
            · exact .inl ⟨other, hadded, hposition⟩
      | clear =>
          refine ⟨hbitSize, hnumHashes, ?_⟩
          rw [step, marks_clear]
          ext position
          simp [Added, since_concat_iff]

theorem no_false_negatives (bitSize hashCount : ℕ) (hsize : 1 ≤ bitSize)
    (calls : List Call) :
    (∀ item, Added item calls →
      (run bitSize hashCount calls).mightContain item = true) ∧
    (∀ item i, (run bitSize hashCount calls).pos item i < bitSize) ∧
    (run bitSize hashCount calls).countBitsSet ≤ bitSize := by
  obtain ⟨hbitSize, hnumHashes, hmarks⟩ := marks_run hsize hashCount calls
  refine ⟨fun item hadded => ?_, fun item i => ?_, ?_⟩
  · rw [mightContain_eq_true_iff, hmarks]
    rintro position ⟨i, hi, rfl⟩
    rw [pos, hbitSize]
    exact ⟨item, hadded, i, hnumHashes ▸ hi, rfl⟩
  · rw [pos, hbitSize]
    exact Nat.mod_lt _ hsize
  · have hbelow : ∀ position ∈ (run bitSize hashCount calls).marks,
        position < (run bitSize hashCount calls).bitSize := by
      rw [hmarks, hbitSize]
      rintro position ⟨item, -, i, -, rfl⟩
      exact Nat.mod_lt _ hsize
    exact (countBitsSet_le hbelow).trans (Nat.le_of_eq hbitSize)

def someCalls : List Call :=
  [.add [97], .clear, .add [], .add [0xD800, 98]]

theorem no_false_negatives_sample :
    (run 13 3 someCalls).mightContain [] = true ∧
      (run 13 3 someCalls).mightContain [0xD800, 98] = true ∧
      (run 13 3 someCalls).pos [97] 2 < 13 ∧
      (run 13 3 someCalls).countBitsSet ≤ 13 := by
  obtain ⟨hcontains, hpos, hcount⟩ :=
    no_false_negatives 13 3 (by decide) someCalls
  refine ⟨hcontains [] ?_, hcontains [0xD800, 98] ?_, hpos [97] 2, hcount⟩
  · exact ⟨[.add [97], .clear], .add [], [.add [0xD800, 98]], rfl, rfl,
      by decide⟩
  · exact ⟨[.add [97], .clear, .add []], .add [0xD800, 98], [], rfl, rfl,
      by decide⟩

end BloomFilter

end TsCommons.Cache
