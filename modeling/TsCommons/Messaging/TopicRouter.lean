import TsCommons.Foundations.Concatenation
import TsCommons.Foundations.Text

/-!
# The topic router

A topic is matched against a pattern segment by segment, with backtracking at
a `#`.  A pattern denotes the product of the languages of its segments, which
are the topics that it matches.
-/

namespace TsCommons.Messaging

open Foundations

namespace TopicRouter

/-- The indices are at most the lengths. -/
def matchParts (pattern topic : List Text) (pi ti : ℕ) : Bool :=
  match _ : pattern[pi]? with
  | none => ti = topic.length
  | some seg =>
      if seg = ['#'] then
        (List.range' ti (topic.length + 1 - ti)).any fun j =>
          matchParts pattern topic (pi + 1) j
      else
        match topic[ti]? with
        | none => false
        | some part =>
            if seg = ['*'] then matchParts pattern topic (pi + 1) (ti + 1)
            else if seg ≠ part then false
            else matchParts pattern topic (pi + 1) (ti + 1)
termination_by pattern.length - pi
decreasing_by
  all_goals
    have hlt : pi < pattern.length := (List.getElem?_eq_some_iff.mp ‹_›).1
    omega

def «matches» (pattern topic : Text) : Bool :=
  matchParts (pattern.splitOn '.') (topic.splitOn '.') 0 0

/-! ## The pattern language -/

/-- What a segment of a pattern takes of a topic. -/
def Takes (seg : Text) (piece : List Text) : Prop :=
  if seg = ['#'] then True
  else if seg = ['*'] then piece.length = 1
  else piece = [seg]

def language (seg : Text) : Language Text := {piece | Takes seg piece}

variable {pattern topic : List Text} {seg : Text} {pi ti : ℕ}

theorem language_hash : language ['#'] = ⊤ := by
  apply Language.ext
  intro piece
  exact iff_of_true trivial trivial

theorem language_of_ne (hseg : seg ≠ ['#']) :
    language seg = letter fun part => seg = ['*'] ∨ seg = part := by
  apply Language.ext
  intro piece
  change Takes seg piece ↔
    ∃ part, (seg = ['*'] ∨ seg = part) ∧ piece = [part]
  rw [Takes, if_neg hseg]
  by_cases hstar : seg = ['*']
  · simp [hstar, List.length_eq_one_iff]
  · simp [hstar]

theorem mem_drop_range'_iff {P : ℕ → Prop} {start stop : ℕ}
    (hle : start ≤ stop) :
    (∃ index ∈ List.range' start (stop + 1 - start), P index) ↔
      ∃ count ≤ stop - start, P (start + count) := by
  constructor
  · rintro ⟨index, hindex, hP⟩
    rw [List.mem_range'_1] at hindex
    refine ⟨index - start, by omega, ?_⟩
    rw [Nat.add_sub_cancel' hindex.1]
    exact hP
  · rintro ⟨count, hcount, hP⟩
    exact ⟨start + count, List.mem_range'_1.mpr (by omega), hP⟩

theorem matchParts_of_end (hend : pattern[pi]? = none) :
    matchParts pattern topic pi ti = decide (ti = topic.length) := by
  rw [matchParts]
  split
  · rfl
  · simp_all

theorem matchParts_hash (hseg : pattern[pi]? = some ['#']) :
    matchParts pattern topic pi ti =
      (List.range' ti (topic.length + 1 - ti)).any
        (matchParts pattern topic (pi + 1)) := by
  rw [matchParts]
  split
  · simp_all
  · simp_all

theorem matchParts_of_ne (hseg : pattern[pi]? = some seg)
    (hne : seg ≠ ['#']) :
    matchParts pattern topic pi ti =
      match topic[ti]? with
      | none => false
      | some part =>
          decide (seg = ['*'] ∨ seg = part) &&
            matchParts pattern topic (pi + 1) (ti + 1) := by
  rw [matchParts]
  split
  · simp_all
  · rename_i seg' hseg'
    obtain rfl : seg = seg' := Option.some.inj (hseg.symm.trans hseg')
    rw [if_neg hne]
    cases topic[ti]? with
    | none => rfl
    | some part =>
        by_cases hstar : seg = ['*']
        · simp [hstar]
        · by_cases hpart : seg = part
          · simp [hpart]
          · simp [hstar, hpart]

/-- From any two indices, the rest of the topic is matched against the rest of
the pattern. -/
theorem matchParts_iff_mem (hti : ti ≤ topic.length) :
    matchParts pattern topic pi ti = true ↔
      topic.drop ti ∈ ((pattern.drop pi).map language).prod := by
  induction hrest : pattern.drop pi generalizing pi ti with
  | nil =>
      have hend : pattern[pi]? = none :=
        List.getElem?_eq_none (List.drop_eq_nil_iff.mp hrest)
      rw [matchParts_of_end hend, decide_eq_true_iff, List.map_nil,
        List.prod_nil, Language.mem_one, List.drop_eq_nil_iff]
      omega
  | cons seg rest ih =>
      have hseg : pattern[pi]? = some seg := by
        rw [← List.head?_drop, hrest, List.head?_cons]
      have hlater : pattern.drop (pi + 1) = rest := by
        rw [← List.tail_drop, hrest, List.tail_cons]
      rw [List.map_cons, List.prod_cons]
      by_cases hhash : seg = ['#']
      · subst hhash
        rw [matchParts_hash hseg, List.any_eq_true, mem_drop_range'_iff hti,
          language_hash, mem_top_mul_iff, List.length_drop]
        apply exists_congr
        intro count
        apply and_congr_right
        intro hcount
        rw [ih (by omega) hlater, List.drop_drop]
      · rw [matchParts_of_ne hseg hhash, language_of_ne hhash]
        rcases hti.lt_or_eq with hlt | rfl
        · have hpart : topic[ti]? = some topic[ti] :=
            List.getElem?_eq_getElem hlt
          rw [List.drop_eq_getElem_cons hlt, cons_mem_letter_mul_iff, hpart,
            Bool.and_eq_true, decide_eq_true_iff, ih (by omega) hlater]
        · rw [List.getElem?_eq_none le_rfl, List.drop_length]
          exact iff_of_false Bool.false_ne_true nil_notMem_letter_mul

/-- The topics of a pattern are those of its language. -/
theorem matches_iff_mem (pattern topic : Text) :
    «matches» pattern topic = true ↔
      topic.splitOn '.' ∈ ((pattern.splitOn '.').map language).prod := by
  rw [«matches», matchParts_iff_mem (Nat.zero_le _), List.drop_zero,
    List.drop_zero]

theorem matchParts_iff_pieces (pattern topic : List Text) :
    matchParts pattern topic 0 0 = true ↔
      ∃ pieces : List (List Text), topic = pieces.flatten ∧
        List.Forall₂ Takes pattern pieces := by
  rw [matchParts_iff_mem (Nat.zero_le _), List.drop_zero, List.drop_zero,
    mem_prod_iff_flatten]
  apply exists_congr
  intro pieces
  rw [List.forall₂_map_left_iff]
  exact Iff.rfl

end TopicRouter

end TsCommons.Messaging
