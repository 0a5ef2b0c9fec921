import TsCommons.Hotreload.Glob
import Mathlib.Data.Set.Basic

/-!
# The language of an expression

An expression stands for a set of texts.  Where no repeated class takes a
character, the texts have a bounded number of it, and every expression has a
shortest text.
-/

namespace TsCommons.Hotreload

open Foundations

theorem CharClass.exists_accepts (chars : CharClass) :
    ∃ char, chars.accepts char = true := by
  cases chars with
  | only char => exact ⟨char, by simp [accepts]⟩
  | any => exact ⟨'a', by decide⟩
  | except char =>
      by_cases ha : char = 'a'
      · exact ⟨'b', by simp [accepts, ha]⟩
      · exact ⟨'a', by simpa [accepts] using Ne.symm ha⟩

namespace Regex

def language : Regex → Set Text
  | empty => {text | text = []}
  | one chars => {text | ∃ char, text = [char] ∧ chars.accepts char = true}
  | many chars => {text | ∀ char ∈ text, chars.accepts char = true}
  | optional regex => {text | text = [] ∨ text ∈ regex.language}
  | append first second =>
      {text | ∃ front back, text = front ++ back ∧ front ∈ first.language ∧
        back ∈ second.language}

variable {regex first second : Regex} {chars : CharClass} {text rest : Text}
  {char : Char}

theorem mem_manyRests :
    rest ∈ manyRests chars text ↔ ∃ front, text = front ++ rest ∧
      ∀ char ∈ front, chars.accepts char = true := by
  induction text with
  | nil =>
      rw [manyRests, List.mem_singleton]
      constructor
      · rintro rfl
        exact ⟨[], rfl, List.forall_mem_nil _⟩
      · rintro ⟨front, heq, -⟩
        exact (List.append_eq_nil_iff.mp heq.symm).2
  | cons char text ih =>
      rw [manyRests, List.mem_cons]
      constructor
      · rintro (rfl | hrest)
        · exact ⟨[], rfl, List.forall_mem_nil _⟩
        · split at hrest
          · rename_i haccepts
            obtain ⟨front, heq, hall⟩ := ih.mp hrest
            refine ⟨char :: front, congrArg (char :: ·) heq, ?_⟩
            exact List.forall_mem_cons.mpr ⟨haccepts, hall⟩
          · exact absurd hrest List.not_mem_nil
      · rintro ⟨front, heq, hall⟩
        cases front with
        | nil => exact Or.inl heq.symm
        | cons other front =>
            obtain ⟨rfl, hrest⟩ := List.cons.inj heq
            obtain ⟨haccepts, hall⟩ := List.forall_mem_cons.mp hall
            rw [if_pos haccepts]
            exact Or.inr (ih.mpr ⟨front, hrest, hall⟩)

theorem mem_rests :
    rest ∈ regex.rests text ↔
      ∃ front ∈ regex.language, text = front ++ rest := by
  induction regex generalizing text rest with
  | empty =>
      rw [rests, List.mem_singleton]
      constructor
      · rintro rfl
        exact ⟨[], rfl, rfl⟩
      · rintro ⟨front, rfl, heq⟩
        exact heq.symm
  | one chars =>
      cases text with
      | nil => simp [rests, language]
      | cons char text =>
          by_cases haccepts : chars.accepts char = true
          · simp only [rests, haccepts, if_true, List.mem_singleton, language]
            constructor
            · rintro rfl
              exact ⟨[char], ⟨char, rfl, haccepts⟩, rfl⟩
            · rintro ⟨front, ⟨other, rfl, -⟩, heq⟩
              exact (List.cons.inj heq).2.symm
          · simp only [rests, if_neg haccepts, List.not_mem_nil, language,
              false_iff]
            rintro ⟨front, ⟨other, rfl, haccepts'⟩, heq⟩
            rw [← (List.cons.inj heq).1] at haccepts'
            exact haccepts haccepts'
  | many chars =>
      rw [rests, mem_manyRests]
      constructor
      · rintro ⟨front, heq, hall⟩
        exact ⟨front, hall, heq⟩
      · rintro ⟨front, hall, heq⟩
        exact ⟨front, heq, hall⟩
  | optional regex ih =>
      rw [rests, List.mem_cons, ih]
      constructor
      · rintro (rfl | ⟨front, hfront, heq⟩)
        · exact ⟨[], Or.inl rfl, rfl⟩
        · exact ⟨front, Or.inr hfront, heq⟩
      · rintro ⟨front, rfl | hfront, heq⟩
        · exact Or.inl heq.symm
        · exact Or.inr ⟨front, hfront, heq⟩
  | append first second ih ih' =>
      rw [rests, List.mem_flatMap]
      constructor
      · rintro ⟨middle, hmiddle, hrest⟩
        obtain ⟨front, hfront, rfl⟩ := ih.mp hmiddle
        obtain ⟨back, hback, rfl⟩ := ih'.mp hrest
        exact ⟨front ++ back, ⟨front, back, rfl, hfront, hback⟩,
          (List.append_assoc _ _ _).symm⟩
      · rintro ⟨-, ⟨front, back, rfl, hfront, hback⟩, rfl⟩
        exact ⟨back ++ rest,
          ih.mpr ⟨front, hfront, List.append_assoc _ _ _⟩,
          ih'.mpr ⟨back, hback, rfl⟩⟩

theorem test_iff : regex.test text = true ↔ text ∈ regex.language := by
  rw [test, decide_eq_true_iff, mem_rests]
  simp

/-! ## Bounds -/

/-- No repeated class takes the character. -/
def Avoids (char : Char) : Regex → Prop
  | empty => True
  | one _ => True
  | many chars => chars.accepts char = false
  | optional regex => regex.Avoids char
  | append first second => first.Avoids char ∧ second.Avoids char

/-- The number of classes that are not repeated. -/
def singles : Regex → ℕ
  | empty => 0
  | one _ => 1
  | many _ => 0
  | optional regex => regex.singles
  | append first second => first.singles + second.singles

theorem count_le_singles (havoids : regex.Avoids char)
    (hmem : text ∈ regex.language) : text.count char ≤ regex.singles := by
  induction regex generalizing text with
  | empty =>
      rw [show text = [] from hmem]
      exact le_rfl
  | one chars =>
      obtain ⟨other, rfl, -⟩ := hmem
      exact List.count_le_length
  | many chars =>
      have hnone : char ∉ text := by
        intro hchar
        have haccepts := hmem char hchar
        rw [havoids] at haccepts
        cases haccepts
      rw [List.count_eq_zero_of_not_mem hnone]
      exact le_rfl
  | optional regex ih =>
      rcases hmem with rfl | hmem
      · exact Nat.zero_le _
      · exact ih havoids hmem
  | append first second ih ih' =>
      obtain ⟨front, back, rfl, hfront, hback⟩ := hmem
      rw [List.count_append]
      exact Nat.add_le_add (ih havoids.1 hfront) (ih' havoids.2 hback)

def shortest : Regex → ℕ
  | empty => 0
  | one _ => 1
  | many _ => 0
  | optional _ => 0
  | append first second => first.shortest + second.shortest

theorem exists_shortest (regex : Regex) :
    ∃ text ∈ regex.language, text.length = regex.shortest := by
  induction regex with
  | empty => exact ⟨[], rfl, rfl⟩
  | one chars =>
      obtain ⟨char, haccepts⟩ := chars.exists_accepts
      exact ⟨[char], ⟨char, rfl, haccepts⟩, rfl⟩
  | many chars => exact ⟨[], List.forall_mem_nil _, rfl⟩
  | optional regex => exact ⟨[], Or.inl rfl, rfl⟩
  | append first second ih ih' =>
      obtain ⟨front, hfront, hlength⟩ := ih
      obtain ⟨back, hback, hlength'⟩ := ih'
      refine ⟨front ++ back, ⟨front, back, rfl, hfront, hback⟩, ?_⟩
      rw [List.length_append, hlength, hlength', shortest]

end Regex

end TsCommons.Hotreload
