import Mathlib.Computability.Language

/-!
# Concatenations of languages

A word is in the product of a list of languages if it can be cut into
consecutive pieces, one of each language.
-/

namespace TsCommons.Foundations

variable {α : Type*} {language : Language α} {word : List α}

theorem mem_prod_iff_flatten {languages : List (Language α)} :
    word ∈ languages.prod ↔
      ∃ pieces : List (List α), word = pieces.flatten ∧
        List.Forall₂ (fun language piece => piece ∈ language) languages
          pieces := by
  induction languages generalizing word with
  | nil => simp [Language.mem_one]
  | cons first rest ih =>
      rw [List.prod_cons, Language.mem_mul]
      constructor
      · rintro ⟨piece, hpiece, later, hlater, rfl⟩
        obtain ⟨pieces, rfl, hpieces⟩ := ih.mp hlater
        exact ⟨piece :: pieces, List.flatten_cons.symm, .cons hpiece hpieces⟩
      · rintro ⟨pieces, rfl, hpieces⟩
        obtain ⟨piece, later, hpiece, hlater, rfl⟩ :=
          List.forall₂_cons_left_iff.mp hpieces
        exact ⟨piece, hpiece, later.flatten, ih.mpr ⟨later, rfl, hlater⟩,
          List.flatten_cons.symm⟩

/-- Any number of letters may stand before a word of the language. -/
theorem mem_top_mul_iff :
    word ∈ ⊤ * language ↔
      ∃ count ≤ word.length, word.drop count ∈ language := by
  rw [Language.mem_mul]
  constructor
  · rintro ⟨piece, -, later, hlater, rfl⟩
    refine ⟨piece.length, by simp, ?_⟩
    rw [List.drop_left]
    exact hlater
  · rintro ⟨count, -, hdrop⟩
    exact ⟨word.take count, trivial, word.drop count, hdrop,
      List.take_append_drop count word⟩

/-- The words of one letter of a kind. -/
def letter (kind : α → Prop) : Language α :=
  {word | ∃ symbol, kind symbol ∧ word = [symbol]}

variable {kind : α → Prop} {symbol : α}

theorem nil_notMem_letter_mul : [] ∉ letter kind * language := by
  rw [Language.mem_mul]
  rintro ⟨_, ⟨symbol, -, rfl⟩, later, -, hnil⟩
  cases hnil

theorem cons_mem_letter_mul_iff :
    symbol :: word ∈ letter kind * language ↔
      kind symbol ∧ word ∈ language := by
  rw [Language.mem_mul]
  constructor
  · rintro ⟨_, ⟨first, hfirst, rfl⟩, later, hlater, hcons⟩
    obtain ⟨rfl, rfl⟩ := List.cons.inj hcons
    exact ⟨hfirst, hlater⟩
  · rintro ⟨hsymbol, hword⟩
    exact ⟨[symbol], ⟨symbol, hsymbol, rfl⟩, word, hword, rfl⟩

end TsCommons.Foundations
