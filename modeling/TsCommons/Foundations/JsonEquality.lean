import TsCommons.Foundations.JsonRoundTrip

/-!
# Equality of JSON values up to the order of keys

Two objects have the same content if they have the same keys with values of
the same content.  Values of the same content are equal exactly when their
objects list the keys in the same order, and written as the same text exactly
when they are equal.
-/

namespace TsCommons.Foundations.Json

open InsertionMap

variable {N : Type}

mutual

/-- Equality without regard to the order of keys. -/
def SameContent : Json N → Json N → Prop
  | .null, .null => True
  | .bool value, .bool other => value = other
  | .number value, .number other => value = other
  | .string text, .string other => text = other
  | .array items, .array others => SameItems items others
  | .object fields, .object others =>
      (∀ key, key ∈ fields.map Prod.fst ↔ key ∈ others.map Prod.fst) ∧
        SameFields fields others
  | _, _ => False

def SameItems : List (Json N) → List (Json N) → Prop
  | [], [] => True
  | item :: rest, other :: others =>
      SameContent item other ∧ SameItems rest others
  | _, _ => False

/-- The keys have values of the same content among the other fields. -/
def SameFields : List (Text × Json N) → List (Text × Json N) → Prop
  | [], _ => True
  | (key, value) :: rest, others =>
      (∃ other, lookup key others = some other ∧ SameContent value other) ∧
        SameFields rest others

end

mutual

/-- Objects at the same place list their keys in the same order. -/
def SameKeyOrder : Json N → Json N → Prop
  | .array items, .array others => SameKeyOrderItems items others
  | .object fields, .object others =>
      fields.map Prod.fst = others.map Prod.fst ∧
        SameKeyOrderFields fields others
  | _, _ => True

def SameKeyOrderItems : List (Json N) → List (Json N) → Prop
  | item :: rest, other :: others =>
      SameKeyOrder item other ∧ SameKeyOrderItems rest others
  | _, _ => True

def SameKeyOrderFields :
    List (Text × Json N) → List (Text × Json N) → Prop
  | [], _ => True
  | (key, value) :: rest, others =>
      (∀ other, lookup key others = some other → SameKeyOrder value other) ∧
        SameKeyOrderFields rest others

end

variable {format : NumberFormat N}

theorem wellFormed_of_lookup {key : Text} {value : Json N}
    {fields : List (Text × Json N)} (hfields : WellFormedFields format fields)
    (hlookup : lookup key fields = some value) : WellFormed format value := by
  induction fields with
  | nil => cases hlookup
  | cons field rest ih =>
      obtain ⟨key', value'⟩ := field
      rw [WellFormedFields] at hfields
      rw [lookup] at hlookup
      split at hlookup
      · rw [← Option.some.inj hlookup]
        exact hfields.1
      · exact ih hfields.2 hlookup

theorem eq_of_forall_lookup {fields others : List (Text × Json N)}
    (hkeys : fields.map Prod.fst = others.map Prod.fst)
    (hnodup : (fields.map Prod.fst).Nodup)
    (hlookup : ∀ field ∈ fields, lookup field.1 others = some field.2) :
    fields = others := by
  induction fields generalizing others with
  | nil => exact (List.map_eq_nil_iff.mp hkeys.symm).symm
  | cons field rest ih =>
      cases others with
      | nil => cases hkeys
      | cons other others =>
          obtain ⟨key, value⟩ := field
          obtain ⟨key', value'⟩ := other
          rw [List.map_cons, List.map_cons, List.cons.injEq] at hkeys
          obtain ⟨rfl, hrest⟩ := hkeys
          have hfirst := hlookup (key, value) List.mem_cons_self
          rw [lookup, if_pos rfl, Option.some.injEq] at hfirst
          obtain ⟨hnew, hnodupRest⟩ := List.nodup_cons.mp hnodup
          rw [← ih hrest hnodupRest ?_]
          · rw [hfirst]
          · intro found hfound
            have hvalue := hlookup found (List.mem_cons_of_mem _ hfound)
            have hne : key ≠ found.1 := by
              intro heq
              exact hnew (List.mem_map.mpr ⟨found, hfound, heq.symm⟩)
            rwa [lookup, if_neg hne] at hvalue

mutual

theorem eq_of_sameContent : ∀ value other : Json N,
    WellFormed format value → WellFormed format other →
      SameContent value other → SameKeyOrder value other → value = other
  | .null, other, _, _, hsame, _ => by
      cases other <;> simp_all [SameContent]
  | .bool value, other, _, _, hsame, _ => by
      cases other <;> simp_all [SameContent]
  | .number value, other, _, _, hsame, _ => by
      cases other <;> simp_all [SameContent]
  | .string text, other, _, _, hsame, _ => by
      cases other <;> simp_all [SameContent]
  | .array items, other, hvalue, hother, hsame, horder => by
      cases other with
      | array others =>
          rw [WellFormed] at hvalue hother
          rw [SameContent] at hsame
          rw [SameKeyOrder] at horder
          rw [eq_of_sameItems items others hvalue hother hsame horder]
      | _ => simp [SameContent] at hsame
  | .object fields, other, hvalue, hother, hsame, horder => by
      cases other with
      | object others =>
          rw [WellFormed] at hvalue hother
          rw [SameContent] at hsame
          rw [SameKeyOrder] at horder
          rw [eq_of_forall_lookup horder.1 hvalue.1
            (lookup_of_sameFields fields others hvalue.2 hother.2 hsame.2
              horder.2)]
      | _ => simp [SameContent] at hsame

theorem eq_of_sameItems : ∀ items others : List (Json N),
    WellFormedItems format items → WellFormedItems format others →
      SameItems items others → SameKeyOrderItems items others →
        items = others
  | [], [], _, _, _, _ => rfl
  | [], _ :: _, _, _, hsame, _ => by simp [SameItems] at hsame
  | _ :: _, [], _, _, hsame, _ => by simp [SameItems] at hsame
  | item :: rest, other :: others, hitems, hothers, hsame, horder => by
      rw [WellFormedItems] at hitems hothers
      rw [SameItems] at hsame
      rw [SameKeyOrderItems] at horder
      rw [eq_of_sameContent item other hitems.1 hothers.1 hsame.1 horder.1,
        eq_of_sameItems rest others hitems.2 hothers.2 hsame.2 horder.2]

theorem lookup_of_sameFields : ∀ fields others : List (Text × Json N),
    WellFormedFields format fields → WellFormedFields format others →
      SameFields fields others → SameKeyOrderFields fields others →
        ∀ field ∈ fields, lookup field.1 others = some field.2
  | [], _, _, _, _, _ => List.forall_mem_nil _
  | (key, value) :: rest, others, hfields, hothers, hsame, horder => by
      rw [WellFormedFields] at hfields
      rw [SameFields] at hsame
      rw [SameKeyOrderFields] at horder
      obtain ⟨⟨other, hother, hcontent⟩, hrest⟩ := hsame
      have heq := eq_of_sameContent value other hfields.1
        (wellFormed_of_lookup hothers hother) hcontent (horder.1 other hother)
      intro field hfield
      rcases List.mem_cons.mp hfield with rfl | hlater
      · rw [hother, heq]
      · exact lookup_of_sameFields rest others hfields.2 hothers hrest
          horder.2 field hlater

end

mutual

theorem same_refl : ∀ value : Json N, WellFormed format value →
    SameContent value value ∧ SameKeyOrder value value
  | .null, _ => by simp [SameContent, SameKeyOrder]
  | .bool _, _ => by simp [SameContent, SameKeyOrder]
  | .number _, _ => by simp [SameContent, SameKeyOrder]
  | .string _, _ => by simp [SameContent, SameKeyOrder]
  | .array items, hvalue => by
      rw [WellFormed] at hvalue
      rw [SameContent, SameKeyOrder]
      exact sameItems_refl items hvalue
  | .object fields, hvalue => by
      rw [WellFormed] at hvalue
      rw [SameContent, SameKeyOrder]
      obtain ⟨hcontent, horder⟩ := sameFields_of_lookup fields fields hvalue.2
        fun field hfield => (lookup_eq_some_iff hvalue.1).mpr hfield
      exact ⟨⟨fun _ => Iff.rfl, hcontent⟩, rfl, horder⟩

theorem sameItems_refl : ∀ items : List (Json N),
    WellFormedItems format items →
      SameItems items items ∧ SameKeyOrderItems items items
  | [], _ => by simp [SameItems, SameKeyOrderItems]
  | item :: rest, hitems => by
      rw [WellFormedItems] at hitems
      rw [SameItems, SameKeyOrderItems]
      obtain ⟨hcontent, horder⟩ := same_refl item hitems.1
      obtain ⟨hrest, hrestOrder⟩ := sameItems_refl rest hitems.2
      exact ⟨⟨hcontent, hrest⟩, horder, hrestOrder⟩

theorem sameFields_of_lookup : ∀ fields others : List (Text × Json N),
    WellFormedFields format fields →
      (∀ field ∈ fields, lookup field.1 others = some field.2) →
        SameFields fields others ∧ SameKeyOrderFields fields others
  | [], _, _, _ => by simp [SameFields, SameKeyOrderFields]
  | (key, value) :: rest, others, hfields, hlookup => by
      rw [WellFormedFields] at hfields
      rw [SameFields, SameKeyOrderFields]
      obtain ⟨hfirst, hlater⟩ := List.forall_mem_cons.mp hlookup
      obtain ⟨hcontent, horder⟩ := same_refl value hfields.1
      obtain ⟨hrest, hrestOrder⟩ :=
        sameFields_of_lookup rest others hfields.2 hlater
      refine ⟨⟨⟨value, hfirst, hcontent⟩, hrest⟩, ?_, hrestOrder⟩
      intro other hother
      rw [hfirst, Option.some.injEq] at hother
      rw [← hother]
      exact horder

end

variable {value other : Json N}

/-- Equal are the values with the same content and the same order of keys. -/
theorem eq_iff_sameContent (hvalue : WellFormed format value)
    (hother : WellFormed format other) :
    value = other ↔ SameContent value other ∧ SameKeyOrder value other := by
  constructor
  · rintro rfl
    exact same_refl value hvalue
  · rintro ⟨hcontent, horder⟩
    exact eq_of_sameContent value other hvalue hother hcontent horder

/-- Different values are written differently. -/
theorem stringify_injective (hvalue : WellFormed format value)
    (hother : WellFormed format other)
    (htext : stringify format value = stringify format other) :
    value = other := by
  have hparse := parse_stringify hvalue
  rw [htext, parse_stringify hother, Option.some.injEq] at hparse
  exact hparse.symm

end TsCommons.Foundations.Json
