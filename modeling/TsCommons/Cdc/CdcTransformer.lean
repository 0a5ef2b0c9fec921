import TsCommons.Cdc.EventNormalizer

/-!
# The transformer of change events

The fields of both images are renamed, then masked, then dropped.  A payload
lists its fields in the order of `Object.entries`, and the fields are masked
and dropped under the names to which they were mapped.
-/

namespace TsCommons.Cdc

open Foundations

/-- The value of a field. -/
inductive Value (O : Type)
  | text (content : String)
  | other (content : O)
deriving DecidableEq

structure TransformOptions where
  fieldMappings : Option (InsertionMap String String)
  maskFields : Option (List String)
  dropFields : Option (List String)

variable {O : Type}

def masked : Value O := .text "***"

def functionText (name : String) : String :=
  "function " ++ name ++ "() { [native code] }"

/-- What an object without the property finds on `Object.prototype`, as a
property key. -/
def inherited (key : String) : Option String :=
  if key = "__proto__" then some "[object Object]"
  else if key = "constructor" then some (functionText "Object")
  else if key ∈ ["__defineGetter__", "__defineSetter__", "hasOwnProperty",
      "__lookupGetter__", "__lookupSetter__", "isPrototypeOf",
      "propertyIsEnumerable", "toString", "valueOf", "toLocaleString"] then
    some (functionText key)
  else none

/-- `mappings[key] ?? key`. -/
def newKey (mappings : InsertionMap String String) (key : String) : String :=
  ((mappings.get key).or (inherited key)).getD key

/-- An assignment to a property of an object that started as `{}`, where
`__proto__` is not made a property. -/
def assign (result : Payload (Value O)) (key : String) (value : Value O) :
    Payload (Value O) :=
  if key = "__proto__" then result else result.set key value

def applyMappings (payload : Payload (Value O)) :
    Option (InsertionMap String String) → Payload (Value O)
  | none => payload
  | some mappings =>
      payload.entries.foldl
        (fun result entry =>
          assign result (newKey mappings entry.1) entry.2) .empty

def applyMasking (payload : Payload (Value O)) :
    Option (List String) → Payload (Value O)
  | none => payload
  | some fields =>
      if fields.length = 0 then payload
      else
        fields.foldl
          (fun result field =>
            if (result.get field).isSome then result.set field masked
            else result) payload

def applyDrops (payload : Payload (Value O)) :
    Option (List String) → Payload (Value O)
  | none => payload
  | some fields =>
      if fields.length = 0 then payload
      else fields.foldl InsertionMap.delete payload

def transformPayload (options : TransformOptions)
    (payload : Payload (Value O)) : Payload (Value O) :=
  applyDrops
    (applyMasking (applyMappings payload options.fieldMappings)
      options.maskFields)
    options.dropFields

def transform (options : TransformOptions) (event : CdcEvent (Value O)) :
    CdcEvent (Value O) :=
  { event with
    before := event.before.map (transformPayload options)
    after := event.after.map (transformPayload options) }

/-! ## What the options say of a field -/

namespace TransformOptions

variable (options : TransformOptions) (field : String)

/-- The name under which the field is found after the mappings. -/
def mappedName : String :=
  match options.fieldMappings with
  | none => field
  | some mappings => (mappings.get field).getD field

/-- A field of this name is masked or dropped. -/
def Lists (name : String) : Prop :=
  name ∈ options.maskFields.getD [] ∨ name ∈ options.dropFields.getD []

instance (name : String) : Decidable (options.Lists name) :=
  inferInstanceAs (Decidable (name ∈ options.maskFields.getD [] ∨
    name ∈ options.dropFields.getD []))

/-- The field is masked or dropped under the name to which it is mapped. -/
def Hides : Prop := options.Lists (options.mappedName field)

instance : Decidable (options.Hides field) :=
  inferInstanceAs (Decidable (options.Lists (options.mappedName field)))

/-- Mappings, if there are any, neither take the name of the field from
`Object.prototype` nor map it to `__proto__`. -/
def Plain : Prop :=
  ∀ mappings ∈ options.fieldMappings,
    (mappings.get field = none → inherited field = none) ∧
      options.mappedName field ≠ "__proto__"

instance : Decidable (options.Plain field) :=
  inferInstanceAs (Decidable (∀ mappings ∈ options.fieldMappings,
    (mappings.get field = none → inherited field = none) ∧
      options.mappedName field ≠ "__proto__"))

end TransformOptions

variable {options : TransformOptions} {payload : Payload (Value O)}
  {field name : String} {value : Value O}

theorem assign_newKey {mappings : InsertionMap String String}
    (hsome : options.fieldMappings = some mappings)
    (hplain : options.Plain field) (result : Payload (Value O)) :
    assign result (newKey mappings field) value =
      result.set (options.mappedName field) value := by
  obtain ⟨howned, hproto⟩ := hplain mappings hsome
  have hname : newKey mappings field = options.mappedName field := by
    cases hget : mappings.get field with
    | some other => simp [newKey, TransformOptions.mappedName, hsome, hget]
    | none =>
        simp [newKey, TransformOptions.mappedName, hsome, hget, howned hget]
  rw [hname, assign, if_neg hproto]

theorem applyMasking_eq_foldl (payload : Payload (Value O))
    (fields : Option (List String)) :
    applyMasking payload fields =
      (fields.getD []).foldl
        (fun result field =>
          if (result.get field).isSome then result.set field masked
          else result) payload := by
  cases fields with
  | none => rfl
  | some fields =>
      cases fields with
      | nil => rfl
      | cons first rest => rfl

theorem applyDrops_eq_foldl (payload : Payload (Value O))
    (fields : Option (List String)) :
    applyDrops payload fields =
      (fields.getD []).foldl InsertionMap.delete payload := by
  cases fields with
  | none => rfl
  | some fields =>
      cases fields with
      | nil => rfl
      | cons first rest => rfl

/-! ## What is hidden -/

section Hidden

variable {hidden : String → Prop} {left right : Payload (Value O)}

theorem sameOutside_foldl_assign {mappings : InsertionMap String String}
    (hsome : options.fieldMappings = some mappings)
    (hsame : left.SameOutside options.Hides right) {fields : List String}
    (hplain : ∀ field ∈ fields, options.Plain field)
    {first second : Payload (Value O)}
    (hresult : first.SameOutside options.Lists second) :
    (fields.foldl (fun result field =>
        ((left.get field).map fun value =>
          assign result (newKey mappings field) value).getD result)
        first).SameOutside options.Lists
      (fields.foldl (fun result field =>
        ((right.get field).map fun value =>
          assign result (newKey mappings field) value).getD result)
        second) := by
  induction fields generalizing first second with
  | nil => exact hresult
  | cons field rest ih =>
      rw [List.forall_mem_cons] at hplain
      apply ih hplain.2
      have hvisible := hsame.get field
      beta_reduce
      cases hleft : left.get field with
      | none =>
          rw [hsame.get_eq_none hleft]
          exact hresult
      | some value =>
          have hthere := hsame.isSome_get field
          rw [hleft] at hthere hvisible
          obtain ⟨other, hright⟩ := Option.isSome_iff_exists.mp hthere.symm
          rw [hright] at hvisible
          rw [hright, Option.map_some, Option.map_some, Option.getD_some,
            Option.getD_some, assign_newKey hsome hplain.1,
            assign_newKey hsome hplain.1]
          exact hresult.set fun hhides => Option.some.inj (hvisible hhides)

theorem sameOutside_applyMappings
    (hplain : ∀ field ∈ left.keys, options.Plain field)
    (hsame : left.SameOutside options.Hides right) :
    (applyMappings left options.fieldMappings).SameOutside options.Lists
      (applyMappings right options.fieldMappings) := by
  cases hsome : options.fieldMappings with
  | none =>
      have hhides : options.Hides = options.Lists := by
        funext field
        rw [TransformOptions.Hides, TransformOptions.mappedName, hsome]
      rw [hhides] at hsame
      exact hsame
  | some mappings =>
      simp only [applyMappings, InsertionMap.foldl_entries, ← hsame.keys]
      apply sameOutside_foldl_assign hsome hsame hplain
      exact InsertionMap.SameOutside.refl _ _

theorem sameOutside_applyMasking (hsame : left.SameOutside hidden right)
    (fields : Option (List String)) :
    (applyMasking left fields).SameOutside
      (fun name => hidden name ∧ name ∉ fields.getD [])
      (applyMasking right fields) := by
  rw [applyMasking_eq_foldl, applyMasking_eq_foldl]
  induction fields.getD [] generalizing hidden left right with
  | nil => exact hsame.mono fun name hname => ⟨hname, List.not_mem_nil⟩
  | cons field rest ih =>
      rw [List.foldl_cons, List.foldl_cons]
      have hfirst : (if (left.get field).isSome then left.set field masked
          else left).SameOutside (fun name => hidden name ∧ name ≠ field)
          (if (right.get field).isSome then right.set field masked
          else right) := by
        rw [← hsame.isSome_get]
        split
        · exact hsame.set_self field masked
        · rename_i hnone
          exact hsame.of_get_eq_none (by simpa using hnone)
      refine (ih hfirst).mono ?_
      rintro name ⟨⟨hname, hne⟩, hnew⟩
      exact ⟨hname, List.not_mem_cons_of_ne_of_not_mem hne hnew⟩

theorem sameOutside_applyDrops (hsame : left.SameOutside hidden right)
    (fields : Option (List String)) :
    (applyDrops left fields).SameOutside
      (fun name => hidden name ∧ name ∉ fields.getD [])
      (applyDrops right fields) := by
  rw [applyDrops_eq_foldl, applyDrops_eq_foldl]
  induction fields.getD [] generalizing hidden left right with
  | nil => exact hsame.mono fun name hname => ⟨hname, List.not_mem_nil⟩
  | cons field rest ih =>
      rw [List.foldl_cons, List.foldl_cons]
      refine (ih (hsame.delete field)).mono ?_
      rintro name ⟨⟨hname, hne⟩, hnew⟩
      exact ⟨hname, List.not_mem_cons_of_ne_of_not_mem hne hnew⟩

theorem transformPayload_eq
    (hplain : ∀ field ∈ left.keys, options.Plain field)
    (hsame : left.SameOutside options.Hides right) :
    transformPayload options left = transformPayload options right := by
  have hmapped := sameOutside_applyMappings hplain hsame
  have hmasked := sameOutside_applyMasking hmapped options.maskFields
  have hdropped := sameOutside_applyDrops hmasked options.dropFields
  apply hdropped.eq
  rintro name ⟨⟨hmask | hdrop, hnotMask⟩, hnotDrop⟩
  · exact hnotMask hmask
  · exact hnotDrop hdrop

end Hidden

/-! ## What is kept -/

theorem get_foldl_assign_of_forall_ne
    {mappings : InsertionMap String String}
    (hsome : options.fieldMappings = some mappings)
    {entries : List (String × Value O)}
    (hplain : ∀ entry ∈ entries, options.Plain entry.1)
    (hne : ∀ entry ∈ entries, options.mappedName entry.1 ≠ name)
    (result : Payload (Value O)) :
    (entries.foldl
      (fun result entry => assign result (newKey mappings entry.1) entry.2)
      result).get name = result.get name := by
  induction entries generalizing result with
  | nil => rfl
  | cons entry rest ih =>
      rw [List.forall_mem_cons] at hplain hne
      rw [List.foldl_cons, ih hplain.2 hne.2, assign_newKey hsome hplain.1,
        InsertionMap.get_set_of_ne _ _ (Ne.symm hne.1)]

theorem get_applyMappings {before after : List (String × Value O)}
    (hplain : ∀ field ∈ payload.keys, options.Plain field)
    (hsplit : payload.entries = before ++ (field, value) :: after)
    (hlater : ∀ entry ∈ after,
      options.mappedName entry.1 ≠ options.mappedName field) :
    (applyMappings payload options.fieldMappings).get
      (options.mappedName field) = some value := by
  cases hsome : options.fieldMappings with
  | none =>
      rw [applyMappings, TransformOptions.mappedName, hsome]
      apply InsertionMap.get_eq_some_iff.mpr
      rw [hsplit]
      exact List.mem_append_right before List.mem_cons_self
  | some mappings =>
      have hentries : ∀ entry ∈ (field, value) :: after,
          options.Plain entry.1 := by
        intro entry hentry
        apply hplain
        rw [InsertionMap.keys, hsplit]
        exact List.mem_map_of_mem (List.mem_append_right before hentry)
      rw [List.forall_mem_cons] at hentries
      rw [applyMappings, hsplit, List.foldl_append, List.foldl_cons,
        get_foldl_assign_of_forall_ne hsome hentries.2 hlater,
        assign_newKey hsome hentries.1, InsertionMap.get_set_self]

theorem get_applyMasking_of_not_mem {fields : Option (List String)}
    (hnew : name ∉ fields.getD []) (payload : Payload (Value O)) :
    (applyMasking payload fields).get name = payload.get name := by
  rw [applyMasking_eq_foldl]
  generalize fields.getD [] = names at hnew
  induction names generalizing payload with
  | nil => rfl
  | cons field rest ih =>
      rw [List.mem_cons, not_or] at hnew
      rw [List.foldl_cons, ih _ hnew.2]
      split
      · exact InsertionMap.get_set_of_ne _ _ hnew.1
      · rfl

theorem get_applyDrops_of_not_mem {fields : Option (List String)}
    (hnew : name ∉ fields.getD []) (payload : Payload (Value O)) :
    (applyDrops payload fields).get name = payload.get name := by
  rw [applyDrops_eq_foldl]
  generalize fields.getD [] = names at hnew
  induction names generalizing payload with
  | nil => rfl
  | cons field rest ih =>
      rw [List.mem_cons, not_or] at hnew
      rw [List.foldl_cons, ih _ hnew.2, InsertionMap.get_delete_of_ne _ hnew.1]

theorem get_transformPayload {before after : List (String × Value O)}
    (hplain : ∀ field ∈ payload.keys, options.Plain field)
    (hsplit : payload.entries = before ++ (field, value) :: after)
    (hshown : ¬ options.Hides field)
    (hlater : ∀ entry ∈ after,
      options.mappedName entry.1 ≠ options.mappedName field) :
    (transformPayload options payload).get (options.mappedName field) =
      some value := by
  rw [TransformOptions.Hides, TransformOptions.Lists, not_or] at hshown
  rw [transformPayload, get_applyDrops_of_not_mem hshown.2,
    get_applyMasking_of_not_mem hshown.1]
  exact get_applyMappings hplain hsplit hlater

/-! ## Both images of an event -/

inductive Image
  | before
  | after
deriving DecidableEq

def CdcEvent.image (event : CdcEvent (Value O)) :
    Image → Option (Payload (Value O))
  | .before => event.before
  | .after => event.after

def CdcEvent.setImages (event : CdcEvent (Value O))
    (before after : Option (Payload (Value O))) : CdcEvent (Value O) :=
  { event with before := before, after := after }

/-- The events differ at most in the values of hidden fields. -/
structure DifferIn (hidden : String → Prop)
    (first second : CdcEvent (Value O)) : Prop where
  rest : first.setImages none none = second.setImages none none
  images : ∀ image,
    Option.Rel (InsertionMap.SameOutside hidden) (first.image image)
      (second.image image)

/-- The fields of both images are plain. -/
def PlainFields (options : TransformOptions) (event : CdcEvent (Value O)) :
    Prop :=
  ∀ image, ∀ payload ∈ event.image image, ∀ field ∈ payload.keys,
    options.Plain field

theorem image_transform (options : TransformOptions)
    (event : CdcEvent (Value O)) (image : Image) :
    (transform options event).image image =
      (event.image image).map (transformPayload options) := by
  cases image with
  | before => rfl
  | after => rfl

theorem transform_eq_of_differIn {first second : CdcEvent (Value O)}
    (hplain : PlainFields options first)
    (hdiffer : DifferIn options.Hides first second) :
    transform options first = transform options second := by
  have himages : ∀ image,
      (first.image image).map (transformPayload options) =
        (second.image image).map (transformPayload options) := by
    intro image
    have hfields := hplain image
    have hrel := hdiffer.images image
    generalize first.image image = left at hfields hrel
    generalize second.image image = right at hrel
    cases hrel with
    | none => rfl
    | some hsame =>
        exact congrArg some (transformPayload_eq (hfields _ rfl) hsame)
  calc
    transform options first =
        (first.setImages none none).setImages
          ((first.image .before).map (transformPayload options))
          ((first.image .after).map (transformPayload options)) := rfl
    _ = (second.setImages none none).setImages
          ((second.image .before).map (transformPayload options))
          ((second.image .after).map (transformPayload options)) := by
        rw [hdiffer.rest, himages .before, himages .after]
    _ = transform options second := rfl

/-- Events that differ only in fields that are masked or dropped under their
mapped names become equal, and every other field has its value under its
mapped name unless a later field is mapped to that name. -/
theorem transform_hides_and_keeps {event : CdcEvent (Value O)}
    (hplain : PlainFields options event) :
    (∀ other, DifferIn options.Hides event other →
      transform options event = transform options other) ∧
    ∀ image, ∀ payload ∈ event.image image, ∀ before field value after,
      payload.entries = before ++ (field, value) :: after →
      ¬ options.Hides field →
      (∀ later ∈ after,
        options.mappedName later.1 ≠ options.mappedName field) →
      ∃ result ∈ (transform options event).image image,
        result.get (options.mappedName field) = some value := by
  refine ⟨fun other hdiffer => transform_eq_of_differIn hplain hdiffer, ?_⟩
  intro image payload hpayload before field value after hsplit hshown hlater
  refine ⟨transformPayload options payload, ?_, ?_⟩
  · rw [image_transform, Option.mem_def.mp hpayload]
    rfl
  · exact get_transformPayload (hplain image payload hpayload) hsplit hshown
      hlater

def taxOptions : TransformOptions where
  fieldMappings := some (InsertionMap.empty.set "ssn" "tax_id")
  maskFields := some ["tax_id"]
  dropFields := some ["debug"]

def rowOf (entries : List (String × String)) : Payload (Value Empty) :=
  entries.foldl (fun row entry => row.set entry.1 (.text entry.2)) .empty

def insertOf (row : Payload (Value Empty)) : CdcEvent (Value Empty) where
  id := "cdc-1"
  source := .postgres
  database := "public"
  table := "users"
  operation := .insert
  before := none
  after := some row
  timestamp := 1700000001000

def person (ssn : String) : CdcEvent (Value Empty) :=
  insertOf (rowOf [("ssn", ssn), ("name", "Eve"), ("debug", "on")])

theorem differIn_person {hidden : String → Prop} (hssn : hidden "ssn")
    (first second : String) :
    DifferIn hidden (person first) (person second) := by
  refine ⟨rfl, fun image => ?_⟩
  cases image with
  | before => exact .none
  | after =>
      apply Option.Rel.some
      refine InsertionMap.SameOutside.set ?_ fun _ => rfl
      refine InsertionMap.SameOutside.set ?_ fun _ => rfl
      refine InsertionMap.SameOutside.set (.refl _ _) fun hshown => ?_
      exact absurd hssn hshown

theorem transform_hides_and_keeps_person :
    transform taxOptions (person "999") = transform taxOptions (person "111") ∧
      ∃ result ∈ (transform taxOptions (person "999")).image .after,
        result.get "name" = some (.text "Eve") := by
  have hplain : PlainFields taxOptions (person "999") := by
    intro image payload hpayload
    cases image with
    | before => cases hpayload
    | after =>
        rw [← Option.some.inj hpayload]
        decide +kernel
  obtain ⟨hhides, hkeeps⟩ := transform_hides_and_keeps hplain
  constructor
  · exact hhides _ (differIn_person (by decide +kernel) "999" "111")
  · exact hkeeps .after _ rfl [("ssn", .text "999")] "name" (.text "Eve")
      [("debug", .text "on")] (by decide +kernel) (by decide +kernel)
      (by decide +kernel)

/-- A field that is masked under the name that it had before the mappings is
shown; of two fields that are mapped to one new name the first is lost; and a
field that mappings find on `Object.prototype` is renamed. -/
theorem not_transform_hides_and_keeps :
    (∃ options : TransformOptions,
      DifferIn options.Lists (person "999") (person "111") ∧
        transform options (person "999") ≠
          transform options (person "111")) ∧
    (∃ options : TransformOptions, options.mappedName "first" = "name" ∧
      ¬ options.Lists "first" ∧
      (transformPayload options
        (rowOf [("first", "Eve"), ("last", "Doe")])).get "name" ≠
          some (.text "Eve")) ∧
    (∃ options : TransformOptions,
      options.mappedName "constructor" = "constructor" ∧
      ¬ options.Lists "constructor" ∧
      (transformPayload options (rowOf [("constructor", "ACME")])).get
        "constructor" ≠ some (.text "ACME")) := by
  refine ⟨⟨⟨some (InsertionMap.empty.set "ssn" "tax_id"), some ["ssn"],
    none⟩, ?_, ?_⟩, ?_, ?_⟩
  · exact differIn_person (by decide +kernel) "999" "111"
  · decide +kernel
  · exact ⟨⟨some ((InsertionMap.empty.set "first" "name").set "last" "name"),
      none, none⟩, by decide +kernel⟩
  · exact ⟨⟨some .empty, none, none⟩, by decide +kernel⟩

end TsCommons.Cdc
