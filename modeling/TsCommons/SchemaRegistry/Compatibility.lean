import TsCommons.SchemaRegistry.History

/-!
# What the compatibility modes promise

A record is given by the types of the fields that it has.  Every record of a
writer's schema is valid for a reader's if and only if the writer has each
field of the reader with the same type, and requires it where the reader
does: a field that the writer does not know may stand in its records with any
type.  The check of the registry looks at the names of the fields that the
new schema drops, so it accepts schemas that break what the mode promises.
-/

namespace TsCommons.SchemaRegistry

open Foundations

/-! ## Reading the records of another schema -/

section Records

/-- The types of the fields that a record has. -/
abbrev Record := InsertionMap String String

/-- The field is present if it is required, and has its type if it is
present. -/
def SchemaField.Valid (field : SchemaField) (record : Record) : Prop :=
  match record.get field.name with
  | none => field.required = false
  | some type => type = field.type

theorem SchemaField.valid_of_get_none {field : SchemaField} {record : Record}
    (hget : record.get field.name = none) :
    field.Valid record ↔ field.required = false := by
  simp only [SchemaField.Valid, hget]

theorem SchemaField.valid_of_get_some {field : SchemaField} {record : Record}
    {type : String} (hget : record.get field.name = some type) :
    field.Valid record ↔ type = field.type := by
  simp only [SchemaField.Valid, hget]

instance SchemaField.Valid.decidable (field : SchemaField) (record : Record) :
    Decidable (field.Valid record) :=
  match hget : record.get field.name with
  | none => decidable_of_iff _ (field.valid_of_get_none hget).symm
  | some _ => decidable_of_iff _ (field.valid_of_get_some hget).symm

def Schema.Valid (schema : Schema) (record : Record) : Prop :=
  ∀ field ∈ schema.fields, field.Valid record

instance Schema.Valid.decidable (schema : Schema) (record : Record) :
    Decidable (schema.Valid record) :=
  inferInstanceAs (Decidable (∀ field ∈ schema.fields, field.Valid record))

def Schema.Distinct (schema : Schema) : Prop :=
  (schema.fields.map SchemaField.name).Nodup

instance Schema.Distinct.decidable (schema : Schema) :
    Decidable schema.Distinct :=
  inferInstanceAs (Decidable (schema.fields.map SchemaField.name).Nodup)

/-- The writer has the field with its type, and requires it if the reader
does. -/
def SchemaField.WrittenBy (field : SchemaField) (writer : Schema) : Prop :=
  ∃ written ∈ writer.fields, written.name = field.name ∧
    written.type = field.type ∧
      (field.required = true → written.required = true)

instance SchemaField.WrittenBy.decidable (field : SchemaField)
    (writer : Schema) : Decidable (field.WrittenBy writer) :=
  inferInstanceAs (Decidable (∃ written ∈ writer.fields,
    written.name = field.name ∧ written.type = field.type ∧
      (field.required = true → written.required = true)))

def Schema.Reads (reader writer : Schema) : Prop :=
  ∀ field ∈ reader.fields, field.WrittenBy writer

instance Schema.Reads.decidable (reader writer : Schema) :
    Decidable (reader.Reads writer) :=
  inferInstanceAs (Decidable (∀ field ∈ reader.fields,
    field.WrittenBy writer))

variable {reader writer : Schema} {field : SchemaField} {record : Record}

def Schema.complete (schema : Schema) (hdistinct : schema.Distinct) :
    Record where
  entries := schema.fields.map fun field => (field.name, field.type)
  nodup := by
    rw [List.map_map]
    exact hdistinct

theorem Schema.get_complete (hdistinct : writer.Distinct)
    (hfield : field ∈ writer.fields) :
    (writer.complete hdistinct).get field.name = some field.type :=
  InsertionMap.get_eq_some_iff.mpr (List.mem_map.mpr ⟨field, hfield, rfl⟩)

theorem Schema.valid_complete (hdistinct : writer.Distinct) :
    writer.Valid (writer.complete hdistinct) := by
  intro field hfield
  exact (field.valid_of_get_some (Schema.get_complete hdistinct hfield)).mpr rfl

/-- A record may have a field that the schema does not know. -/
theorem Schema.Valid.set {name : String} (hvalid : writer.Valid record)
    (hunknown : ∀ field ∈ writer.fields, field.name ≠ name) (type : String) :
    writer.Valid (record.set name type) := by
  intro field hfield
  have hget := record.get_set_of_ne type (hunknown field hfield)
  simp only [SchemaField.Valid, hget]
  exact hvalid field hfield

/-- A record may lack a field that is optional. -/
theorem Schema.Valid.delete (hdistinct : writer.Distinct)
    (hvalid : writer.Valid record) (hfield : field ∈ writer.fields)
    (hoptional : field.required = false) :
    writer.Valid (record.delete field.name) := by
  intro other hother
  by_cases hname : other.name = field.name
  · have hsame : other = field :=
      List.inj_on_of_nodup_map hdistinct hother hfield hname
    rw [hsame]
    exact (field.valid_of_get_none (record.get_delete_self _)).mpr hoptional
  · have hget := record.get_delete_of_ne hname
    simp only [SchemaField.Valid, hget]
    exact hvalid other hother

theorem exists_other_type (type : String) : ∃ other : String, other ≠ type := by
  by_cases hempty : type = ""
  · exact ⟨"string", by rw [hempty]; decide⟩
  · exact ⟨"", Ne.symm hempty⟩

/-- A reader understands all records of a writer if and only if the writer has
each of its fields. -/
theorem Schema.reads_iff (hdistinct : writer.Distinct) :
    (∀ record, writer.Valid record → reader.Valid record) ↔
      reader.Reads writer := by
  constructor
  · intro hreads field hfield
    by_cases hknown : ∃ written ∈ writer.fields, written.name = field.name
    · obtain ⟨written, hwritten, hname⟩ := hknown
      have hget := Schema.get_complete hdistinct hwritten
      have hcomplete := writer.valid_complete hdistinct
      have htype := hreads _ hcomplete field hfield
      rw [hname] at hget
      refine ⟨written, hwritten, hname,
        (field.valid_of_get_some hget).mp htype, ?_⟩
      intro hrequired
      by_contra hoptional
      rw [Bool.not_eq_true] at hoptional
      have hmissing := hreads _
        (hcomplete.delete hdistinct hwritten hoptional) field hfield
      rw [hname, field.valid_of_get_none (InsertionMap.get_delete_self _ _),
        hrequired] at hmissing
      cases hmissing
    · have hunknown : ∀ written ∈ writer.fields,
          written.name ≠ field.name :=
        fun written hwritten hname => hknown ⟨written, hwritten, hname⟩
      obtain ⟨type, hother⟩ := exists_other_type field.type
      have hset := hreads _ ((writer.valid_complete hdistinct).set hunknown
        type) field hfield
      rw [field.valid_of_get_some (InsertionMap.get_set_self _ _ _)] at hset
      exact absurd hset hother
  · intro hreads record hvalid field hfield
    obtain ⟨written, hwritten, hname, htype, hrequired⟩ :=
      hreads field hfield
    have hwrittenValid := hvalid written hwritten
    cases hget : record.get field.name with
    | none =>
        rw [written.valid_of_get_none (by rw [hname, hget])] at hwrittenValid
        rw [field.valid_of_get_none hget]
        by_contra hnot
        rw [hrequired (by simpa using hnot)] at hwrittenValid
        cases hwrittenValid
    | some type =>
        rw [written.valid_of_get_some (by rw [hname, hget])] at hwrittenValid
        rw [field.valid_of_get_some hget, hwrittenValid, htype]

end Records

/-! ## The promise of a registration -/

/-- Whether the new schema is to read the data of the latest one. -/
def CompatibilityMode.readsOld : CompatibilityMode → Bool
  | .backward | .full => true
  | .none | .forward => false

/-- Whether the latest schema is to read the data of the new one. -/
def CompatibilityMode.readsNew : CompatibilityMode → Bool
  | .forward | .full => true
  | .none | .backward => false

def Promise (mode : CompatibilityMode) (latest next : Schema) : Prop :=
  (mode.readsOld = true →
    ∀ record, latest.Valid record → next.Valid record) ∧
  (mode.readsNew = true →
    ∀ record, next.Valid record → latest.Valid record)

/-- Versions with distinct field names read each other's records as the mode
promised that was effective when the later one was registered. -/
def PromiseLaw (state : State) : Prop :=
  ∀ subject, (state.since subject).IsChain fun earlier later =>
    earlier.schema.Distinct → later.schema.Distinct →
      Promise later.mode earlier.schema later.schema

/-- The fields agree as far as the mode needs it. -/
def FieldsAgree (mode : CompatibilityMode) (latest next : Schema) : Prop :=
  (mode.readsOld = true → next.Reads latest) ∧
    (mode.readsNew = true → latest.Reads next)

instance FieldsAgree.decidable (mode : CompatibilityMode)
    (latest next : Schema) : Decidable (FieldsAgree mode latest next) :=
  inferInstanceAs (Decidable ((mode.readsOld = true → next.Reads latest) ∧
    (mode.readsNew = true → latest.Reads next)))

/-- A schema that the check accepts has the fields it needs. -/
def RegistersAgreeing (state : State) : Label → Prop
  | .register subject schema _ =>
      ∀ latest ∈ (state.registry.versions subject).getLast?,
        checkCompatibility latest.schema schema
            (state.registry.getCompatibility subject) = true →
          latest.schema.Distinct → schema.Distinct →
            FieldsAgree (state.registry.getCompatibility subject)
              latest.schema schema
  | _ => True

instance RegistersAgreeing.decidable (state : State) :
    (label : Label) → Decidable (RegistersAgreeing state label)
  | .register subject schema _ =>
      inferInstanceAs (Decidable (
        ∀ latest ∈ (state.registry.versions subject).getLast?,
          checkCompatibility latest.schema schema
              (state.registry.getCompatibility subject) = true →
            latest.schema.Distinct → schema.Distinct →
              FieldsAgree (state.registry.getCompatibility subject)
                latest.schema schema))
  | .deleteSubject _ => inferInstanceAs (Decidable True)
  | .setCompatibility _ _ => inferInstanceAs (Decidable True)

theorem promise_iff_fieldsAgree {mode : CompatibilityMode}
    {latest next : Schema} (hlatest : latest.Distinct)
    (hnext : next.Distinct) :
    Promise mode latest next ↔ FieldsAgree mode latest next := by
  rw [Promise, FieldsAgree, Schema.reads_iff hlatest, Schema.reads_iff hnext]

variable {state next : State} {subject : String} {schema : Schema}
  {createdAt : ℕ}

theorem isChain_concat {α : Type*} {R : α → α → Prop} {list : List α}
    {last : α} :
    (list ++ [last]).IsChain R ↔
      list.IsChain R ∧ ∀ before ∈ list.getLast?, R before last := by
  simp [List.isChain_append]

theorem Invariant.forall_latest_iff (hinv : Invariant state)
    (P : Schema → Prop) :
    (∀ latest ∈ (state.registry.versions subject).getLast?,
        P latest.schema) ↔
      ∀ latest ∈ (state.since subject).getLast?, P latest.schema := by
  have hschema := hinv.getLast?_schema subject
  cases hversion : (state.registry.versions subject).getLast? with
  | none =>
      rw [hversion, Option.map_none, eq_comm, Option.map_eq_none_iff] at hschema
      simp [hschema]
  | some version =>
      rw [hversion, Option.map_some, eq_comm] at hschema
      obtain ⟨latest, hlatest, heq⟩ := Option.map_eq_some_iff.mp hschema
      simp [hlatest, heq]

/-- The law after a registration is the law before it, and the promise for the
latest version and the new one. -/
theorem promiseLaw_registered_iff (hinv : Invariant state) :
    PromiseLaw (state.registered subject schema createdAt) ↔
      PromiseLaw state ∧
        RegistersAgreeing state (.register subject schema createdAt) := by
  rcases registered_cases state subject schema createdAt with
    ⟨hregistered, hcheck⟩ | ⟨hsame, latest, hlatest, hrejected⟩
  · have hagrees : RegistersAgreeing state
        (.register subject schema createdAt) ↔
          ∀ latest ∈ (state.since subject).getLast?,
            latest.schema.Distinct → schema.Distinct →
              Promise (state.registry.getCompatibility subject)
                latest.schema schema := by
      rw [← hinv.forall_latest_iff fun latest => latest.Distinct →
        schema.Distinct → Promise (state.registry.getCompatibility subject)
          latest schema]
      apply forall₂_congr
      intro latest hlatest
      have hpassed := hcheck latest hlatest
      constructor
      · intro hfields hdistinct hnew
        exact (promise_iff_fieldsAgree hdistinct hnew).mpr
          (hfields hpassed hdistinct hnew)
      · intro hpromise _ hdistinct hnew
        exact (promise_iff_fieldsAgree hdistinct hnew).mp
          (hpromise hdistinct hnew)
    rw [hregistered, hagrees]
    constructor
    · intro hlaw
      refine ⟨fun other => ?_, ?_⟩
      · have hchain := hlaw other
        rw [since_append] at hchain
        by_cases heq : other = subject
        · rw [if_pos heq] at hchain
          exact (isChain_concat.mp hchain).1
        · rw [if_neg heq] at hchain
          exact hchain
      · have hchain := hlaw subject
        rw [since_append, if_pos rfl] at hchain
        exact (isChain_concat.mp hchain).2
    · rintro ⟨hlaw, hlast⟩ other
      rw [since_append]
      by_cases heq : other = subject
      · rw [if_pos heq, heq]
        exact isChain_concat.mpr ⟨hlaw subject, hlast⟩
      · rw [if_neg heq]
        exact hlaw other
  · have hagrees : RegistersAgreeing state
        (.register subject schema createdAt) := by
      intro other hother hpassed
      rw [Option.mem_unique hother hlatest, hrejected] at hpassed
      cases hpassed
    rw [hsame]
    exact (and_iff_left hagrees).symm

theorem PromiseLaw.deleted (hlaw : PromiseLaw state) (subject : String) :
    PromiseLaw (state.deleted subject) :=
  isChain_since_deleted hlaw subject

theorem PromiseLaw.step (hinv : Invariant state) (hlaw : PromiseLaw state)
    {label : Label} (hagrees : RegistersAgreeing state label)
    (hstep : step state label = some next) : PromiseLaw next := by
  cases label with
  | register subject schema createdAt =>
      cases hstep
      exact (promiseLaw_registered_iff hinv).mpr ⟨hlaw, hagrees⟩
  | deleteSubject subject =>
      cases hstep
      exact hlaw.deleted subject
  | setCompatibility subject mode =>
      cases hstep
      exact hlaw

theorem not_promiseLaw_of_disagreeing (hinv : Invariant state)
    {label : Label} (hdisagrees : ¬ RegistersAgreeing state label)
    (hstep : SchemaRegistry.step state label = some next) :
    ¬ PromiseLaw next := by
  cases label with
  | register subject schema createdAt =>
      cases hstep
      intro hlaw
      exact hdisagrees ((promiseLaw_registered_iff hinv).mp hlaw).2
  | deleteSubject subject => exact absurd trivial hdisagrees
  | setCompatibility subject mode => exact absurd trivial hdisagrees

/-- Versions read each other's records as promised, in every state of a run,
if and only if each schema that is registered has the fields that the mode
needs it to share with the latest version. -/
theorem promiseLaw_iff_registersAgreeing
    (defaultCompatibility : Option CompatibilityMode) {labels : List Label}
    {state : State}
    (hrun : exec step (State.initial defaultCompatibility) labels =
      some state) :
    Throughout step PromiseLaw (State.initial defaultCompatibility) labels ↔
      StepsMeet step RegistersAgreeing (State.initial defaultCompatibility)
        labels :=
  throughout_iff_stepsMeet
    (I := fun state => Invariant state ∧ PromiseLaw state)
    (fun _ hinv => hinv.2)
    (fun _ _ _ hinv hagrees hstep =>
      ⟨hinv.1.step hstep, hinv.2.step hinv.1 hagrees hstep⟩)
    (fun _ _ _ hinv hdisagrees hstep =>
      not_promiseLaw_of_disagreeing hinv.1 hdisagrees hstep)
    ⟨invariant_initial defaultCompatibility, fun _ => List.IsChain.nil⟩ hrun

def idOnly : Schema := ⟨.json, [⟨"id", "string", none⟩], none⟩

def idAndNote : Schema :=
  ⟨.json, [⟨"id", "string", none⟩, ⟨"note", "string", some true⟩], none⟩

def idAndTotal : Schema :=
  ⟨.json, [⟨"id", "string", none⟩, ⟨"total", "number", none⟩], none⟩

/-- Under `BACKWARD` an optional field is dropped, and under `FORWARD` a
required one is added. -/
def dropsThenAdds : List Label :=
  [.register "order" idAndNote 1, .register "order" idOnly 2,
    .setCompatibility "order" .forward, .register "order" idAndTotal 3]

/-- Under `FORWARD` a required field is dropped. -/
def dropsRequired : List Label :=
  [.register "order" idAndTotal 1, .register "order" idOnly 2]

theorem promiseLaw_iff_registersAgreeing_samples :
    Throughout step PromiseLaw (State.initial none) dropsThenAdds ∧
      ¬ Throughout step PromiseLaw (State.initial (some .forward))
        dropsRequired := by
  have hadds : (exec step (State.initial none) dropsThenAdds).isSome := by
    decide +kernel
  have hdrops :
      (exec step (State.initial (some .forward)) dropsRequired).isSome := by
    decide +kernel
  obtain ⟨_, hadds⟩ := Option.isSome_iff_exists.mp hadds
  obtain ⟨_, hdrops⟩ := Option.isSome_iff_exists.mp hdrops
  constructor
  · apply (promiseLaw_iff_registersAgreeing none hadds).mpr
    decide +kernel
  · intro hlaw
    have hmeet :=
      (promiseLaw_iff_registersAgreeing (some .forward) hdrops).mp hlaw
    exact absurd hmeet (by decide +kernel)

/-- The second schema is accepted although the first one cannot read a record
of it. -/
theorem not_promiseLaw_dropsRequired :
    ∃ state, exec step (State.initial (some .forward)) dropsRequired =
        some state ∧
      state.since "order" =
        [⟨"order", idAndTotal, 1, .forward⟩,
          ⟨"order", idOnly, 2, .forward⟩] ∧
      idOnly.Valid (InsertionMap.empty.set "id" "string") ∧
      ¬ idAndTotal.Valid (InsertionMap.empty.set "id" "string") ∧
      ¬ PromiseLaw state := by
  have hsome : (exec step (State.initial (some .forward)) dropsRequired).map
      (fun state => state.since "order") =
        some [⟨"order", idAndTotal, 1, .forward⟩,
          ⟨"order", idOnly, 2, .forward⟩] := by
    decide +kernel
  have hnew : idOnly.Valid (InsertionMap.empty.set "id" "string") := by
    decide +kernel
  have hold : ¬ idAndTotal.Valid (InsertionMap.empty.set "id" "string") := by
    decide +kernel
  obtain ⟨state, hrun, hsince⟩ := Option.map_eq_some_iff.mp hsome
  refine ⟨state, hrun, hsince, hnew, hold, fun hlaw => ?_⟩
  have hchain := hlaw "order"
  rw [hsince, List.isChain_pair] at hchain
  have hpromise := hchain (by decide) (by decide)
  exact hold (hpromise.2 rfl _ hnew)

end TsCommons.SchemaRegistry
