import TsCommons.SchemaRegistry.Registry
import TsCommons.Foundations.Execution
import Mathlib.Data.List.Chain

/-!
# The history of a schema registry

The registrations that succeeded tell which versions a subject should have:
those since its last deletion, numbered from one.  Ids count up over all
subjects, and each version was checked against the one before it under the
mode that was effective then.
-/

namespace TsCommons.SchemaRegistry

open Foundations

/-- A registration that succeeded, with the mode that was effective. -/
structure Registration where
  subject : String
  schema : Schema
  id : ℕ
  mode : CompatibilityMode
deriving DecidableEq

/-- The registry, the ids that have been returned, and the registrations of
subjects that have not been deleted since, both in their order. -/
structure State where
  registry : Registry
  returned : List ℕ
  registrations : List Registration

def State.initial (defaultCompatibility : Option CompatibilityMode) : State :=
  ⟨.create defaultCompatibility, [], []⟩

def State.since (state : State) (subject : String) : List Registration :=
  state.registrations.filter (·.subject = subject)

inductive Label
  | register (subject : String) (schema : Schema) (createdAt : ℕ)
  | deleteSubject (subject : String)
  | setCompatibility (subject : String) (mode : CompatibilityMode)
deriving DecidableEq

def State.registered (state : State) (subject : String) (schema : Schema)
    (createdAt : ℕ) : State :=
  let result := state.registry.register subject schema createdAt
  match result.1 with
  | .ok id =>
      { registry := result.2
        returned := state.returned ++ [id]
        registrations := state.registrations ++
          [⟨subject, schema, id, state.registry.getCompatibility subject⟩] }
  | .error _ => { state with registry := result.2 }

def State.deleted (state : State) (subject : String) : State :=
  { state with
    registry := (state.registry.deleteSubject subject).2
    registrations := state.registrations.filter (·.subject ≠ subject) }

def step (state : State) : Label → Option State
  | .register subject schema createdAt =>
      some (state.registered subject schema createdAt)
  | .deleteSubject subject => some (state.deleted subject)
  | .setCompatibility subject mode =>
      some { state with
        registry := state.registry.setCompatibility subject mode }

def SchemaVersion.record (version : SchemaVersion) : String × Schema × ℕ :=
  (version.subject, version.schema, version.id)

def Registration.record (registration : Registration) :
    String × Schema × ℕ :=
  (registration.subject, registration.schema, registration.id)

/-- The ids that were returned increase and are below the next one; the
versions of a subject are its registrations since its last deletion, numbered
from one; each of them passed the check against the one before it under the
mode that was effective; and a rejected registration leaves everything as it
was. -/
structure HistoryLaw (state : State) : Prop where
  increasing : state.returned.Pairwise (· < ·)
  unused : ∀ id ∈ state.returned, id < state.registry.nextId
  numbered : ∀ subject, state.registry.listVersions subject =
    List.range' 1 (state.since subject).length
  recorded : ∀ subject,
    (state.registry.versions subject).map SchemaVersion.record =
      (state.since subject).map Registration.record
  passed : ∀ subject, (state.since subject).IsChain fun earlier later =>
    checkCompatibility earlier.schema later.schema later.mode = true
  rejected : ∀ subject schema createdAt error,
    (state.registry.register subject schema createdAt).1 = .error error →
      step state (.register subject schema createdAt) = some state

variable {state next : State} {registry : Registry}
  {subject other : String} {schema : Schema} {createdAt : ℕ}
  {mode : CompatibilityMode}

/-! ## What an operation does -/

theorem register_cases (registry : Registry) (subject : String)
    (schema : Schema) (createdAt : ℕ) :
    (registry.register subject schema createdAt =
        (.ok registry.nextId, registry.append subject schema createdAt) ∧
      ∀ latest ∈ (registry.versions subject).getLast?,
        checkCompatibility latest.schema schema
          (registry.getCompatibility subject) = true) ∨
    (registry.register subject schema createdAt =
        (.error (.incompatibleSchema subject none), registry) ∧
      ∃ latest ∈ (registry.versions subject).getLast?,
        checkCompatibility latest.schema schema
          (registry.getCompatibility subject) = false) := by
  unfold Registry.register
  cases hlast : (registry.versions subject).getLast? with
  | none => exact .inl ⟨rfl, by simp⟩
  | some latest =>
      by_cases hcheck : checkCompatibility latest.schema schema
          (registry.getCompatibility subject) = true
      · refine .inl ⟨if_pos hcheck, ?_⟩
        intro other hother
        cases hother
        exact hcheck
      · exact .inr ⟨if_neg hcheck, latest, rfl,
          Bool.not_eq_true _ ▸ hcheck⟩

theorem versions_append :
    (registry.append subject schema createdAt).versions other =
      if other = subject then
        registry.versions subject ++
          [⟨registry.nextId, (registry.versions subject).length + 1, schema,
            subject, createdAt⟩]
      else registry.versions other := by
  simp only [Registry.versions, Registry.append, InsertionMap.get_set]
  split
  · rfl
  · rfl

theorem versions_deleteSubject :
    (registry.deleteSubject subject).2.versions other =
      if other = subject then [] else registry.versions other := by
  simp only [Registry.versions, Registry.deleteSubject,
    InsertionMap.get_delete]
  split
  · rfl
  · rfl

@[simp] theorem versions_setCompatibility :
    (registry.setCompatibility subject mode).versions other =
      registry.versions other := rfl

theorem since_append (registrations : List Registration)
    (registration : Registration) (registry : Registry)
    (returned : List ℕ) :
    State.since ⟨registry, returned, registrations ++ [registration]⟩ other =
      if other = registration.subject then
        registrations.filter (·.subject = other) ++ [registration]
      else registrations.filter (·.subject = other) := by
  simp only [State.since, List.filter_append, List.filter_singleton]
  by_cases heq : other = registration.subject
  · simp [heq]
  · simp [heq, Ne.symm heq]

theorem since_deleted :
    (state.deleted subject).since other =
      if other = subject then [] else state.since other := by
  simp only [State.since, State.deleted, List.filter_filter]
  by_cases heq : other = subject
  · rw [if_pos heq, heq]
    simp
  · rw [if_neg heq]
    apply List.filter_congr
    intro registration _
    by_cases hother : registration.subject = other
    · simp [hother, heq]
    · simp [hother]

/-- What holds of neighbours holds of those that a deletion leaves. -/
theorem isChain_since_deleted {R : Registration → Registration → Prop}
    (hchain : ∀ other, (state.since other).IsChain R) (subject other : String) :
    ((state.deleted subject).since other).IsChain R := by
  rw [since_deleted]
  split
  · exact List.IsChain.nil
  · exact hchain other

theorem registered_cases (state : State) (subject : String) (schema : Schema)
    (createdAt : ℕ) :
    (state.registered subject schema createdAt =
        { registry := state.registry.append subject schema createdAt
          returned := state.returned ++ [state.registry.nextId]
          registrations := state.registrations ++
            [⟨subject, schema, state.registry.nextId,
              state.registry.getCompatibility subject⟩] } ∧
      ∀ latest ∈ (state.registry.versions subject).getLast?,
        checkCompatibility latest.schema schema
          (state.registry.getCompatibility subject) = true) ∨
    (state.registered subject schema createdAt = state ∧
      ∃ latest ∈ (state.registry.versions subject).getLast?,
        checkCompatibility latest.schema schema
          (state.registry.getCompatibility subject) = false) := by
  rcases register_cases state.registry subject schema createdAt with
    ⟨hregister, hcheck⟩ | ⟨hregister, hcheck⟩
  · refine .inl ⟨?_, hcheck⟩
    simp only [State.registered, hregister]
  · refine .inr ⟨?_, hcheck⟩
    simp only [State.registered, hregister]

/-! ## The invariant -/

structure Invariant (state : State) : Prop where
  increasing : state.returned.Pairwise (· < ·)
  unused : ∀ id ∈ state.returned, id < state.registry.nextId
  numbered : ∀ subject, state.registry.listVersions subject =
    List.range' 1 (state.registry.versions subject).length
  recorded : ∀ subject,
    (state.registry.versions subject).map SchemaVersion.record =
      (state.since subject).map Registration.record
  passed : ∀ subject, (state.since subject).IsChain fun earlier later =>
    checkCompatibility earlier.schema later.schema later.mode = true

theorem invariant_initial (defaultCompatibility : Option CompatibilityMode) :
    Invariant (State.initial defaultCompatibility) := by
  refine ⟨List.Pairwise.nil, List.forall_mem_nil _, ?_, ?_, ?_⟩
  · exact fun _ => rfl
  · exact fun _ => rfl
  · exact fun _ => List.IsChain.nil

theorem Invariant.getLast?_schema (hinv : Invariant state)
    (subject : String) :
    (state.registry.versions subject).getLast?.map SchemaVersion.schema =
      (state.since subject).getLast?.map Registration.schema := by
  have hlast := congrArg List.getLast? (hinv.recorded subject)
  rw [List.getLast?_map, List.getLast?_map] at hlast
  have hschema := congrArg (Option.map fun record => record.2.1) hlast
  rw [Option.map_map, Option.map_map] at hschema
  exact hschema

theorem Invariant.registered (hinv : Invariant state) (subject : String)
    (schema : Schema) (createdAt : ℕ) :
    Invariant (state.registered subject schema createdAt) := by
  rcases registered_cases state subject schema createdAt with
    ⟨hregistered, hcheck⟩ | ⟨hsame, -⟩
  · rw [hregistered]
    refine ⟨?_, ?_, ?_, ?_, ?_⟩
    · apply List.pairwise_append.mpr
      refine ⟨hinv.increasing, List.pairwise_singleton _ _, ?_⟩
      intro id hid last hlast
      rw [List.mem_singleton.mp hlast]
      exact hinv.unused id hid
    · intro id hid
      rcases List.mem_append.mp hid with hold | hnew
      · exact Nat.lt_succ_of_lt (hinv.unused id hold)
      · rw [List.mem_singleton.mp hnew]
        exact Nat.lt_succ_self _
    · intro other
      have hnumbered := hinv.numbered other
      simp only [Registry.listVersions, versions_append] at hnumbered ⊢
      by_cases heq : other = subject
      · subst other
        simp only [if_pos, List.map_append, List.length_append, hnumbered]
        rw [List.length_singleton, List.range'_concat]
        simp [Nat.add_comm]
      · simpa only [if_neg heq] using hnumbered
    · intro other
      have hrecorded := hinv.recorded other
      rw [versions_append, since_append]
      by_cases heq : other = subject
      · subst other
        simp only [if_pos, List.map_append, hrecorded]
        rfl
      · rw [if_neg heq, if_neg heq]
        exact hrecorded
    · intro other
      rw [since_append]
      by_cases heq : other = subject
      · subst other
        rw [if_pos rfl]
        apply List.isChain_append.mpr
        refine ⟨hinv.passed subject, List.isChain_singleton _, ?_⟩
        intro earlier hearlier later hlater
        cases hlater
        have hschema := hinv.getLast?_schema subject
        rw [State.since, Option.mem_def.mp hearlier] at hschema
        obtain ⟨latest, hlatest, heq⟩ := Option.map_eq_some_iff.mp hschema
        rw [← heq]
        exact hcheck latest hlatest
      · rw [if_neg heq]
        exact hinv.passed other
  · rw [hsame]
    exact hinv

theorem Invariant.deleted (hinv : Invariant state) (subject : String) :
    Invariant (state.deleted subject) := by
  refine ⟨hinv.increasing, hinv.unused, ?_, ?_, ?_⟩
  · intro other
    have hnumbered := hinv.numbered other
    simp only [State.deleted, Registry.listVersions,
      versions_deleteSubject] at hnumbered ⊢
    by_cases heq : other = subject
    · simp [heq]
    · simpa only [if_neg heq] using hnumbered
  · intro other
    rw [since_deleted, State.deleted, versions_deleteSubject]
    by_cases heq : other = subject
    · rw [if_pos heq, if_pos heq]
      rfl
    · rw [if_neg heq, if_neg heq]
      exact hinv.recorded other
  · exact isChain_since_deleted hinv.passed subject

theorem Invariant.step (hinv : Invariant state) {label : Label}
    (hstep : step state label = some next) : Invariant next := by
  cases label with
  | register subject schema createdAt =>
      cases hstep
      exact hinv.registered subject schema createdAt
  | deleteSubject subject =>
      cases hstep
      exact hinv.deleted subject
  | setCompatibility subject mode =>
      cases hstep
      exact ⟨hinv.increasing, hinv.unused, hinv.numbered, hinv.recorded,
        hinv.passed⟩

theorem step_of_error {error : RegistryError}
    (herror : (state.registry.register subject schema createdAt).1 =
      .error error) :
    SchemaRegistry.step state (.register subject schema createdAt) =
      some state := by
  rcases register_cases state.registry subject schema createdAt with
    ⟨hregister, -⟩ | ⟨hregister, -⟩
  · rw [hregister] at herror
    cases herror
  · simp only [SchemaRegistry.step, State.registered, hregister]

theorem Invariant.law (hinv : Invariant state) : HistoryLaw state := by
  refine ⟨hinv.increasing, hinv.unused, ?_, hinv.recorded, hinv.passed, ?_⟩
  · intro subject
    have hlength := congrArg List.length (hinv.recorded subject)
    rw [List.length_map, List.length_map] at hlength
    rw [hinv.numbered subject, hlength]
  · exact fun subject schema createdAt error herror => step_of_error herror

/-- The history of a registry is kept by every sequence of registrations,
deletions and changes of the modes. -/
theorem historyLaw (defaultCompatibility : Option CompatibilityMode)
    {labels : List Label} {state : State}
    (hrun : exec step (State.initial defaultCompatibility) labels =
      some state) :
    HistoryLaw state := by
  have hinv : Invariant state :=
    exec_invariant (fun _ _ _ hinv hstep => hinv.step hstep)
      (invariant_initial defaultCompatibility) hrun
  exact hinv.law

/-- Two versions, one rejected under a mode set in between, and a new start
after a deletion. -/
def orderEvents : List Label :=
  let id : SchemaField := ⟨"id", "string", none⟩
  let note : SchemaField := ⟨"note", "string", some true⟩
  [.register "order" ⟨.json, [id], none⟩ 1,
    .register "order" ⟨.json, [id, note], none⟩ 2,
    .register "user" ⟨.avro, [id], some "com.acme"⟩ 3,
    .setCompatibility "order" .full,
    .register "order" ⟨.json, [id], none⟩ 4,
    .deleteSubject "order",
    .register "order" ⟨.json, [], none⟩ 5]

theorem historyLaw_orderEvents :
    ∃ state, exec step (State.initial none) orderEvents = some state ∧
      state.returned = [1, 2, 3, 4] ∧
      state.registry.listVersions "order" = [1] ∧
      HistoryLaw state := by
  have hsome : (exec step (State.initial none) orderEvents).map (fun state =>
      (state.returned, state.registry.listVersions "order")) =
        some ([1, 2, 3, 4], [1]) := by
    decide +kernel
  obtain ⟨state, hrun, hfacts⟩ := Option.map_eq_some_iff.mp hsome
  simp only [Prod.mk.injEq] at hfacts
  obtain ⟨hreturned, hversions⟩ := hfacts
  exact ⟨state, hrun, hreturned, hversions, historyLaw none hrun⟩

end TsCommons.SchemaRegistry
