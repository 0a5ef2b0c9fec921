import TsCommons.Foundations.InsertionMap

/-!
# The schema registry

Each subject has a list of versions and may have a compatibility mode of its
own.  A schema is registered if it passes the check of the effective mode
against the latest version, and takes the next id of the registry.
-/

namespace TsCommons.SchemaRegistry

open Foundations

inductive CompatibilityMode
  | none
  | backward
  | forward
  | full
deriving DecidableEq

inductive SchemaType
  | json
  | avro
  | protobuf
deriving DecidableEq

structure SchemaField where
  name : String
  type : String
  optional : Option Bool
deriving DecidableEq

structure Schema where
  type : SchemaType
  fields : List SchemaField
  namespaceName : Option String
deriving DecidableEq

structure SchemaVersion where
  id : ℕ
  version : ℕ
  schema : Schema
  subject : String
  createdAt : ℕ
deriving DecidableEq

inductive RegistryError
  | incompatibleSchema (subject : String) (reason : Option String)
  | subjectNotFound (subject : String)
  | schemaVersionNotFound (subject : String) (version : ℕ)
deriving DecidableEq

def RegistryError.message : RegistryError → String
  | .incompatibleSchema subject (some reason) =>
      "Schema for subject \"" ++ subject ++ "\" is incompatible: " ++ reason
  | .incompatibleSchema subject none =>
      "Schema for subject \"" ++ subject ++ "\" is incompatible"
  | .subjectNotFound subject => "Subject not found: " ++ subject
  | .schemaVersionNotFound subject version =>
      "Schema version " ++ toString version ++ " not found for subject \"" ++
        subject ++ "\""

/-- `field.optional !== true`. -/
def SchemaField.required (field : SchemaField) : Bool :=
  field.optional ≠ some true

/-- `new Map(fields.map((f) => [f.name, f]))`. -/
def fieldMap (fields : List SchemaField) : InsertionMap String SchemaField :=
  fields.foldl (fun map field => map.set field.name field) .empty

def backwardCheck
    (existingFields nextFields : InsertionMap String SchemaField) : Bool :=
  existingFields.entries.all fun entry =>
    !(entry.2.required && !nextFields.has entry.1)

def forwardCheck
    (existingFields nextFields : InsertionMap String SchemaField) : Bool :=
  existingFields.entries.all fun entry =>
    !(!entry.2.required && !nextFields.has entry.1)

def checkCompatibility (existing next : Schema) (mode : CompatibilityMode) :
    Bool :=
  let existingFields := fieldMap existing.fields
  let nextFields := fieldMap next.fields
  match mode with
  | .none => true
  | .backward => backwardCheck existingFields nextFields
  | .forward => forwardCheck existingFields nextFields
  | .full =>
      backwardCheck existingFields nextFields &&
        forwardCheck existingFields nextFields

structure Registry where
  subjects : InsertionMap String (List SchemaVersion)
  globalCompatibility : CompatibilityMode
  subjectCompatibility : InsertionMap String CompatibilityMode
  nextId : ℕ

namespace Registry

def create (defaultCompatibility : Option CompatibilityMode) : Registry where
  subjects := .empty
  globalCompatibility := defaultCompatibility.getD .backward
  subjectCompatibility := .empty
  nextId := 1

def versions (registry : Registry) (subject : String) : List SchemaVersion :=
  (registry.subjects.get subject).getD []

def getCompatibility (registry : Registry) (subject : String) :
    CompatibilityMode :=
  (registry.subjectCompatibility.get subject).getD
    registry.globalCompatibility

/-- The body of `register` after its check. -/
def append (registry : Registry) (subject : String) (schema : Schema)
    (createdAt : ℕ) : Registry :=
  let existing := registry.versions subject
  let version : SchemaVersion :=
    ⟨registry.nextId, existing.length + 1, schema, subject, createdAt⟩
  { registry with
    subjects := registry.subjects.set subject (existing ++ [version])
    nextId := registry.nextId + 1 }

/-- The id or the error, and the registry afterwards; `createdAt` is the time
of the call. -/
def register (registry : Registry) (subject : String) (schema : Schema)
    (createdAt : ℕ) : Except RegistryError ℕ × Registry :=
  match (registry.versions subject).getLast? with
  | some latest =>
      if checkCompatibility latest.schema schema
          (registry.getCompatibility subject) then
        (.ok registry.nextId, registry.append subject schema createdAt)
      else (.error (.incompatibleSchema subject none), registry)
  | none =>
      (.ok registry.nextId, registry.append subject schema createdAt)

def getLatest (registry : Registry) (subject : String) :
    Except RegistryError Schema :=
  match (registry.versions subject).getLast? with
  | some latest => .ok latest.schema
  | none => .error (.subjectNotFound subject)

def getVersion (registry : Registry) (subject : String) (version : ℕ) :
    Except RegistryError SchemaVersion :=
  match (registry.versions subject).find? fun found =>
      found.version = version with
  | some found => .ok found
  | none => .error (.schemaVersionNotFound subject version)

def listSubjects (registry : Registry) : List String := registry.subjects.keys

def listVersions (registry : Registry) (subject : String) : List ℕ :=
  (registry.versions subject).map SchemaVersion.version

/-- Whether the subject was there, and the registry afterwards. -/
def deleteSubject (registry : Registry) (subject : String) : Bool × Registry :=
  (registry.subjects.has subject,
    { registry with subjects := registry.subjects.delete subject })

def setCompatibility (registry : Registry) (subject : String)
    (mode : CompatibilityMode) : Registry :=
  { registry with
    subjectCompatibility := registry.subjectCompatibility.set subject mode }

def subjectCount (registry : Registry) : ℕ := registry.subjects.size

end Registry

end TsCommons.SchemaRegistry
