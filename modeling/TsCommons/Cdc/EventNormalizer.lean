import TsCommons.Foundations.InsertionMap
import Mathlib.Algebra.Order.Ring.Rat

/-!
# The event normalizer

The raw events of four kinds of connector are brought into one format.  The
operation of a raw event is absent where the table of its connector has no
entry for it.  Only a normalised event takes a number for its identifier.
-/

namespace TsCommons.Cdc

open Foundations

variable {V : Type}

inductive CdcOperation
  | insert
  | update
  | delete
  | read
deriving DecidableEq

inductive SourceType
  | debezium
  | postgres
  | mysql
  | mongodb
deriving DecidableEq

/-- The columns of a row, or the fields of a document, with their values. -/
abbrev Payload (V : Type) := InsertionMap String V

/-- What an event says of the change of one row. -/
structure Change (V : Type) where
  source : SourceType
  database : String
  table : String
  operation : CdcOperation
  before : Option (Payload V)
  after : Option (Payload V)
  timestamp : ℚ
deriving DecidableEq

structure CdcEvent (V : Type) extends Change V where
  id : String
deriving DecidableEq

inductive DebeziumOp
  | c
  | u
  | d
  | r
deriving DecidableEq

structure DebeziumRaw (V : Type) where
  op : Option DebeziumOp
  tsMs : ℚ
  db : String
  table : String
  before : Option (Payload V)
  after : Option (Payload V)

inductive PgOperation
  | INSERT
  | UPDATE
  | DELETE
deriving DecidableEq

structure PgRaw (V : Type) where
  operation : Option PgOperation
  schema : String
  table : String
  old : Option (Payload V)
  new : Option (Payload V)
  commitTime : ℚ

inductive MySqlType
  | WRITE_ROWS
  | UPDATE_ROWS
  | DELETE_ROWS
deriving DecidableEq

structure MySqlRow (V : Type) where
  before : Option (Payload V)
  after : Option (Payload V)

structure MySqlRaw (V : Type) where
  type : Option MySqlType
  database : String
  table : String
  rows : List (MySqlRow V)
  timestamp : ℚ

inductive MongoOperationType
  | insert
  | update
  | delete
  | replace
deriving DecidableEq

structure MongoRaw (V : Type) where
  operationType : Option MongoOperationType
  db : String
  coll : String
  fullDocument : Option (Payload V)
  updatedFields : Option (Payload V)
  clusterTime : ℚ

inductive CdcRawEvent (V : Type)
  | debezium (raw : DebeziumRaw V)
  | postgres (raw : PgRaw V)
  | mysql (raw : MySqlRaw V)
  | mongodb (raw : MongoRaw V)

/-! ## The code -/

def nextId : StateM ℕ String :=
  modifyGet fun seq => ("cdc-" ++ toString (seq + 1), seq + 1)

def debeziumOpMap : DebeziumOp → CdcOperation
  | .c => .insert
  | .u => .update
  | .d => .delete
  | .r => .read

def pgOpMap : PgOperation → CdcOperation
  | .INSERT => .insert
  | .UPDATE => .update
  | .DELETE => .delete

def mysqlOpMap : MySqlType → CdcOperation
  | .WRITE_ROWS => .insert
  | .UPDATE_ROWS => .update
  | .DELETE_ROWS => .delete

def mongoOpMap : MongoOperationType → CdcOperation
  | .insert => .insert
  | .update => .update
  | .delete => .delete
  | .replace => .update

def fromDebezium (raw : DebeziumRaw V) : StateM ℕ (Option (CdcEvent V)) :=
  match raw.op.map debeziumOpMap with
  | none => pure none
  | some op => do
      let id ← nextId
      return some {
        id := id
        source := .debezium
        database := raw.db
        table := raw.table
        operation := op
        before := raw.before
        after := raw.after
        timestamp := raw.tsMs }

def fromPostgres (raw : PgRaw V) : StateM ℕ (Option (CdcEvent V)) :=
  match raw.operation.map pgOpMap with
  | none => pure none
  | some op => do
      let id ← nextId
      return some {
        id := id
        source := .postgres
        database := raw.schema
        table := raw.table
        operation := op
        before := raw.old
        after := raw.new
        timestamp := raw.commitTime }

def fromMySql (raw : MySqlRaw V) : StateM ℕ (Option (CdcEvent V)) :=
  match raw.type.map mysqlOpMap with
  | none => pure none
  | some op => do
      let firstRow := raw.rows.head?
      let id ← nextId
      return some {
        id := id
        source := .mysql
        database := raw.database
        table := raw.table
        operation := op
        before := firstRow.bind fun row => row.before
        after := firstRow.bind fun row => row.after
        timestamp := raw.timestamp }

def buildMongoAfter (raw : MongoRaw V) : Option (Payload V) :=
  raw.updatedFields

def fromMongo (raw : MongoRaw V) : StateM ℕ (Option (CdcEvent V)) :=
  match raw.operationType.map mongoOpMap with
  | none => pure none
  | some op => do
      let after := raw.fullDocument.or (buildMongoAfter raw)
      let id ← nextId
      return some {
        id := id
        source := .mongodb
        database := raw.db
        table := raw.coll
        operation := op
        before := none
        after := after
        timestamp := raw.clusterTime }

def normalize : CdcRawEvent V → StateM ℕ (Option (CdcEvent V))
  | .debezium raw => fromDebezium raw
  | .postgres raw => fromPostgres raw
  | .mysql raw => fromMySql raw
  | .mongodb raw => fromMongo raw

/-! ## The changes that a raw event stands for -/

/-- One change for each row of the event, in order. -/
def MySqlRaw.changes (raw : MySqlRaw V) (type : MySqlType) : List (Change V) :=
  raw.rows.map fun row => {
    source := .mysql
    database := raw.database
    table := raw.table
    operation := mysqlOpMap type
    before := row.before
    after := row.after
    timestamp := raw.timestamp }

/-- A document is changed to its new content, or else to the fields that were
updated. -/
def MongoRaw.change (raw : MongoRaw V) (type : MongoOperationType) :
    Change V where
  source := .mongodb
  database := raw.db
  table := raw.coll
  operation := mongoOpMap type
  before := none
  after := raw.fullDocument.or raw.updatedFields
  timestamp := raw.clusterTime

def PgRaw.change (raw : PgRaw V) (operation : PgOperation) : Change V where
  source := .postgres
  database := raw.schema
  table := raw.table
  operation := pgOpMap operation
  before := raw.old
  after := raw.new
  timestamp := raw.commitTime

def DebeziumRaw.change (raw : DebeziumRaw V) (op : DebeziumOp) :
    Change V where
  source := .debezium
  database := raw.db
  table := raw.table
  operation := debeziumOpMap op
  before := raw.before
  after := raw.after
  timestamp := raw.tsMs

/-- The changes of rows that a raw event of a known operation reports. -/
def CdcRawEvent.changes : CdcRawEvent V → List (Change V)
  | .debezium raw => raw.op.toList.map raw.change
  | .postgres raw => raw.operation.toList.map raw.change
  | .mysql raw => raw.type.toList.flatMap raw.changes
  | .mongodb raw => raw.operationType.toList.map raw.change

/-- A MySQL event reports at least one row. -/
def CdcRawEvent.HasRows : CdcRawEvent V → Prop
  | .mysql raw => raw.rows ≠ []
  | _ => True

/-- A MySQL event of a known type reports one row. -/
def CdcRawEvent.SingleRow : CdcRawEvent V → Prop
  | .mysql raw => ∀ _ ∈ raw.type, raw.rows.length = 1
  | _ => True

instance (raw : CdcRawEvent V) : Decidable raw.SingleRow :=
  match raw with
  | .debezium _ => inferInstanceAs (Decidable True)
  | .postgres _ => inferInstanceAs (Decidable True)
  | .mysql raw =>
      inferInstanceAs (Decidable (∀ _ ∈ raw.type, raw.rows.length = 1))
  | .mongodb _ => inferInstanceAs (Decidable True)

variable {raw : CdcRawEvent V} {seq : ℕ}

/-- The normalised event is the first change that the raw event reports. -/
theorem normalize_run (hrows : raw.HasRows) (seq : ℕ) :
    (normalize raw).run seq =
      (raw.changes.head?.map fun change =>
          ⟨change, "cdc-" ++ toString (seq + 1)⟩,
        if raw.changes = [] then seq else seq + 1) := by
  cases raw with
  | debezium raw =>
      cases hop : raw.op with
      | none =>
          simp only [normalize, fromDebezium, CdcRawEvent.changes, hop]
          rfl
      | some op =>
          simp only [normalize, fromDebezium, CdcRawEvent.changes, hop]
          rfl
  | postgres raw =>
      cases hop : raw.operation with
      | none =>
          simp only [normalize, fromPostgres, CdcRawEvent.changes, hop]
          rfl
      | some operation =>
          simp only [normalize, fromPostgres, CdcRawEvent.changes, hop]
          rfl
  | mysql raw =>
      obtain ⟨first, rest, hsplit⟩ := List.exists_cons_of_ne_nil hrows
      cases hop : raw.type with
      | none =>
          simp only [normalize, fromMySql, CdcRawEvent.changes, hop]
          rfl
      | some type =>
          simp only [normalize, fromMySql, CdcRawEvent.changes, hop,
            Option.toList_some, List.flatMap_singleton, MySqlRaw.changes,
            hsplit]
          rfl
  | mongodb raw =>
      cases hop : raw.operationType with
      | none =>
          simp only [normalize, fromMongo, CdcRawEvent.changes, hop]
          rfl
      | some type =>
          simp only [normalize, fromMongo, CdcRawEvent.changes, hop]
          rfl

theorem length_changes_le_one_iff (hrows : raw.HasRows) :
    raw.changes.length ≤ 1 ↔ raw.SingleRow := by
  cases raw with
  | debezium raw =>
      refine iff_of_true ?_ trivial
      cases hop : raw.op <;> simp [CdcRawEvent.changes, hop]
  | postgres raw =>
      refine iff_of_true ?_ trivial
      cases hop : raw.operation <;> simp [CdcRawEvent.changes, hop]
  | mysql raw =>
      have hpos : 0 < raw.rows.length := List.length_pos_of_ne_nil hrows
      cases hop : raw.type with
      | none => simp [CdcRawEvent.changes, CdcRawEvent.SingleRow, hop]
      | some type =>
          have hlength : (CdcRawEvent.mysql raw).changes.length =
              raw.rows.length := by
            simp [CdcRawEvent.changes, MySqlRaw.changes, hop]
          rw [hlength]
          constructor
          · exact fun hle _ _ => Nat.le_antisymm hle hpos
          · exact fun hsingle => (hsingle type hop).le
  | mongodb raw =>
      refine iff_of_true ?_ trivial
      cases hop : raw.operationType <;> simp [CdcRawEvent.changes, hop]

end TsCommons.Cdc
