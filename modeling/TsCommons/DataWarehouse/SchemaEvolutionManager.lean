import TsCommons.Foundations.InsertionMap
import TsCommons.Foundations.KeyedRows
import TsCommons.Foundations.Text

/-!
# The schema evolution manager

The difference of two versions of a table is a list of changes of columns.
Read as edits of rows that are found by their name, the changes give the types
of the target; a nullability that changes under the same type is not seen.
-/

namespace TsCommons.DataWarehouse

open Foundations Foundations.KeyedRows

inductive ColumnType
  | string
  | number
  | boolean
  | date
  | json
deriving DecidableEq

structure ColumnDefinition (δ : Type*) where
  name : Text
  type : ColumnType
  nullable : Bool
  defaultValue : Option δ
deriving DecidableEq

structure TableSchema (δ : Type*) where
  tableName : Text
  columns : List (ColumnDefinition δ)
deriving DecidableEq

inductive SchemaChangeType
  | addColumn
  | dropColumn
  | renameColumn
  | alterColumn
deriving DecidableEq

structure SchemaChange (δ : Type*) where
  type : SchemaChangeType
  tableName : Text
  columnName : Text
  newColumn : Option (ColumnDefinition δ)
  newName : Option Text
deriving DecidableEq

variable {δ : Type*}

/-! ## The difference of two schemas -/

def columnMap (schema : TableSchema δ) :
    InsertionMap Text (ColumnDefinition δ) :=
  .indexBy ColumnDefinition.name schema.columns

def SchemaChange.addition (tableName columnName : Text)
    (newColumn : ColumnDefinition δ) : SchemaChange δ where
  type := .addColumn
  tableName := tableName
  columnName := columnName
  newColumn := some newColumn
  newName := none

def SchemaChange.removal (tableName columnName : Text) : SchemaChange δ where
  type := .dropColumn
  tableName := tableName
  columnName := columnName
  newColumn := none
  newName := none

def SchemaChange.alteration (tableName columnName : Text)
    (newColumn : ColumnDefinition δ) : SchemaChange δ where
  type := .alterColumn
  tableName := tableName
  columnName := columnName
  newColumn := some newColumn
  newName := none

def addedColumns (current target : TableSchema δ) : List (SchemaChange δ) :=
  (columnMap target).entries.filterMap fun entry =>
    if (columnMap current).has entry.1 then none
    else some (.addition target.tableName entry.1 entry.2)

def droppedColumns (current target : TableSchema δ) : List (SchemaChange δ) :=
  (columnMap current).entries.filterMap fun entry =>
    if (columnMap target).has entry.1 then none
    else some (.removal current.tableName entry.1)

def alteredColumns (current target : TableSchema δ) : List (SchemaChange δ) :=
  (columnMap current).entries.filterMap fun entry =>
    match (columnMap target).get entry.1 with
    | none => none
    | some targetCol =>
        if targetCol.type = entry.2.type then none
        else some (.alteration target.tableName entry.1 targetCol)

def generateDiff (current target : TableSchema δ) : List (SchemaChange δ) :=
  addedColumns current target ++ droppedColumns current target ++
    alteredColumns current target

/-! ## What a change does to a table -/

def SchemaChange.edit (change : SchemaChange δ) :
    Option (Edit (ColumnDefinition δ) Text) :=
  match change.type with
  | .addColumn => change.newColumn.map .insert
  | .dropColumn => some (.remove change.columnName)
  | .renameColumn =>
      change.newName.map fun newName =>
        .amend change.columnName fun column => { column with name := newName }
  | .alterColumn =>
      change.newColumn.map fun newColumn =>
        .amend change.columnName fun _ => newColumn

/-- A change of another table, and one without its column, does nothing. -/
def TableSchema.changed (schema : TableSchema δ) (change : SchemaChange δ) :
    TableSchema δ :=
  match change.edit with
  | none => schema
  | some edit =>
      if change.tableName = schema.tableName then
        { schema with
          columns := edit.apply ColumnDefinition.name schema.columns }
      else schema

def applyChanges (schema : TableSchema δ) (changes : List (SchemaChange δ)) :
    TableSchema δ :=
  changes.foldl TableSchema.changed schema

/-- What the columns are, without their default values. -/
def ColumnDefinition.shape (column : ColumnDefinition δ) :
    Text × ColumnType × Bool :=
  (column.name, column.type, column.nullable)

def SameColumns (left right : TableSchema δ) : Prop :=
  (left.columns.map ColumnDefinition.shape).Perm
    (right.columns.map ColumnDefinition.shape)

instance (left right : TableSchema δ) : Decidable (SameColumns left right) :=
  inferInstanceAs (Decidable (List.Perm _ _))

/-! ## The statement that reaches the database -/

def ColumnType.upperCase : ColumnType → Text
  | .string => "STRING".toList
  | .number => "NUMBER".toList
  | .boolean => "BOOLEAN".toList
  | .date => "DATE".toList
  | .json => "JSON".toList

def SchemaChangeType.text : SchemaChangeType → Text
  | .addColumn => "add_column".toList
  | .dropColumn => "drop_column".toList
  | .renameColumn => "rename_column".toList
  | .alterColumn => "alter_column".toList

def noOp (change : SchemaChange δ) : Text :=
  "-- no-op: ".toList ++ change.type.text ++ " on ".toList ++
    change.tableName ++ ".".toList ++ change.columnName

def buildAlterSql (change : SchemaChange δ) : Text :=
  match change.type, change.newColumn, change.newName with
  | .addColumn, some newColumn, _ =>
      "ALTER TABLE ".toList ++ change.tableName ++ " ADD COLUMN ".toList ++
        change.columnName ++ " ".toList ++ newColumn.type.upperCase ++
        if newColumn.nullable then [] else " NOT NULL".toList
  | .dropColumn, _, _ =>
      "ALTER TABLE ".toList ++ change.tableName ++ " DROP COLUMN ".toList ++
        change.columnName
  | .renameColumn, _, some newName =>
      "ALTER TABLE ".toList ++ change.tableName ++ " RENAME COLUMN ".toList ++
        change.columnName ++ " TO ".toList ++ newName
  | .alterColumn, some newColumn, _ =>
      "ALTER TABLE ".toList ++ change.tableName ++ " ALTER COLUMN ".toList ++
        change.columnName ++ " TYPE ".toList ++ newColumn.type.upperCase
  | _, _, _ => noOp change

/-- A change of the nullability alone has no statement of its own. -/
theorem buildAlterSql_alteration {first second : ColumnDefinition δ}
    (hsame : first.type = second.type) (tableName columnName : Text) :
    buildAlterSql (.alteration tableName columnName first) =
      buildAlterSql (.alteration tableName columnName second) := by
  have halter : ∀ column : ColumnDefinition δ,
      buildAlterSql (.alteration tableName columnName column) =
        "ALTER TABLE ".toList ++ tableName ++ " ALTER COLUMN ".toList ++
          columnName ++ " TYPE ".toList ++ column.type.upperCase :=
    fun _ => rfl
  rw [halter, halter, hsame]

/-! ## The columns after the changes -/

/-- The column of a schema with the name. -/
def columnNamed (schema : TableSchema δ) (name : Text) :
    Option (ColumnDefinition δ) :=
  rowOf ColumnDefinition.name schema.columns name

def DistinctNames (schema : TableSchema δ) : Prop :=
  (schema.columns.map ColumnDefinition.name).Nodup

instance (schema : TableSchema δ) : Decidable (DistinctNames schema) :=
  inferInstanceAs (Decidable (List.Nodup _))

variable {schema current target : TableSchema δ} {change : SchemaChange δ}
  {changes : List (SchemaChange δ)} {name : Text}
  {column currentCol targetCol : ColumnDefinition δ}

/-- The change that a name calls for. -/
def changeOf (current target : TableSchema δ) (name : Text) :
    Option (SchemaChange δ) :=
  match columnNamed current name, columnNamed target name with
  | none, none => none
  | none, some column => some (.addition target.tableName name column)
  | some _, none => some (.removal current.tableName name)
  | some currentCol, some targetCol =>
      if targetCol.type = currentCol.type then none
      else some (.alteration target.tableName name targetCol)

theorem columnName_of_changeOf
    (hchange : changeOf current target name = some change) :
    change.columnName = name := by
  unfold changeOf at hchange
  split at hchange
  · cases hchange
  · cases hchange
    rfl
  · cases hchange
    rfl
  · rw [Option.ite_none_left_eq_some, Option.some.injEq] at hchange
    rw [← hchange.2]
    rfl

theorem get_columnMap (hdistinct : DistinctNames schema) (name : Text) :
    (columnMap schema).get name = columnNamed schema name :=
  get_indexBy_eq_rowOf hdistinct

theorem has_columnMap (hdistinct : DistinctNames schema) (name : Text) :
    (columnMap schema).has name = (columnNamed schema name).isSome := by
  rw [InsertionMap.has, get_columnMap hdistinct]

theorem mem_entries_columnMap (hdistinct : DistinctNames schema) (name : Text)
    (column : ColumnDefinition δ) :
    (name, column) ∈ (columnMap schema).entries ↔
      columnNamed schema name = some column := by
  rw [← get_columnMap hdistinct, InsertionMap.get_eq_some_iff]

theorem name_of_columnNamed (hcolumn : columnNamed schema name = some column) :
    column.name = name :=
  (mem_and_key_of_rowOf hcolumn).2

section Members

variable (hcurrent : DistinctNames current) (htarget : DistinctNames target)

include hcurrent htarget

theorem mem_addedColumns_iff :
    change ∈ addedColumns current target ↔
      ∃ name column, columnNamed current name = none ∧
        columnNamed target name = some column ∧
        change = .addition target.tableName name column := by
  simp only [addedColumns, List.mem_filterMap, Prod.exists,
    mem_entries_columnMap htarget, has_columnMap hcurrent,
    Option.ite_none_left_eq_some, Option.not_isSome_iff_eq_none,
    Option.some.injEq, eq_comm (a := change), and_left_comm]

theorem mem_droppedColumns_iff :
    change ∈ droppedColumns current target ↔
      ∃ name column, columnNamed current name = some column ∧
        columnNamed target name = none ∧
        change = .removal current.tableName name := by
  simp only [droppedColumns, List.mem_filterMap, Prod.exists,
    mem_entries_columnMap hcurrent, has_columnMap htarget,
    Option.ite_none_left_eq_some, Option.not_isSome_iff_eq_none,
    Option.some.injEq, eq_comm (a := change)]

theorem mem_alteredColumns_iff :
    change ∈ alteredColumns current target ↔
      ∃ name currentCol targetCol,
        columnNamed current name = some currentCol ∧
          columnNamed target name = some targetCol ∧
          targetCol.type ≠ currentCol.type ∧
          change = .alteration target.tableName name targetCol := by
  simp only [alteredColumns, List.mem_filterMap, Prod.exists,
    mem_entries_columnMap hcurrent, get_columnMap htarget]
  apply exists₂_congr
  intro name currentCol
  cases columnNamed target name with
  | none => simp
  | some targetCol => simp [eq_comm (a := change)]

end Members

/-! ## The changes as edits -/

/-- One loop over a column map names each column at most once. -/
theorem nodup_columnName_filterMap
    (columns : InsertionMap Text (ColumnDefinition δ))
    {toChange : Text × ColumnDefinition δ → Option (SchemaChange δ)}
    (hname : ∀ entry change, toChange entry = some change →
      change.columnName = entry.1) :
    ((columns.entries.filterMap toChange).map
      SchemaChange.columnName).Nodup := by
  refine List.Nodup.sublist (map_filterMap_sublist ?_) columns.nodup
  intro entry _ change hchange
  exact hname entry change hchange

theorem nodup_columnName_addedColumns (current target : TableSchema δ) :
    ((addedColumns current target).map SchemaChange.columnName).Nodup := by
  apply nodup_columnName_filterMap
  intro entry change hchange
  rw [Option.ite_none_left_eq_some, Option.some.injEq] at hchange
  rw [← hchange.2]
  rfl

theorem nodup_columnName_droppedColumns (current target : TableSchema δ) :
    ((droppedColumns current target).map SchemaChange.columnName).Nodup := by
  apply nodup_columnName_filterMap
  intro entry change hchange
  rw [Option.ite_none_left_eq_some, Option.some.injEq] at hchange
  rw [← hchange.2]
  rfl

theorem nodup_columnName_alteredColumns (current target : TableSchema δ) :
    ((alteredColumns current target).map SchemaChange.columnName).Nodup := by
  apply nodup_columnName_filterMap
  intro entry change hchange
  split at hchange
  · cases hchange
  · rw [Option.ite_none_left_eq_some, Option.some.injEq] at hchange
    rw [← hchange.2]
    rfl

section Edits

variable (hcurrent : DistinctNames current) (htarget : DistinctNames target)

include hcurrent htarget

theorem nodup_columnName_generateDiff :
    ((generateDiff current target).map SchemaChange.columnName).Nodup := by
  rw [generateDiff, List.map_append, List.map_append, List.nodup_append',
    List.nodup_append']
  refine ⟨⟨nodup_columnName_addedColumns current target,
    nodup_columnName_droppedColumns current target, ?_⟩,
    nodup_columnName_alteredColumns current target, ?_⟩
  · intro name hfirst hsecond
    obtain ⟨added, hadded, rfl⟩ := List.mem_map.mp hfirst
    obtain ⟨dropped, hdropped, hsame⟩ := List.mem_map.mp hsecond
    obtain ⟨_, _, hnone, -, rfl⟩ :=
      (mem_addedColumns_iff hcurrent htarget).mp hadded
    obtain ⟨_, _, hsome, -, rfl⟩ :=
      (mem_droppedColumns_iff hcurrent htarget).mp hdropped
    cases hsame
    rw [hnone] at hsome
    cases hsome
  · intro name hfirst hsecond
    obtain ⟨altered, haltered, rfl⟩ := List.mem_map.mp hsecond
    obtain ⟨_, _, _, hsome, htargetSome, -, rfl⟩ :=
      (mem_alteredColumns_iff hcurrent htarget).mp haltered
    rcases List.mem_append.mp hfirst with hfirst | hfirst
    · obtain ⟨added, hadded, hsame⟩ := List.mem_map.mp hfirst
      obtain ⟨_, _, hnone, -, rfl⟩ :=
        (mem_addedColumns_iff hcurrent htarget).mp hadded
      cases hsame
      rw [hnone] at hsome
      cases hsome
    · obtain ⟨dropped, hdropped, hsame⟩ := List.mem_map.mp hfirst
      obtain ⟨_, _, -, hnone, rfl⟩ :=
        (mem_droppedColumns_iff hcurrent htarget).mp hdropped
      cases hsame
      rw [hnone] at htargetSome
      cases htargetSome

theorem mem_generateDiff_iff :
    change ∈ generateDiff current target ↔
      changeOf current target change.columnName = some change := by
  rw [generateDiff, List.mem_append, List.mem_append,
    mem_addedColumns_iff hcurrent htarget,
    mem_droppedColumns_iff hcurrent htarget,
    mem_alteredColumns_iff hcurrent htarget]
  constructor
  · rintro ((⟨name, column, hold, hnew, rfl⟩ | ⟨name, column, hold, hnew, rfl⟩)
      | ⟨name, currentCol, targetCol, hold, hnew, htype, rfl⟩)
    · simp [changeOf, SchemaChange.addition, hold, hnew]
    · simp [changeOf, SchemaChange.removal, hold, hnew]
    · simp [changeOf, SchemaChange.alteration, hold, hnew, htype]
  · intro hchange
    unfold changeOf at hchange
    split at hchange
    · cases hchange
    · rename_i column hold hnew
      exact .inl (.inl ⟨_, column, hold, hnew, (Option.some.inj hchange).symm⟩)
    · rename_i column hold hnew
      exact .inl (.inr ⟨_, column, hold, hnew, (Option.some.inj hchange).symm⟩)
    · rename_i currentCol targetCol hold hnew
      rw [Option.ite_none_left_eq_some, Option.some.injEq] at hchange
      exact .inr ⟨_, currentCol, targetCol, hold, hnew, hchange.1,
        hchange.2.symm⟩

/-- Every change of a difference is an edit of the column that it names. -/
theorem edit_of_mem_generateDiff (htable : current.tableName = target.tableName)
    (hmem : change ∈ generateDiff current target) :
    change.tableName = current.tableName ∧
      ∃ edit, change.edit = some edit ∧
        edit.target ColumnDefinition.name = change.columnName ∧
        edit.Fits ColumnDefinition.name
          (columnNamed current change.columnName) := by
  rw [mem_generateDiff_iff hcurrent htarget] at hmem
  generalize change.columnName = name at hmem ⊢
  unfold changeOf at hmem
  split at hmem
  · cases hmem
  · rename_i column hold hnew
    cases hmem
    exact ⟨htable.symm, .insert column, rfl, name_of_columnNamed hnew, hold⟩
  · cases hmem
    exact ⟨rfl, .remove name, rfl, rfl, trivial⟩
  · rename_i currentCol targetCol hold hnew
    rw [Option.ite_none_left_eq_some, Option.some.injEq] at hmem
    obtain ⟨-, rfl⟩ := hmem
    exact ⟨htable.symm, .amend name fun _ => targetCol, rfl, rfl,
      fun _ _ => name_of_columnNamed hnew⟩

theorem independent_generateDiff
    (htable : current.tableName = target.tableName) :
    Independent ColumnDefinition.name
      ((generateDiff current target).filterMap SchemaChange.edit)
      current.columns := by
  constructor
  · refine List.Nodup.sublist (map_filterMap_sublist ?_)
      (nodup_columnName_generateDiff hcurrent htarget)
    intro change hchange edit hedit
    obtain ⟨-, other, hother, hname, -⟩ :=
      edit_of_mem_generateDiff hcurrent htarget htable hchange
    rw [hedit, Option.some.injEq] at hother
    rw [hother, hname]
  · intro edit hedit
    obtain ⟨change, hchange, hsome⟩ := List.mem_filterMap.mp hedit
    obtain ⟨-, other, hother, hname, hfits⟩ :=
      edit_of_mem_generateDiff hcurrent htarget htable hchange
    rw [hsome, Option.some.injEq] at hother
    subst hother
    rw [hname]
    exact hfits

end Edits

/-- Changes of one table act on its columns as the edits that they are. -/
theorem columns_applyChanges
    (htable : ∀ change ∈ changes, change.tableName = schema.tableName) :
    (applyChanges schema changes).columns =
      applyAll ColumnDefinition.name (changes.filterMap SchemaChange.edit)
        schema.columns := by
  induction changes generalizing schema with
  | nil => rfl
  | cons change changes ih =>
      have hhead := htable change List.mem_cons_self
      have hrest := fun other hother =>
        htable other (List.mem_cons_of_mem change hother)
      rw [applyChanges, List.foldl_cons, ← applyChanges]
      cases hedit : change.edit with
      | none =>
          have hsame : schema.changed change = schema := by
            rw [TableSchema.changed, hedit]
          rw [hsame, List.filterMap_cons_none hedit, ih hrest]
      | some edit =>
          have hchanged : schema.changed change =
              { schema with columns :=
                  edit.apply ColumnDefinition.name schema.columns } := by
            simp only [TableSchema.changed, hedit, if_pos hhead]
          rw [hchanged, List.filterMap_cons_some hedit]
          exact ih hrest

section Result

variable (hcurrent : DistinctNames current) (htarget : DistinctNames target)
  (htable : current.tableName = target.tableName)

include hcurrent htarget htable

theorem columns_applyChanges_generateDiff :
    (applyChanges current (generateDiff current target)).columns =
      applyAll ColumnDefinition.name
        ((generateDiff current target).filterMap SchemaChange.edit)
        current.columns :=
  columns_applyChanges fun _ hchange =>
    (edit_of_mem_generateDiff hcurrent htarget htable hchange).1

theorem distinctNames_applyChanges_generateDiff :
    DistinctNames (applyChanges current (generateDiff current target)) := by
  rw [DistinctNames,
    columns_applyChanges_generateDiff hcurrent htarget htable]
  exact nodup_applyAll (independent_generateDiff hcurrent htarget htable)
    hcurrent

theorem columnNamed_of_changeOf {edit : Edit (ColumnDefinition δ) Text}
    (hchange : changeOf current target name = some change)
    (hedit : change.edit = some edit) :
    columnNamed (applyChanges current (generateDiff current target)) name =
      edit.result (columnNamed current name) := by
  have hcolumn := columnName_of_changeOf hchange
  have hmem : change ∈ generateDiff current target := by
    rw [mem_generateDiff_iff hcurrent htarget, hcolumn]
    exact hchange
  obtain ⟨-, other, hother, hname, -⟩ :=
    edit_of_mem_generateDiff hcurrent htarget htable hmem
  rw [hedit, Option.some.injEq] at hother
  subst hother
  rw [columnNamed, columns_applyChanges_generateDiff hcurrent htarget htable,
    ← hcolumn, ← hname]
  exact rowOf_applyAll_of_mem
    (independent_generateDiff hcurrent htarget htable)
    (List.mem_filterMap.mpr ⟨change, hmem, hedit⟩)

theorem columnNamed_of_changeOf_eq_none
    (hnone : changeOf current target name = none) :
    columnNamed (applyChanges current (generateDiff current target)) name =
      columnNamed current name := by
  rw [columnNamed, columns_applyChanges_generateDiff hcurrent htarget htable]
  apply rowOf_applyAll_of_not_mem
    (independent_generateDiff hcurrent htarget htable)
  intro edit hedit hsame
  obtain ⟨change, hchange, hsome⟩ := List.mem_filterMap.mp hedit
  obtain ⟨-, other, hother, hname, -⟩ :=
    edit_of_mem_generateDiff hcurrent htarget htable hchange
  rw [hsome, Option.some.injEq] at hother
  rw [mem_generateDiff_iff hcurrent htarget, ← hname, ← hother, hsame,
    hnone] at hchange
  cases hchange

/-- What the changes of the difference make of each name. -/
theorem columnNamed_applyChanges_generateDiff (name : Text) :
    columnNamed (applyChanges current (generateDiff current target)) name =
      match columnNamed current name, columnNamed target name with
      | some currentCol, some targetCol =>
          if targetCol.type = currentCol.type then some currentCol
          else some targetCol
      | _, targetCol => targetCol := by
  cases hold : columnNamed current name with
  | none =>
      cases hnew : columnNamed target name with
      | none =>
          rw [columnNamed_of_changeOf_eq_none hcurrent htarget htable, hold]
          simp [changeOf, hold, hnew]
      | some targetCol =>
          have hchange : changeOf current target name =
              some (.addition target.tableName name targetCol) := by
            simp [changeOf, hold, hnew]
          rw [columnNamed_of_changeOf hcurrent htarget htable hchange rfl]
          rfl
  | some currentCol =>
      cases hnew : columnNamed target name with
      | none =>
          have hchange : changeOf current target name =
              some (.removal current.tableName name) := by
            simp [changeOf, hold, hnew]
          rw [columnNamed_of_changeOf hcurrent htarget htable hchange rfl]
          rfl
      | some targetCol =>
          by_cases htype : targetCol.type = currentCol.type
          · rw [columnNamed_of_changeOf_eq_none hcurrent htarget htable, hold]
            · simp [htype]
            · simp [changeOf, hold, hnew, htype]
          · have hchange : changeOf current target name =
                some (.alteration target.tableName name targetCol) := by
              simp [changeOf, hold, hnew, htype]
            rw [columnNamed_of_changeOf hcurrent htarget htable hchange rfl,
              hold]
            simp [Edit.result, htype]

end Result

/-! ## When the changes give the target -/

/-- The changes of the difference give the columns of the target, and there
are none if and only if the columns are the same. -/
structure DiffLaw (current target : TableSchema δ) : Prop where
  transforms :
    SameColumns (applyChanges current (generateDiff current target)) target
  eq_nil_iff : generateDiff current target = [] ↔ SameColumns current target

/-- No column keeps its type and changes its nullability. -/
def NullabilityKept (current target : TableSchema δ) : Prop :=
  ∀ currentCol ∈ current.columns, ∀ targetCol ∈ target.columns,
    currentCol.name = targetCol.name → currentCol.type = targetCol.type →
      currentCol.nullable = targetCol.nullable

theorem sameColumns_iff {left right : TableSchema δ}
    (hleft : DistinctNames left) (hright : DistinctNames right) :
    SameColumns left right ↔
      ∀ name, (columnNamed left name).map ColumnDefinition.shape =
        (columnNamed right name).map ColumnDefinition.shape := by
  refine perm_map_iff ?_ hleft hright
  intro first second hshape
  exact congrArg Prod.fst hshape

theorem generateDiff_eq_nil_iff (hcurrent : DistinctNames current)
    (htarget : DistinctNames target) :
    generateDiff current target = [] ↔
      ∀ name, changeOf current target name = none := by
  rw [List.eq_nil_iff_forall_not_mem]
  constructor
  · intro hnone name
    rw [Option.eq_none_iff_forall_ne_some]
    intro change hchange
    refine hnone change ((mem_generateDiff_iff hcurrent htarget).mpr ?_)
    rw [columnName_of_changeOf hchange]
    exact hchange
  · intro hnone change hmem
    rw [mem_generateDiff_iff hcurrent htarget, hnone] at hmem
    cases hmem

theorem nullable_eq_of_columnNamed (hkept : NullabilityKept current target)
    (hold : columnNamed current name = some currentCol)
    (hnew : columnNamed target name = some targetCol)
    (htype : targetCol.type = currentCol.type) :
    currentCol.shape = targetCol.shape := by
  obtain ⟨hcurrentCol, hcurrentName⟩ := mem_and_key_of_rowOf hold
  obtain ⟨htargetCol, htargetName⟩ := mem_and_key_of_rowOf hnew
  have hname := hcurrentName.trans htargetName.symm
  have hnullable := hkept currentCol hcurrentCol targetCol htargetCol hname
    htype.symm
  rw [ColumnDefinition.shape, ColumnDefinition.shape, hname, htype, hnullable]

theorem changeOf_eq_none_iff (hkept : NullabilityKept current target) :
    changeOf current target name = none ↔
      (columnNamed current name).map ColumnDefinition.shape =
        (columnNamed target name).map ColumnDefinition.shape := by
  unfold changeOf
  split
  · rename_i hold hnew
    simp [hold, hnew]
  · rename_i hold hnew
    simp [hold, hnew]
  · rename_i hold hnew
    simp [hold, hnew]
  · rename_i currentCol targetCol hold hnew
    rw [hold, hnew, Option.map_some, Option.map_some, Option.some.injEq]
    constructor
    · intro hnone
      have htype : targetCol.type = currentCol.type := by
        by_contra hne
        rw [if_neg hne] at hnone
        cases hnone
      exact nullable_eq_of_columnNamed hkept hold hnew htype
    · intro hshape
      rw [if_pos]
      exact (congrArg (fun shape => shape.2.1) hshape).symm

theorem diffLaw_iff_nullabilityKept (hcurrent : DistinctNames current)
    (htarget : DistinctNames target)
    (htable : current.tableName = target.tableName) :
    DiffLaw current target ↔ NullabilityKept current target := by
  have hresult := columnNamed_applyChanges_generateDiff hcurrent htarget htable
  have hsame := sameColumns_iff
    (distinctNames_applyChanges_generateDiff hcurrent htarget htable) htarget
  constructor
  · intro hlaw currentCol hcurrentCol targetCol htargetCol hname htype
    have hold : columnNamed current currentCol.name = some currentCol :=
      rowOf_key_of_mem hcurrent hcurrentCol
    have hnew : columnNamed target currentCol.name = some targetCol := by
      rw [hname]
      exact rowOf_key_of_mem htarget htargetCol
    have hshape := hsame.mp hlaw.transforms currentCol.name
    simp only [hresult, hold, hnew, if_pos htype.symm, Option.map_some,
      Option.some.injEq] at hshape
    exact congrArg (fun shape => shape.2.2) hshape
  · intro hkept
    constructor
    · rw [hsame]
      intro name
      rw [hresult]
      split
      · rename_i currentCol targetCol hold hnew
        rw [hnew]
        split
        · rename_i htype
          rw [Option.map_some, Option.map_some,
            nullable_eq_of_columnNamed hkept hold hnew htype]
        · rfl
      · rfl
    · rw [generateDiff_eq_nil_iff hcurrent htarget,
        sameColumns_iff hcurrent htarget]
      exact forall_congr' fun name => changeOf_eq_none_iff hkept

def oldColumns : TableSchema Unit where
  tableName := ['t']
  columns := [⟨['e'], .string, true, none⟩, ⟨['g'], .date, true, none⟩]

def newColumns : TableSchema Unit where
  tableName := ['t']
  columns := [⟨['n'], .json, true, none⟩, ⟨['e'], .number, false, none⟩]

theorem diffLaw_iff_nullabilityKept_of_new_columns :
    DiffLaw oldColumns newColumns ↔ NullabilityKept oldColumns newColumns :=
  diffLaw_iff_nullabilityKept (by decide) (by decide) rfl

def oneColumn (nullable : Bool) : TableSchema Unit where
  tableName := ['t']
  columns := [⟨['e'], .string, nullable, none⟩]

/-- A column that is no longer nullable is not seen. -/
theorem not_diffLaw_of_nullable :
    DistinctNames (oneColumn true) ∧ DistinctNames (oneColumn false) ∧
      (oneColumn true).tableName = (oneColumn false).tableName ∧
      ¬ DiffLaw (oneColumn true) (oneColumn false) := by
  refine ⟨by decide, by decide, rfl, ?_⟩
  intro hlaw
  have hdiff : generateDiff (oneColumn true) (oneColumn false) = [] := by decide
  have hsame := hlaw.eq_nil_iff.mp hdiff
  revert hsame
  decide

end TsCommons.DataWarehouse
