import SkibidiQL.Catalog.CatalogSteps
import SkibidiQL.Index.BPlusTreePopulated
import SkibidiQL.Query.Select
import SkibidiQL.Storage.HeapFileSpec

/-!
# The database that a query reads

A query sees the catalog and, for each table, the rows that a scan of its heap lists. A `Database` carries
what the storage layer and the checks of the statements that write guarantee of them: no row id occurs
twice, rows have the width of their table, values that its columns admit and an encoding that fits on a page,
and columns have different names. That the tables of the engine are such a database is `exists_database`.
-/

namespace SkibidiQL

open Bytes

/-! ### Values of a column -/

/-- Spellings of INTEGER. -/
def integerTypes : List Bytes := ["INTEGER", "INT"].map lit

/-- Spellings of REAL. -/
def realTypes : List Bytes := ["REAL", "FLOAT", "DOUBLE"].map lit

/-- Spellings of TEXT. -/
def textTypes : List Bytes := ["TEXT", "VARCHAR", "STRING"].map lit

/-- `NativeEngine::declaredValueType`. -/
def declaredValueType (column : ColumnMeta) : Except Error ValueType :=
  let type := upper column.type
  if type ∈ integerTypes then pure .integer
  else if type ∈ realTypes then pure .real
  else if type ∈ textTypes then pure .text
  else if type = lit "BLOB" then pure .blob
  else throw (lit "Unsupported column type: " ++ column.type)

/-- The value of a stored row in a column. -/
def StoredRow.field (row : StoredRow) (column : Nat) : Value :=
  row.values.getD column .null

/-- What the checks of `validateAndCoerce` leave in a column: a value of its declared type, or NULL where the
column allows it. -/
def ColumnMeta.Admits (column : ColumnMeta) (value : Value) : Prop :=
  if value.isNull then column.notNull = false ∧ column.primaryKey = false
  else declaredValueType column = .ok value.type

instance (column : ColumnMeta) (value : Value) : Decidable (column.Admits value) :=
  inferInstanceAs (Decidable (if value.isNull then column.notNull = false ∧ column.primaryKey = false
    else declaredValueType column = .ok value.type))

/-! ### The database -/

/-- The catalog and the rows of the heap of each table, in the order of a scan. -/
structure Database where
  catalog : Catalog
  stored : Bytes → List StoredRow
  /-- A row id belongs to one row: `HeapFile::scan` visits each slot of each page once. -/
  nodup : ∀ name, ((stored name).map (·.id)).Nodup
  /-- The rows of a table have its columns: `validateAndCoerce` checks the width. -/
  width : ∀ name (table : TableMeta), catalog.tables[name]? = some table →
    ∀ row ∈ stored name, row.values.length = table.columns.length
  /-- The values are those that the columns admit: `validateAndCoerce` coerces them and looks for NULL. -/
  admitted : ∀ (name : Bytes) (table : TableMeta), catalog.tables[name]? = some table →
    ∀ row ∈ stored name, ∀ item ∈ table.columns.zip row.values, item.1.Admits item.2
  /-- The encoding of a row fits on a page: it is read from one. -/
  storable : ∀ name, ∀ row ∈ stored name, HeapFile.Storable row.values
  /-- The columns of a table have different names: `executeCreate` throws for a duplicate. -/
  columns_nodup : ∀ (name : Bytes) (table : TableMeta), catalog.tables[name]? = some table →
    (table.columns.map (·.name)).Nodup

namespace Database

variable (db : Database)

/-- `Catalog::getTable`, where a missing table is an error. -/
def table (name : Bytes) : Except Error TableMeta :=
  match db.catalog.tables[name]? with
  | some table => pure table
  | none => throw (lit "Unknown table: " ++ name)

/-- `HeapFile::read`. -/
def read (name : Bytes) (id : RowId) : Option StoredRow :=
  (db.stored name).find? (·.id == id)

/-- The primary keys that the catalog records are unique, by `Value::operator==`. -/
def KeysUnique : Prop :=
  ∀ (name : Bytes) (table : TableMeta), db.catalog.tables[name]? = some table →
    ∀ (index : Nat) (column : ColumnMeta), table.columns[index]? = some column → column.primaryKey →
      (db.stored name).Pairwise fun row row' ↦ ¬(row.field index == row'.field index)

end Database

/-- A catalog of one table holds that table. -/
theorem eq_of_addTable {table table' : TableMeta} {name : Bytes}
    (h : (({} : Catalog).addTable table).tables[name]? = some table') :
    name = table.name ∧ table' = table := by
  rw [Catalog.addTable, Std.ExtTreeMap.getElem?_insert] at h
  split at h
  · rename_i hname
    exact ⟨(Std.LawfulEqCmp.eq_of_compare hname).symm, (Option.some.inj h).symm⟩
  · simp at h

/-- A database of one table. -/
def Database.single (table : TableMeta) (rows : List StoredRow) (nodup : (rows.map (·.id)).Nodup)
    (width : ∀ row ∈ rows, row.values.length = table.columns.length)
    (admitted : ∀ row ∈ rows, ∀ item ∈ table.columns.zip row.values, item.1.Admits item.2)
    (storable : ∀ row ∈ rows, HeapFile.Storable row.values)
    (columns_nodup : (table.columns.map (·.name)).Nodup) : Database where
  catalog := ({} : Catalog).addTable table
  stored name := if name = table.name then rows else []
  nodup name := by
    split
    · exact nodup
    · exact List.nodup_nil
  width name table' htable row hrow := by
    obtain ⟨rfl, rfl⟩ := eq_of_addTable htable
    exact width row (by simpa using hrow)
  admitted name table' htable row hrow := by
    obtain ⟨rfl, rfl⟩ := eq_of_addTable htable
    exact admitted row (by simpa using hrow)
  storable name row hrow := by
    split at hrow
    · exact storable row hrow
    · cases hrow
  columns_nodup name table' htable := by
    obtain ⟨rfl, rfl⟩ := eq_of_addTable htable
    exact columns_nodup

/-! ### Rows of a table -/

/-- The columns that `boundSchema` lists. -/
def boundColumns (table : TableMeta) (name alias' : Bytes) : List BoundColumn :=
  table.columns.map fun column ↦ { table := name, alias', name := column.name }

/-- A stored row with the columns of its table. -/
def bindRow (columns : List BoundColumn) (row : StoredRow) : EvalRow :=
  { columns := some columns, values := row.values }

/-- `NativeEngine::scanTable`. -/
def scanTable (db : Database) (name alias' : Bytes) : Except Error (List EvalRow) := do
  let table ← db.table name
  pure ((db.stored name).map (bindRow (boundColumns table name alias')))

/-- `executeSelect` on one table by a full scan. -/
def scanSelect (order : GroupOrder) (db : Database) (statement : SelectStmt) : Except Error NativeQueryResult := do
  genericSelect order db.catalog statement (← scanTable db statement.fromTable statement.fromAlias)

/-- The condition holds on the row. -/
def HoldsOnRow (condition : Expr) (row : EvalRow) : Prop :=
  ∃ value, eval condition row = .ok value ∧ value.asBoolean

/-! ### Coercion -/

/-- `NativeEngine::coerceValue`. -/
def coerceValue (column : ColumnMeta) (value : Value) : Except Error Value :=
  let type := upper column.type
  if value.isNull then pure value
  else if type ∈ integerTypes then
    if value.isNumeric then do pure (.integer (← value.asInteger))
    else throw (lit "Expected INTEGER for " ++ column.name)
  else if type ∈ realTypes then
    if value.isNumeric then pure (.ofFloat value.toFloat)
    else throw (lit "Expected REAL for " ++ column.name)
  else if type ∈ textTypes then pure (.text value.toString)
  else if type = lit "BLOB" then
    if value.type = .blob then pure value else throw (lit "Expected BLOB for " ++ column.name)
  else throw (lit "Unsupported column type: " ++ column.type)

/-! ### The primary key -/

/-- The first column with the mark of a primary key, and its position. -/
def primaryColumn (table : TableMeta) : Option (Nat × ColumnMeta) :=
  (table.columns.zipIdx.find? (·.1.primaryKey)).map fun item ↦ (item.2, item.1)

/-- The lambda `match` of `primaryKeyPredicate`: the literal that the column is compared with. -/
def keyLiteral (primary : ColumnMeta) (table alias' : Bytes) (columnNode valueNode : Expr) :
    Option Literal :=
  match columnNode, valueNode with
  | .column column, .literal value =>
    if column.column = primary.name ∧
        (column.table.isEmpty ∨ column.table = table ∨ column.table = alias') then
      some value
    else none
  | _, _ => none

/-- The literal that `primaryKeyPredicate` finds in a condition: that of the first equation, from the
left, of a conjunction. -/
def keyPredicate (primary : ColumnMeta) (table alias' : Bytes) : Expr → Option Literal
  | .binary .and left right _ =>
    (keyPredicate primary table alias' left).or (keyPredicate primary table alias' right)
  | .binary .eq left right _ =>
    (keyLiteral primary table alias' left right).or (keyLiteral primary table alias' right left)
  | _ => none

/-- `NativeEngine::primaryKeyPredicate`: the key, in the type of the column. -/
def primaryKeyPredicate (catalog : Catalog) (table alias' : Bytes) (condition : Option Expr) :
    Except Error (Option Value) :=
  match catalog.tables[table]?, condition with
  | some metadata, some condition =>
    match primaryColumn metadata with
    | some (_, primary) =>
      match keyPredicate primary table alias' condition with
      -- The literal is converted as on insertion, which may throw.
      | some value => do pure (some (← coerceValue primary (literalValue value)))
      | none => pure none
    | none => pure none
  | _, _ => pure none

/-- The keys and the ids of stored rows. -/
def keyedRows (position : Nat) (rows : List StoredRow) : List (Value × RowId) :=
  rows.map fun row ↦ (row.field position, row.id)

/-- `primaryIndex`: the rows are inserted one by one. -/
def buildIndex (entries : List (Value × RowId)) : Except Error (BPlusTree Value) :=
  BPlusTree.build Value.compare 32 entries

/-! ### Columns of one table -/

/-- The loop of the lambda `resolveColumnIndex` over the remaining columns. -/
def resolveTableColumnFrom (column : ColumnRef) :
    List ColumnMeta → Nat → Option Nat → Except Error (Option Nat)
  | [], _, result => pure result
  | candidate :: rest, index, result =>
    if candidate.name ≠ column.column then resolveTableColumnFrom column rest (index + 1) result
    else if result.isSome && column.table.isEmpty then
      throw (lit "Ambiguous column: " ++ column.column)
    else resolveTableColumnFrom column rest (index + 1) (some index)

/-- The lambda `resolveColumnIndex`, which the fast paths over one table declare each for itself. -/
def resolveTableColumn (table : TableMeta) (name alias' : Bytes) (column : ColumnRef) :
    Except Error Nat :=
  if !column.table.isEmpty && column.table != name && column.table != alias' then
    throw (lit "Unknown table qualifier: " ++ column.table)
  else do
    match ← resolveTableColumnFrom column table.columns 0 none with
    | some index => pure index
    | none => throw (lit "Unknown column: " ++ column.text)

/-! ### Raw rows -/

/-- The set of the columns to decode, in its order. -/
def requiredColumns (table : TableMeta) (columns : List Nat) : List Nat :=
  (List.range table.columns.length).filter (columns.contains ·)

/-- `decodeRawProjectedInto` on a stored row: the fields are those of the values in the columns. -/
def rawFields (columns : List Nat) (row : StoredRow) : Except Error Tuple := do
  HeapFile.decodeTupleProjected (← HeapFile.encodeTuple row.values) columns

/-- `decodeRawColumn` on a stored row. -/
def rawColumn (column : Nat) (row : StoredRow) : Except Error Value := do
  let (count, bytes) ← HeapFile.readPod 2 (← HeapFile.encodeTuple row.values)
  if column ≥ count then throw (lit "Invalid projected tuple column")
  else
    let fields ← HeapFile.decodeFields [column] count 0 bytes
    match fields with
    | field :: _ => pure field
    | [] => throw (lit "Invalid projected tuple column")

/-- The decoded field of a column. -/
def fieldAt (message : Bytes) (required : List Nat) (fields : Tuple) (column : Nat) : Except Error Value :=
  match (required.idxOf? column).bind (fields[·]?) with
  | some field => pure field
  | none => throw message

end SkibidiQL
