import SkibidiQL.Dataset.RowChanges

/-!
# INSERT and the index of the primary key

INSERT as the engine runs it: the values of each row are evaluated, checked and coerced, the new key is
looked for in the index of the primary key, and the row goes to the heap and then into the index. The index
of a table is built by a scan when it is first asked for and kept until a statement throws it away.
-/

namespace SkibidiQL

open Bytes

/-- `struct InsertStmt`. -/
structure InsertStmt where
  table : Bytes
  columns : List Bytes := []
  valueRows : List (List Expr)

/-- `NativeEngine::ScanRow`. -/
structure ScanRow where
  id : RowId
  row : EvalRow
deriving DecidableEq

/-- What INSERT and lookups change of the engine: the pages and the indexes that are kept. -/
structure EngineState where
  storage : Storage
  primaryIndexes : NameMap (BPlusTree Value)

/-- Programs of the engine. -/
abbrev EngineM := EStateM Error EngineState

namespace EngineM

/-- Work on the pages. -/
def onStorage {α : Type} (work : StorageM α) : EngineM α := fun st ↦
  match work st.storage with
  | .ok a s => .ok a { st with storage := s }
  | .error error s => .error error { st with storage := s }

/-- The use of a `HeapFile` object that is used again. -/
def onFile {α : Type} (file : HeapFile) (use : HeapM α) : EngineM (α × HeapFile) := fun st ↦
  match use ⟨st.storage, file⟩ with
  | .ok a state => .ok (a, state.file) { st with storage := state.storage }
  | .error error state => .error error { st with storage := state.storage }

end EngineM

/-! ### The values of a row -/

/-- The loop of `executeInsert` over a column list, on one column and its value. -/
def placeValue (table : TableMeta) (tuple : Tuple) (item : Bytes × Expr) : Except Error Tuple :=
  match table.columns.findIdx? (·.name == item.1) with
  | none => throw (lit "Unknown column: " ++ item.1)
  | some position => do pure (tuple.set position (← eval item.2 {}))

/-- The tuple that `executeInsert` makes of a row of values. -/
def insertTuple (table : TableMeta) (columns : List Bytes) (values : List Expr) : Except Error Tuple :=
  if columns.isEmpty then
    if values.length ≠ table.columns.length then throw (lit "INSERT value count does not match table schema")
    else values.mapM (eval · {})
  else if values.length ≠ columns.length then
    throw (lit "INSERT value count does not match column list")
  else (columns.zip values).foldlM (placeValue table) (List.replicate table.columns.length .null)

/-- The result of an INSERT. -/
def insertResult (rows : Nat) : NativeQueryResult where
  rowsAffected := rows
  message := lit "inserted " ++ ofNat rows ++ lit " row(s)"

namespace NativeEngine

variable (engine : NativeEngine)

/-! ### The index -/

/-- `NativeEngine::primaryIndex`. -/
def primaryIndex (table : Bytes) : EngineM (BPlusTree Value) := do
  match (← get).primaryIndexes[table]? with
  | some index => pure index
  | none =>
    match engine.catalog.tables[table]? with
    | none => throw (lit "Unknown table: " ++ table)
    | some metadata =>
      match primaryColumn metadata with
      | none => throw (lit "Table has no primary key index: " ++ table)
      | some (position, _) => do
        let rows ← EngineM.onStorage (engine.scanHeap table)
        let index ← EStateM.answer (buildIndex (keyedRows position rows))
        modify fun st ↦ { st with primaryIndexes := st.primaryIndexes.insert table index }
        pure index

/-- `NativeEngine::lookupPrimaryKey`. A row id that the heap does not know any more makes it throw the index
away and start again; `none` is a lookup that has started `fuel` times without an answer. -/
def lookupPrimaryKey (table alias' : Bytes) (key : Value) : Nat → EngineM (Option (List ScanRow))
  | 0 => pure none
  | fuel + 1 =>
    match engine.catalog.tables[table]? with
    | none => throw (lit "Unknown table: " ++ table)
    | some metadata => do
      let index ← engine.primaryIndex table
      match index.find Value.compare key with
      | none => pure (some [])
      | some id => do
        let path ← EStateM.answer (tablePath table)
        match ← EngineM.onStorage (onHeap path (HeapFile.read id)) with
        | none =>
          modify fun st ↦ { st with primaryIndexes := st.primaryIndexes.erase table }
          lookupPrimaryKey table alias' key fuel
        | some stored =>
          pure (some [⟨stored.id, bindRow (boundColumns metadata table alias') stored⟩])

/-! ### INSERT -/

/-- The check of the primary key in `validateAndCoerce`, of a new row. -/
def checkNewKey (table : TableMeta) (tuple : Tuple) : EngineM Unit :=
  table.columns.zipIdx.forM fun (column, position) ↦
    if column.primaryKey then do
      let index ← engine.primaryIndex table.name
      if (index.find Value.compare (tuple.getD position .null)).isSome then
        throw (lit "Duplicate primary key for table " ++ table.name)
    else pure ()

/-- `NativeEngine::validateAndCoerce`, for a new row. -/
def validateNewRow (table : TableMeta) (tuple : Tuple) : EngineM Tuple := do
  let tuple ← EStateM.answer (coerceTuple table tuple)
  engine.checkNewKey table tuple
  EngineM.onStorage (engine.validateForeignKeys table tuple)
  pure tuple

/-- The entry of a new row in the index. -/
def indexRow (table : TableMeta) (tuple : Tuple) (id : RowId) : EngineM Unit :=
  match primaryColumn table with
  | none => pure ()
  | some (position, _) => do
    let index ← engine.primaryIndex table.name
    let (index, result) := index.insert Value.compare (tuple.getD position .null) id
    modify fun st ↦ { st with primaryIndexes := st.primaryIndexes.insert table.name index }
    EStateM.answer result

/-- The loop of `executeInsert`, on one row. -/
def insertRow (table : TableMeta) (columns : List Bytes) (file : HeapFile) (values : List Expr) :
    EngineM HeapFile := do
  let tuple ← EStateM.answer (insertTuple table columns values)
  let tuple ← engine.validateNewRow table tuple
  let (id, file) ← EngineM.onFile file (HeapFile.insert tuple)
  engine.indexRow table tuple id
  pure file

/-- The `try` of `executeInsert`: an exception passes once the index is thrown away and the file is as it was
before. -/
def restoringInsert {α : Type} (table : Bytes) (path : Path) (before : Option Bytes) (body : EngineM α) :
    EngineM α := fun st ↦
  match body st with
  | .ok a st => .ok a st
  | .error error st => (do
    modify fun st ↦ { st with primaryIndexes := st.primaryIndexes.erase table }
    EngineM.onStorage (rollBack path before)
    throw error : EngineM α) st

/-- `NativeEngine::executeInsert`. -/
def executeInsert (statement : InsertStmt) : EngineM NativeQueryResult :=
  match engine.catalog.tables[statement.table]? with
  | none => throw (lit "Unknown table: " ++ statement.table)
  | some table => do
    let path ← EStateM.answer (tablePath statement.table)
    EngineM.onStorage (modify (Storage.flushFile · path))
    let disk := (← get).storage.disk
    let before := if disk.contains path then some (disk.read path) else none
    restoringInsert statement.table path before do
      let file ← statement.valueRows.foldlM (engine.insertRow table statement.columns) { path }
      EngineM.onStorage (modify (Storage.flushFile · file.path))
    pure (insertResult statement.valueRows.length)

end NativeEngine

end SkibidiQL
