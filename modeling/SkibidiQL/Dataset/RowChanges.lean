import SkibidiQL.Dataset.TableStatements
import SkibidiQL.Query.Database

/-!
# UPDATE and DELETE

What UPDATE and DELETE evaluate and check for a row, and the statements on the file of their table. The
checks scan the files of tables and change none of them: they keep what the scans keep
(`keeps_updateChange`, `keeps_deleteSelects`).
-/

namespace SkibidiQL

open Bytes

/-- `struct Assignment`. -/
structure Assignment where
  column : Bytes
  value : Expr

/-- `struct UpdateStmt`. -/
structure UpdateStmt where
  table : Bytes
  sets : List Assignment
  where' : Option Expr := none

/-- `struct DeleteStmt`. -/
structure DeleteStmt where
  table : Bytes
  where' : Option Expr := none

/-! ### One row -/

/-- The test of WHERE. -/
def whereHolds (where' : Option Expr) (row : EvalRow) : Except Error Bool :=
  match where' with
  | none => pure true
  | some condition => do pure (← eval condition row).asBoolean

/-- One assignment of SET, evaluated on the row as it was scanned. -/
def assign (table : TableMeta) (row : EvalRow) (updated : Tuple) (assignment : Assignment) :
    Except Error Tuple :=
  match table.columns.findIdx? (·.name == assignment.column) with
  | none => throw (lit "Unknown column: " ++ assignment.column)
  | some position => do pure (updated.set position (← eval assignment.value row))

/-- `validateAndCoerce` on one column. -/
def coerceField (column : ColumnMeta) (value : Value) : Except Error Value := do
  let value ← coerceValue column value
  if (column.notNull || column.primaryKey) && value.isNull then
    throw (lit "NULL violates constraint on " ++ column.name)
  else pure value

/-- `validateAndCoerce` up to the loop over the columns. -/
def coerceTuple (table : TableMeta) (tuple : Tuple) : Except Error Tuple :=
  if tuple.length ≠ table.columns.length then throw (lit "Tuple width does not match schema")
  else (table.columns.zip tuple).mapM fun item ↦ coerceField item.1 item.2

/-! ### The engine -/

/-- What a statement uses of `NativeEngine` beside the pool: the catalog and the batch size of scans. -/
structure NativeEngine where
  catalog : Catalog
  batchSize : Nat

/-- `NativeEngine::tablePath`. -/
def tablePath (table : Bytes) : Except Error Path :=
  if table.all fun ch ↦ isAlnum ch || ch == 95 then pure (lit "tables/" ++ table ++ lit ".heap")
  else throw (lit "Unsafe table name: " ++ table)

/-- The files of tables. -/
def IsTableFile (path : Path) : Prop :=
  ∃ table, tablePath table = .ok path

namespace NativeEngine

variable (engine : NativeEngine)

/-- `heap(table).scan()`. -/
def scanHeap (table : Bytes) : StorageM (List StoredRow) := do
  let path ← EStateM.answer (tablePath table)
  onHeap path (HeapFile.scan engine.batchSize)

/-- The check of the primary key in `validateAndCoerce`, of a row that replaces another. -/
def checkPrimaryKey (table : TableMeta) (tuple : Tuple) (replacing : RowId) : StorageM Unit :=
  table.columns.zipIdx.forM fun (column, index) ↦
    if column.primaryKey then do
      let rows ← engine.scanHeap table.name
      if rows.any fun row ↦ row.id != replacing && row.field index == tuple.getD index .null then
        throw (lit "Duplicate primary key for table " ++ table.name)
    else pure ()

/-- `NativeEngine::validateForeignKeys`. -/
def validateForeignKeys (table : TableMeta) (tuple : Tuple) : StorageM Unit :=
  table.columns.zipIdx.forM fun (column, index) ↦
    if column.fkTable.isEmpty || (tuple.getD index .null).isNull then pure ()
    else match engine.catalog.tables[column.fkTable]? with
      | none => throw (lit "Foreign key table does not exist: " ++ column.fkTable)
      | some foreign =>
        match foreign.columns.findIdx? (·.name == column.fkCol) with
        | none => throw (lit "Foreign key column does not exist: " ++ column.fkCol)
        | some position => do
          let rows ← engine.scanHeap foreign.name
          if rows.any fun row ↦ row.field position == tuple.getD index .null then pure ()
          else throw (lit "Foreign key constraint failed on " ++ column.name)

/-- `NativeEngine::validateAndCoerce`, for a row that replaces another. -/
def validateAndCoerce (table : TableMeta) (tuple : Tuple) (replacing : RowId) : StorageM Tuple := do
  let tuple ← EStateM.answer (coerceTuple table tuple)
  engine.checkPrimaryKey table tuple replacing
  engine.validateForeignKeys table tuple
  pure tuple

/-- `NativeEngine::validateNoIncomingReferences`. -/
def validateNoIncomingReferences (table : TableMeta) (tuple : Tuple) (replacement : Option Tuple) :
    StorageM Unit :=
  engine.catalog.tables.toList.forM fun (_, referencing) ↦
    referencing.columns.zipIdx.forM fun (foreignColumn, foreignIndex) ↦
      if foreignColumn.fkTable ≠ table.name then pure ()
      else match table.columns.findIdx? (·.name == foreignColumn.fkCol) with
        | none => pure ()
        | some target =>
          if replacement.any fun new ↦ tuple.getD target .null == new.getD target .null then pure ()
          else do
            let rows ← engine.scanHeap referencing.name
            if rows.any fun row ↦ !(row.field foreignIndex).isNull &&
                row.field foreignIndex == tuple.getD target .null then
              throw (lit "Row is referenced by " ++ referencing.name ++ lit "." ++ foreignColumn.name)

/-- What the loop of `executeUpdate` makes of a row before it is written: nothing if WHERE does not hold. -/
def updateChange (table : TableMeta) (statement : UpdateStmt) (row : StoredRow) :
    StorageM (Option Tuple) := do
  let bound := bindRow (boundColumns table statement.table statement.table) row
  if ← EStateM.answer (whereHolds statement.where' bound) then
    let updated ← EStateM.answer (statement.sets.foldlM (assign table bound) row.values)
    let updated ← engine.validateAndCoerce table updated row.id
    engine.validateNoIncomingReferences table row.values (some updated)
    pure (some updated)
  else pure none

/-- What the loop of `executeDelete` finds out about a row before it is erased. -/
def deleteSelects (table : TableMeta) (statement : DeleteStmt) (row : StoredRow) : StorageM Bool := do
  let bound := bindRow (boundColumns table statement.table statement.table) row
  if ← EStateM.answer (whereHolds statement.where' bound) then
    engine.validateNoIncomingReferences table row.values none
    pure true
  else pure false

end NativeEngine

/-! ### Reading -/

section Reading

variable {heaps : Path → Prop}

/-- The decoding of a page leaves the page as it is. -/
theorem keeps_decodePage (decode : Bytes → Except Error Tuple) (page : Nat) :
    EStateM.Keeps Eq (HeapFile.decodePage decode page) := by
  apply EStateM.Keeps.get_bind
  intro guard
  dsimp only
  split
  · rfl
  · split <;> rfl

/-- Looking at a page of a heap file, which may be missing. -/
theorem reads_withPage {α : Type} (key : PageKey) (hheap : heaps key.file) {use : GuardM α}
    (huse : EStateM.Keeps Eq use) :
    EStateM.Keeps (ReadsPages heaps) (Storage.withPage key false use) := by
  intro s hok
  by_cases hfile : key.file ∈ s.disk.files
  · obtain ⟨s', guard, hstep, hfirst, -, hrun⟩ := hok.withPage key false use hheap hfile
    rw [← hfirst.setFirst_self] at hstep
    rw [EStateM.final, hrun]
    rcases hresult : use guard with ⟨a, guard'⟩ | ⟨error, guard'⟩
    · rwa [huse.ok hresult] at hstep
    · rwa [huse.error hresult] at hstep
  · obtain ⟨s', hstep, hrun⟩ := hok.fetch_missing key hfile
    rw [EStateM.final_of_error (show Storage.withPage key false use s = _ from EStateM.bind_of_error hrun)]
    exact hstep

namespace HeapFile

/-- The same file, of which pages have been read. -/
def Reads (heaps : Path → Prop) (state state' : HeapState) : Prop :=
  state'.file.path = state.file.path ∧
    (heaps state.file.path → ReadsPages heaps state.storage state'.storage)

instance (heaps : Path → Prop) : IsPreorder HeapState (Reads heaps) where
  refl state := ⟨rfl, fun _ ↦ refl state.storage⟩
  trans state state' state'' h h' := by
    refine ⟨h'.1.trans h.1, fun hheap ↦ ?_⟩
    exact IsTrans.trans _ _ _ (h.2 hheap) (h'.2 (h.1 ▸ hheap))

/-- Counting the pages only reads. -/
theorem reads_pageCount : EStateM.Keeps (Reads heaps) pageCount := by
  apply EStateM.Keeps.get_bind
  intro state
  split
  · exact refl state
  · exact ⟨rfl, fun _ ↦ refl state.storage⟩

/-- Decoding a page only reads. -/
theorem reads_decodePage (decode : Bytes → Except Error Tuple) (page : Nat) :
    EStateM.Keeps (Reads heaps) (withPage page false (decodePage decode page)) := by
  apply EStateM.Keeps.get_bind
  intro state
  have hreads := fun hheap : heaps state.file.path ↦
    reads_withPage ⟨state.file.path, page⟩ hheap (keeps_decodePage decode page)
  rw [EStateM.final, onStorage]
  rcases hrun : Storage.withPage ⟨state.file.path, page⟩ false (decodePage decode page) state.storage
    with ⟨rows, s⟩ | ⟨error, s⟩
  · exact ⟨rfl, fun hheap ↦ (hreads hheap).ok hrun⟩
  · exact ⟨rfl, fun hheap ↦ (hreads hheap).error hrun⟩

theorem reads_scanPages (decode : Bytes → Except Error Tuple) (pages : List Nat) :
    EStateM.Keeps (Reads heaps) (scanPages decode pages) := by
  induction pages with
  | nil => exact .pure []
  | cons page pages ih => exact (reads_decodePage decode page).bind fun _ ↦ ih.bind fun _ ↦ .pure _

theorem reads_scan (batchSize : Nat) : EStateM.Keeps (Reads heaps) (scan batchSize) := by
  refine .bind (.ite (fun _ ↦ .throw _) fun _ ↦ .bind (.ite (fun _ ↦ .throw _) fun _ ↦ .pure ()) fun _ ↦ ?_)
    fun _ ↦ .pure _
  exact reads_pageCount.bind fun _ ↦ (reads_scanPages _ _).bind fun _ ↦ .pure _

end HeapFile

namespace NativeEngine

variable (engine : NativeEngine)

/-- Scanning a table only reads. -/
theorem reads_scanHeap (table : Bytes) :
    EStateM.Keeps (ReadsPages IsTableFile) (engine.scanHeap table) := by
  intro s
  rcases hpath : tablePath table with error | path
  · rw [EStateM.final, scanHeap, hpath]
    exact refl s
  · have hrun : engine.scanHeap table s = onHeap path (HeapFile.scan engine.batchSize) s := by
      rw [scanHeap, hpath]
      rfl
    have hreads : EStateM.Keeps (HeapFile.Reads IsTableFile) (HeapFile.scan engine.batchSize) :=
      HeapFile.reads_scan engine.batchSize
    rw [EStateM.final, hrun, onHeap]
    rcases hscan : HeapFile.scan engine.batchSize ⟨s, { path }⟩ with ⟨rows, state⟩ | ⟨error, state⟩
    · exact (hreads.ok hscan).2 ⟨table, hpath⟩
    · exact (hreads.error hscan).2 ⟨table, hpath⟩

/-! ### What the work on a row keeps -/

section Keeps

variable {R : Storage → Storage → Prop} [IsPreorder Storage R]
  (hscan : ∀ table, EStateM.Keeps R (engine.scanHeap table))

include hscan

/-- Checking a key keeps what scans keep. -/
theorem keeps_checkPrimaryKey (table : TableMeta) (tuple : Tuple) (replacing : RowId) :
    EStateM.Keeps R (engine.checkPrimaryKey table tuple replacing) := by
  refine .forM fun item ↦ .ite (fun _ ↦ ?_) fun _ ↦ .pure _
  exact (hscan _).bind fun _ ↦ .ite (fun _ ↦ .throw _) fun _ ↦ .pure _

/-- Checking references keeps what scans keep. -/
theorem keeps_validateForeignKeys (table : TableMeta) (tuple : Tuple) :
    EStateM.Keeps R (engine.validateForeignKeys table tuple) := by
  refine .forM fun item ↦ .ite (fun _ ↦ .pure _) fun _ ↦ ?_
  split
  · exact .throw _
  · split
    · exact .throw _
    · exact (hscan _).bind fun _ ↦ .ite (fun _ ↦ .pure _) fun _ ↦ .throw _

/-- Checking a row keeps what scans keep. -/
theorem keeps_validateAndCoerce (table : TableMeta) (tuple : Tuple) (replacing : RowId) :
    EStateM.Keeps R (engine.validateAndCoerce table tuple replacing) :=
  (EStateM.Keeps.answer _).bind fun _ ↦ (engine.keeps_checkPrimaryKey hscan _ _ _).bind fun _ ↦
    (engine.keeps_validateForeignKeys hscan _ _).bind fun _ ↦ .pure _

/-- Looking for references to a row keeps what scans keep. -/
theorem keeps_validateNoIncomingReferences (table : TableMeta) (tuple : Tuple)
    (replacement : Option Tuple) :
    EStateM.Keeps R (engine.validateNoIncomingReferences table tuple replacement) := by
  refine .forM fun item ↦ .forM fun item' ↦ .ite (fun _ ↦ .pure _) fun _ ↦ ?_
  split
  · exact .pure _
  · refine .ite (fun _ ↦ .pure _) fun _ ↦ ?_
    exact (hscan _).bind fun _ ↦ .ite (fun _ ↦ .throw _) fun _ ↦ .pure _

/-- What `UPDATE` asks of a row keeps what scans keep. -/
theorem keeps_updateChange (table : TableMeta) (statement : UpdateStmt) (row : StoredRow) :
    EStateM.Keeps R (engine.updateChange table statement row) := by
  refine (EStateM.Keeps.answer _).bind fun _ ↦ .ite (fun _ ↦ ?_) fun _ ↦ .pure _
  exact (EStateM.Keeps.answer _).bind fun _ ↦ (engine.keeps_validateAndCoerce hscan _ _ _).bind fun _ ↦
    (engine.keeps_validateNoIncomingReferences hscan _ _ _).bind fun _ ↦ .pure _

/-- What `DELETE` asks of a row keeps what scans keep. -/
theorem keeps_deleteSelects (table : TableMeta) (statement : DeleteStmt) (row : StoredRow) :
    EStateM.Keeps R (engine.deleteSelects table statement row) :=
  (EStateM.Keeps.answer _).bind fun _ ↦ .ite
    (fun _ ↦ (engine.keeps_validateNoIncomingReferences hscan _ _ _).bind fun _ ↦ .pure _) fun _ ↦ .pure _

end Keeps

end NativeEngine

end Reading

/-! ### The statements -/

namespace NativeEngine

variable (engine : NativeEngine)

/-- The table of a statement. -/
def tableOf (name : Bytes) (table : TableMeta) (path : Path) : Table where
  name
  path
  columns := table.columns.length
  batchSize := engine.batchSize

/-- `NativeEngine::executeUpdate`, listing what it does to the rows. -/
def executeUpdate (statement : UpdateStmt) : StorageM (List RowEvent) :=
  match engine.catalog.tables[statement.table]? with
  | none => throw (lit "Unknown table: " ++ statement.table)
  | some table => do
    let path ← EStateM.answer (tablePath statement.table)
    SkibidiQL.executeUpdate (engine.tableOf statement.table table path) fun row ↦
      ⟨engine.updateChange table statement row,
        engine.keeps_updateChange engine.reads_scanHeap table statement row⟩

/-- `NativeEngine::executeDelete`, listing what it does to the rows. -/
def executeDelete (statement : DeleteStmt) : StorageM (List RowEvent) :=
  match engine.catalog.tables[statement.table]? with
  | none => throw (lit "Unknown table: " ++ statement.table)
  | some table => do
    let path ← EStateM.answer (tablePath statement.table)
    SkibidiQL.executeDelete (engine.tableOf statement.table table path) fun row ↦
      ⟨engine.deleteSelects table statement row,
        engine.keeps_deleteSelects engine.reads_scanHeap table statement row⟩

end NativeEngine

/-- The result of an UPDATE. -/
def updateResult (events : List RowEvent) : NativeQueryResult where
  rowsAffected := events.length
  message := lit "updated " ++ ofNat events.length ++ lit " row(s)"

/-- The result of a DELETE. -/
def deleteResult (events : List RowEvent) : NativeQueryResult where
  rowsAffected := events.length
  message := lit "deleted " ++ ofNat events.length ++ lit " row(s)"

end SkibidiQL
