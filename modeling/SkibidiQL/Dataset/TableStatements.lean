import SkibidiQL.Storage.HeapRestore
import SkibidiQL.Storage.HeapPlacement
import SkibidiQL.Storage.HeapScan

/-!
# INSERT, UPDATE and DELETE

A statement works on the heap file of its table through an object of its own. It flushes the file, keeps its
bytes, changes row after row, and flushes again; when anything throws, the bytes are written back. What a
statement evaluates for a row, checks of keys and references included, reads pages and changes none
(`ReadOnly`).

A statement lists what it did to each row (`RowEvent`). The engine counts the rows only.
-/

namespace SkibidiQL

/-- The second storage comes from the first by reading. -/
def ReadsPages (heaps : Path → Prop) (s s' : Storage) : Prop :=
  StorageOK heaps s → PoolStep heaps s s'

instance (heaps : Path → Prop) : IsPreorder Storage (ReadsPages heaps) where
  refl _ hok := .refl hok
  trans _ _ _ h h' hok := (h hok).trans (h' (h hok).ok)

/-- Work that reads pages and changes no row. -/
def ReadOnly (heaps : Path → Prop) (α : Type) : Type :=
  { work : StorageM α // EStateM.Keeps (ReadsPages heaps) work }

/-- The same value, whatever the pages hold. -/
def ReadOnly.pure {heaps : Path → Prop} {α : Type} (a : α) : ReadOnly heaps α :=
  ⟨Pure.pure a, .pure a⟩

/-- A table as its statements see it, and the batch size of scans. -/
structure Table where
  name : Bytes
  path : Path
  columns : Nat
  batchSize : Nat

/-- What a statement did to a row. -/
inductive RowEvent where
  | inserted (id : RowId)
  | updated (old new : RowId)
  | erased (id : RowId)
deriving DecidableEq

/-- A row of an INSERT: its values, evaluated, checked and coerced, and its entry in the primary index. -/
structure RowInput (heaps : Path → Prop) where
  tuple : ReadOnly heaps Tuple
  index : Tuple → RowId → ReadOnly heaps Unit

variable {heaps : Path → Prop}

/-- The use of a new `HeapFile` object. -/
def onHeap {α : Type} (path : Path) (use : HeapM α) : StorageM α := fun s ↦
  match use ⟨s, { path }⟩ with
  | .ok a state => .ok a state.storage
  | .error error state => .error error state.storage

/-- `NativeEngine::scanTable`, without binding the rows to the columns. -/
def Table.scanTable (table : Table) : StorageM (List StoredRow) := do
  let stored ← onHeap table.path (HeapFile.scan table.batchSize)
  if stored.any fun row ↦ row.values.length != table.columns then
    throw (lit "Tuple/schema width mismatch in " ++ table.name)
  pure stored

/-- The loop of `NativeEngine::executeInsert`. -/
def insertRows : List (RowInput heaps) → HeapM (List RowEvent)
  | [] => pure []
  | row :: rows => do
    let tuple ← HeapFile.onStorage row.tuple.1
    let id ← HeapFile.insert tuple
    HeapFile.onStorage (row.index tuple id).1
    pure (.inserted id :: (← insertRows rows))

/-- The loop of `NativeEngine::executeUpdate`; a row that the condition does not select has no new version. -/
def updateRows (change : StoredRow → ReadOnly heaps (Option Tuple)) : List StoredRow → HeapM (List RowEvent)
  | [] => pure []
  | row :: rows => do
    match ← HeapFile.onStorage (change row).1 with
    | none => updateRows change rows
    | some tuple =>
      let id ← HeapFile.update row.id tuple
      pure (.updated row.id id :: (← updateRows change rows))

/-- The loop of `NativeEngine::executeDelete`. -/
def deleteRows (selects : StoredRow → ReadOnly heaps Bool) : List StoredRow → HeapM (List RowEvent)
  | [] => pure []
  | row :: rows => do
    if ← HeapFile.onStorage (selects row).1 then
      if ← HeapFile.erase row.id then
        pure (.erased row.id :: (← deleteRows selects rows))
      else deleteRows selects rows
    else deleteRows selects rows

/-- The changes of a statement, with the flush behind them. -/
def thenFlush (changes : HeapM (List RowEvent)) : HeapM (List RowEvent) := do
  let events ← changes
  HeapFile.flush
  pure events

/-- The `try` of a statement: an exception passes once the file is as it was before. -/
def restoring {α : Type} (path : Path) (before : Option Bytes) (body : StorageM α) : StorageM α := fun s ↦
  match body s with
  | .ok a s => .ok a s
  | .error error s => (do rollBack path before; throw error : StorageM α) s

/-- `NativeEngine::executeInsert`. -/
def executeInsert (table : Table) (rows : List (RowInput heaps)) : StorageM (List RowEvent) := do
  modify (Storage.flushFile · table.path)
  let s ← get
  let before := if s.disk.contains table.path then some (s.disk.read table.path) else none
  restoring table.path before (onHeap table.path (thenFlush (insertRows rows)))

/-- `NativeEngine::executeUpdate`. -/
def executeUpdate (table : Table) (change : StoredRow → ReadOnly heaps (Option Tuple)) :
    StorageM (List RowEvent) := do
  modify (Storage.flushFile · table.path)
  let s ← get
  restoring table.path (some (s.disk.read table.path)) do
    let rows ← table.scanTable
    onHeap table.path (thenFlush (updateRows change rows))

/-- `NativeEngine::executeDelete`. -/
def executeDelete (table : Table) (selects : StoredRow → ReadOnly heaps Bool) : StorageM (List RowEvent) := do
  modify (Storage.flushFile · table.path)
  let s ← get
  restoring table.path (some (s.disk.read table.path)) do
    let rows ← table.scanTable
    onHeap table.path (thenFlush (deleteRows selects rows))

/-! ### Statements on other tables -/

/-- The storage has changed and the table has not. -/
structure LeavesAlone (heaps : Path → Prop) (path : Path) (s s' : Storage) : Prop where
  ok : StorageOK heaps s'
  settled : Settled s'
  rows : ∀ page, SlottedPage.rowAt (s'.page ⟨path, page⟩) = SlottedPage.rowAt (s.page ⟨path, page⟩)
  stored : path ∈ s'.disk.files
  flushed : Flushed s' path

/-- Work on the rest of the database, done between two statements on the table. -/
def Elsewhere (heaps : Path → Prop) (path : Path) : Type :=
  { work : StorageM Unit // ∀ s rows, TableOK heaps path rows s → LeavesAlone heaps path s (work.final s) }

/-- What happens to a table. -/
inductive TableStatement (heaps : Path → Prop) (path : Path) where
  | insert (rows : List (RowInput heaps))
  | update (change : StoredRow → ReadOnly heaps (Option Tuple))
  | delete (selects : StoredRow → ReadOnly heaps Bool)
  | elsewhere (work : Elsewhere heaps path)

/-- The statement. -/
def TableStatement.execute (table : Table) : TableStatement heaps table.path → StorageM (List RowEvent)
  | .insert rows => executeInsert table rows
  | .update change => executeUpdate table change
  | .delete selects => executeDelete table selects
  | .elsewhere work => do
    work.1
    pure []

end SkibidiQL
