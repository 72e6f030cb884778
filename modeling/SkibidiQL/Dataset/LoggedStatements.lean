import SkibidiQL.Dataset.KeyedInsert
import SkibidiQL.Dataset.SnapshotCreate
import SkibidiQL.Storage.NativeWal

/-!
# Statements with the write-ahead log

The statements that change the database as `NativeEngine::execute` runs them: the image of a file goes to the
log before the file is written, a statement outside of a transaction commits by itself, and one that throws is
undone from the log. A transaction of several statements keeps the log open until it commits.
-/

namespace SkibidiQL

open Bytes NativeWal

/-- What the statements of a session change of `NativeEngine`. The logged files are those of
`walLoggedFiles_`, in the order of the log. -/
structure NativeSession extends EngineState where
  catalog : Catalog := {}
  contextResultCache : NameMap NativeQueryResult := ∅
  walTransactionId : UInt64 := 0
  walLoggedFiles : List Path := []
  transactionActive : Bool := false
  transactionSnapshot : Files := ∅

/-- Programs of a session. -/
abbrev SessionM := EStateM Error NativeSession

/-- `catalog.json`. -/
def catalogPath : Path :=
  lit "catalog.json"

namespace SessionM

/-- Work on the pages and the indexes. -/
def onEngine {α : Type} (work : EngineM α) : SessionM α := fun st ↦
  match work st.toEngineState with
  | .ok a engine => .ok a { st with toEngineState := engine }
  | .error error engine => .error error { st with toEngineState := engine }

/-- Work on the pages. -/
def onStorage {α : Type} (work : StorageM α) : SessionM α :=
  onEngine (EngineM.onStorage work)

/-- A change of the disk. -/
def performWrite (write : Write) : SessionM Unit :=
  modify fun st ↦ { st with storage.disk := st.storage.disk.perform write }

/-! ### The log -/

/-- `NativeEngine::beginWalTransaction`, with the id that `NativeWal::begin` draws. -/
def beginWalTransaction (stamp : UInt64) : SessionM Unit := do
  if (← get).walTransactionId = 0 then
    performWrite (begin stamp)
    modify fun st ↦ { st with walTransactionId := stamp, walLoggedFiles := [] }

/-- `NativeEngine::recordWalBefore`. -/
def recordWalBefore (path : Path) : SessionM Unit :=
  modify fun st ↦
    if st.walTransactionId = 0 || path ∈ st.walLoggedFiles then st
    else
      { st with
        walLoggedFiles := st.walLoggedFiles ++ [path]
        storage.disk := st.storage.disk.perform
          (logBefore st.walTransactionId path st.storage.disk.files[path]?) }

/-- `NativeEngine::commitWalTransaction`. -/
def commitWalTransaction : SessionM Unit := do
  let id := (← get).walTransactionId
  if id ≠ 0 then
    performWrite (commit id)
    modify fun st ↦ { st with walTransactionId := 0, walLoggedFiles := [] }

/-- `NativeEngine::reloadCatalog`. -/
def reloadCatalog : SessionM Unit :=
  modify fun st ↦ { st with catalog := .load {} st.storage.disk.files[catalogPath]? }

/-- `NativeEngine::discardWalTransaction`. -/
def discardWalTransaction : SessionM Unit := do
  if (← get).walTransactionId ≠ 0 then
    modify fun st ↦ { st with walTransactionId := 0, walLoggedFiles := [] }
    onStorage Storage.discardAll
    modify fun st ↦ { st with storage.disk := recover st.storage.disk, primaryIndexes := ∅ }
    reloadCatalog

/-- `NativeEngine::saveCatalog`. -/
def saveCatalog : SessionM Unit := do
  recordWalBefore catalogPath
  performWrite (.truncate catalogPath)
  performWrite (.write catalogPath 0 (← get).catalog.save)

/-- `NativeEngine::flushUnlocked`. -/
def flushUnlocked : SessionM Unit := do
  onStorage (modify Storage.flushAll)
  saveCatalog

/-- The index of a table is thrown away. -/
def forgetIndex (table : Bytes) : SessionM Unit :=
  modify fun st ↦ { st with primaryIndexes := st.primaryIndexes.erase table }

/-- A change of the catalog. -/
def modifyCatalog (change : Catalog → Catalog) : SessionM Unit :=
  modify fun st ↦ { st with catalog := change st.catalog }

end SessionM

open SessionM

/-! ### The statements -/

/-- The engine over a catalog. -/
def NativeSession.engine (st : NativeSession) (batchSize : Nat) : NativeEngine :=
  ⟨st.catalog, batchSize⟩

/-- The columns of a new table. -/
def createColumns (catalog : Catalog) (statement : CreateStmt) : Except Error (List ColumnMeta) :=
  statement.columns.foldlM catalog.createColumn []

namespace SessionM

/-- `NativeEngine::executeCreate`. -/
def executeCreate (statement : CreateStmt) : SessionM NativeQueryResult := do
  let catalog := (← get).catalog
  if statement.table ∈ catalog.tables then
    if statement.ifNotExists then pure {}
    else throw (lit "Table already exists: " ++ statement.table)
  else
    let columns ← EStateM.answer (createColumns catalog statement)
    let path ← EStateM.answer (tablePath statement.table)
    recordWalBefore path
    onStorage (onHeap path HeapFile.create)
    modifyCatalog (·.addTable { name := statement.table, columns })
    saveCatalog
    forgetIndex statement.table
    pure { message := lit "created table " ++ statement.table }

/-- `NativeEngine::executeDrop`. -/
def executeDrop (statement : DropStmt) : SessionM NativeQueryResult := do
  let catalog := (← get).catalog
  if statement.table ∈ catalog.tables then
    if catalog.isReferenced statement.table then
      throw (lit "Cannot drop referenced table " ++ statement.table)
    else
      let path ← EStateM.answer (tablePath statement.table)
      -- Dirty pages go to the file first, since the before-image is that of the file.
      onStorage (modify (Storage.flushFile · path))
      recordWalBefore path
      onStorage (onHeap path HeapFile.drop)
      forgetIndex statement.table
      modifyCatalog (·.removeTable statement.table)
      saveCatalog
      pure { message := lit "dropped table " ++ statement.table }
  else if statement.ifExists then pure {}
  else throw (lit "Unknown table: " ++ statement.table)

/-- `NativeEngine::executeInsert`. -/
def executeInsert (batchSize : Nat) (statement : InsertStmt) : SessionM NativeQueryResult := do
  let st ← get
  match st.catalog.tables[statement.table]? with
  | none => throw (lit "Unknown table: " ++ statement.table)
  | some table => do
    let path ← EStateM.answer (tablePath statement.table)
    onStorage (modify (Storage.flushFile · path))
    let before := (← get).storage.disk.files[path]?
    recordWalBefore path
    onEngine (NativeEngine.restoringInsert statement.table path before do
      let file ← statement.valueRows.foldlM ((st.engine batchSize).insertRow table statement.columns) { path }
      EngineM.onStorage (modify (Storage.flushFile · file.path)))
    pure (insertResult statement.valueRows.length)

/-- `NativeEngine::executeUpdate` and `NativeEngine::executeDelete` on the rows of the table: the rows are
scanned, changed one after another, and the file is flushed. -/
def changeRows (batchSize : Nat) (name : Bytes)
    (change : NativeEngine → TableMeta → List StoredRow → HeapM (List RowEvent)) : SessionM (List RowEvent) := do
  let st ← get
  match st.catalog.tables[name]? with
  | none => throw (lit "Unknown table: " ++ name)
  | some table => do
    let path ← EStateM.answer (tablePath name)
    onStorage (modify (Storage.flushFile · path))
    let before := (← get).storage.disk.read path
    recordWalBefore path
    let events ← onStorage (restoring path (some before) do
      let rows ← ((st.engine batchSize).tableOf name table path).scanTable
      onHeap path (thenFlush (change (st.engine batchSize) table rows)))
    forgetIndex name
    pure events

/-- `NativeEngine::executeUpdate`. -/
def executeUpdate (batchSize : Nat) (statement : UpdateStmt) : SessionM NativeQueryResult := do
  let events ← changeRows batchSize statement.table fun engine table ↦ updateRows fun row ↦
    ⟨engine.updateChange table statement row, engine.keeps_updateChange engine.reads_scanHeap table statement row⟩
  pure (updateResult events)

/-- `NativeEngine::executeDelete`. -/
def executeDelete (batchSize : Nat) (statement : DeleteStmt) : SessionM NativeQueryResult := do
  let events ← changeRows batchSize statement.table fun engine table ↦ deleteRows fun row ↦
    ⟨engine.deleteSelects table statement row, engine.keeps_deleteSelects engine.reads_scanHeap table statement row⟩
  pure (deleteResult events)

/-- `NativeEngine::executeCreateSnapshot`. -/
def executeCreateSnapshot (generate : SelectStmt → Bytes) (batchSize : Nat) (statement : CreateSnapshotStmt) :
    SessionM NativeQueryResult := do
  let st ← get
  let snapshot ← onStorage ((st.engine batchSize).createdSnapshot generate statement)
  modifyCatalog (·.addSnapshot snapshot)
  saveCatalog
  pure (createSnapshotResult snapshot)

/-- The results of context queries are cached, or thrown away. -/
def setContextResults (contextResultCache : NameMap NativeQueryResult) : SessionM Unit :=
  modify fun st ↦ { st with contextResultCache }

/-- The context statements. Those that change a context (`executeCreateContext`, `executeAppendMemory`,
`executeTagMemory`, `executeAliasTab` and `executeMergeTabs`) save the catalog and clear the cache; the queries
(`executeSpillContext`, `executeExplainContext` and `executeShowContextObjects`) fill it. -/
def executePrompt (statement : PromptStatement) : SessionM NativeQueryResult := do
  let st ← get
  let (result, state) ← EStateM.answer
    (PromptState.execute { catalog := st.catalog, contextResultCache := st.contextResultCache } statement)
  if statement.isQuery then setContextResults state.contextResultCache
  else
    modifyCatalog fun _ ↦ state.catalog
    saveCatalog
    setContextResults state.contextResultCache
  pure result

end SessionM

/-- The statements for which `NativeEngine::statementMutatesPersistentState` holds. -/
inductive DatabaseStatement where
  | create (statement : CreateStmt)
  | drop (statement : DropStmt)
  | insert (statement : InsertStmt)
  | update (statement : UpdateStmt)
  | delete (statement : DeleteStmt)
  | createSnapshot (statement : CreateSnapshotStmt)
  /-- `CreateContextStmt`. -/
  | createContext (name : Bytes)
  /-- `AppendMemoryStmt`, `TagMemoryStmt`, `AliasTabStmt` and `MergeTabsStmt`. -/
  | context (statement : ContextStatement)

/-- What the engine is configured with: the batch size of scans and the text of a query, as `CodeGen::generate`
makes it. -/
structure EngineConfig where
  batchSize : Nat
  generate : SelectStmt → Bytes

variable (config : EngineConfig)

/-- The lambda `runStatement` of `NativeEngine::execute`. -/
def DatabaseStatement.run : DatabaseStatement → SessionM NativeQueryResult
  | .create statement => SessionM.executeCreate statement
  | .drop statement => SessionM.executeDrop statement
  | .insert statement => SessionM.executeInsert config.batchSize statement
  | .update statement => SessionM.executeUpdate config.batchSize statement
  | .delete statement => SessionM.executeDelete config.batchSize statement
  | .createSnapshot statement => SessionM.executeCreateSnapshot config.generate config.batchSize statement
  | .createContext name => SessionM.executePrompt (.create name)
  | .context statement => SessionM.executePrompt (.change statement)

/-! ### Committing -/

namespace SessionM

/-- A `try` block whose handler discards the open transaction and passes the exception on. -/
def orDiscard {α : Type} (body : SessionM α) : SessionM α := fun st ↦
  match body st with
  | .ok a st => .ok a st
  | .error error st => (do discardWalTransaction; throw error : SessionM α) st

/-- `NativeEngine::execute`, of a statement outside of a transaction. -/
def autocommit (stamp : UInt64) (statement : DatabaseStatement) : SessionM NativeQueryResult :=
  orDiscard do
    beginWalTransaction stamp
    let result ← statement.run config
    flushUnlocked
    commitWalTransaction
    performWrite checkpoint
    pure result

/-- `NativeEngine::execute`. -/
def execute (stamp : UInt64) (statement : DatabaseStatement) : SessionM NativeQueryResult := do
  if (← get).transactionActive then statement.run config
  else autocommit config stamp statement

/-- `NativeEngine::beginTransaction`. -/
def beginTransaction (stamp : UInt64) : SessionM Unit := do
  if (← get).transactionActive then throw (lit "A transaction is already active")
  else
    flushUnlocked
    modify fun st ↦ { st with transactionSnapshot := st.storage.disk.files }
    beginWalTransaction stamp
    modify fun st ↦ { st with transactionActive := true }

/-- `NativeEngine::commitTransaction`. -/
def commitTransaction : SessionM Unit := do
  if (← get).transactionActive then
    flushUnlocked
    commitWalTransaction
    performWrite checkpoint
    modify fun st ↦ { st with transactionSnapshot := ∅, transactionActive := false }
  else throw (lit "No transaction is active")

/-- `NativeEngine::rollbackTransaction`: the directory is emptied and its files are written again. -/
def rollbackTransaction : SessionM Unit := do
  let st ← get
  if st.transactionActive then
    onStorage Storage.discardAll
    st.storage.disk.files.keys.forM fun path ↦ performWrite (.remove path)
    st.transactionSnapshot.toList.forM fun item ↦ do
      performWrite (.truncate item.1)
      performWrite (.write item.1 0 item.2)
    modify fun st ↦ { st with primaryIndexes := ∅ }
    reloadCatalog
    modify fun st ↦
      { st with transactionSnapshot := ∅, transactionActive := false, walTransactionId := 0, walLoggedFiles := [] }
    performWrite checkpoint
  else throw (lit "No transaction is active")

end SessionM

/-- The constructor of `NativeEngine`, on a database directory. -/
def openEngine (disk : Disk) (capacityPages : Nat) (iteration : IterationOrder) : NativeSession where
  storage := { disk := recover disk, pool := .new capacityPages iteration }
  primaryIndexes := ∅
  catalog := .load {} (recover disk).files[catalogPath]?

end SkibidiQL
