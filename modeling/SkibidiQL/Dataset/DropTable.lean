import SkibidiQL.Catalog.CatalogReachable
import SkibidiQL.Dataset.RowChanges
import SkibidiQL.Storage.HeapUpdate

/-!
# DROP TABLE

`executeDrop` removes the heap file of the table, takes the table out of the catalog and saves the catalog.
When the catalog cannot be saved, it adds the table again and writes the bytes of the file back. In a
transaction nothing else is undone. `Catalog::removeTable` has also taken the snapshots of the table away,
and nobody brings them back (`executeDrop_restores_iff`).
-/

namespace SkibidiQL

open SlottedPage

/-! ### The statement -/

/-- What DDL statements change of the engine: the pages, the catalog, and the file that it is saved in. -/
structure DatabaseState where
  storage : Storage
  catalog : Catalog
  catalogFile : Option Bytes

/-- Programs over the database. -/
abbrev DatabaseM := EStateM Error DatabaseState

/-- The content of a file, when it exists. -/
def Storage.fileContent (s : Storage) (path : Path) : Option Bytes :=
  if s.disk.contains path then some (s.disk.read path) else none

/-- `NativeEngine::readFile` of a file that exists; it has no bytes of one that cannot be opened for reading. -/
def Storage.readFile (s : Storage) (reads : Bool) (path : Path) : Option Bytes :=
  (s.fileContent path).map fun bytes ↦ if reads then bytes else []

/-- `NativeEngine::restoreFile`, when the file may be impossible to open for writing. -/
def tryRestoreFile (opens : Bool) (path : Path) (bytes : Option Bytes) : StorageM Unit := do
  if opens || bytes.isNone then restoreFile path bytes
  else
    Storage.invalidateFile path
    throw (lit "Failed restoring heap file")

namespace DatabaseM

/-- Work on the pages. -/
def onStorage {α : Type} (work : StorageM α) : DatabaseM α := fun st ↦
  match work st.storage with
  | .ok a storage => .ok a { st with storage }
  | .error error storage => .error error { st with storage }

/-- A change of the catalog. -/
def modifyCatalog (change : Catalog → Catalog) : DatabaseM Unit :=
  modify fun st ↦ { st with catalog := change st.catalog }

/-- A call that throws this exception, if any. -/
def raise : Option Error → DatabaseM Unit
  | none => pure ()
  | some error => throw error

/-- `NativeEngine::saveCatalog`, with the exception that saving throws. -/
def saveCatalog (fault : Option Error) : DatabaseM Unit := do
  raise fault
  modify fun st ↦ { st with catalogFile := some st.catalog.save }

/-- A `try` whose handler passes the exception on. -/
def orUndo (body undo : DatabaseM Unit) : DatabaseM Unit := fun st ↦
  match body st with
  | .ok a st' => .ok a st'
  | .error error st' => (do undo; throw error : DatabaseM Unit) st'

end DatabaseM

/-- What the file system refuses in the course of a DROP. -/
structure DropFaults where
  /-- The heap file can be opened to keep its bytes. -/
  reads : Bool := true
  /-- The exception of `recordWalBefore` on the heap file. -/
  log : Option Error := none
  /-- The exception of `saveCatalog` behind the removal. -/
  save : Option Error := none
  /-- The heap file can be opened to write it back. -/
  opens : Bool := true
  /-- The exception of `saveCatalog` in the handler. -/
  saveAgain : Option Error := none

open DatabaseM

/-- The `try` block of `executeDrop`. -/
def dropTable (faults : DropFaults) (table : Bytes) (path : Path) : DatabaseM Unit := do
  onStorage (onHeap path HeapFile.drop)
  modifyCatalog (·.removeTable table)
  saveCatalog faults.save

/-- The handler of `executeDrop`. -/
def undoDrop (faults : DropFaults) (backup : TableMeta) (path : Path) (bytes : Option Bytes) :
    DatabaseM Unit := do
  modifyCatalog (·.addTable backup)
  onStorage (tryRestoreFile faults.opens path bytes)
  saveCatalog faults.saveAgain

/-- `NativeEngine::executeDrop`. -/
def executeDrop (faults : DropFaults) (statement : DropStmt) : DatabaseM NativeQueryResult := do
  let catalog := (← get).catalog
  match catalog.tables[statement.table]? with
  | none =>
    if statement.ifExists then pure {}
    else throw (lit "Unknown table: " ++ statement.table)
  | some backup =>
    if catalog.isReferenced statement.table then
      throw (lit "Cannot drop referenced table " ++ statement.table)
    let path ← EStateM.answer (tablePath statement.table)
    onStorage (modify (Storage.flushFile · path))
    let bytes := (← get).storage.readFile faults.reads path
    raise faults.log
    orUndo (dropTable faults statement.table path) (undoDrop faults backup path bytes)
    pure { message := lit "dropped table " ++ statement.table }

/-! ### Databases -/

/-- New objects for the heap files of a storage. -/
def HeapSession.freshOn (storage : Storage) : HeapSession :=
  ⟨storage, fun path ↦ { path }⟩

namespace DatabaseState

/-- A new database. -/
def new (root : Bytes) (capacityPages : Nat) (iteration : IterationOrder) : DatabaseState :=
  ⟨(HeapSession.new root capacityPages iteration).storage, {}, none⟩

/-- The database closed and opened again, or rolled back to a transaction that began here. -/
def reopen (st : DatabaseState) (capacityPages : Nat) (iteration : IterationOrder) : DatabaseState where
  storage := { disk := st.storage.flushAll.disk, pool := .new capacityPages iteration }
  catalog := .load {} (some st.catalog.save)
  catalogFile := some st.catalog.save

/-- The states of a database, over any run of the steps that its statements consist of. -/
inductive Reachable : DatabaseState → Prop where
  | new (root : Bytes) (capacityPages : Nat) (iteration : IterationOrder) :
    Reachable (new root capacityPages iteration)
  /-- Work on heap files: the rows of a statement, its scans, and what the pool does meanwhile. -/
  | heapFiles {st : DatabaseState} (ops : List HeapOp) :
    Reachable st → (HeapSession.freshOn st.storage).SmallFiles ops →
    Reachable { st with storage := ((HeapSession.freshOn st.storage).reached ops).storage }
  /-- The heap file of a new table. -/
  | create {st : DatabaseState} (path : Path) :
    Reachable st → Reachable { st with storage := (onHeap path HeapFile.create).final st.storage }
  /-- The removal of a heap file. -/
  | drop {st : DatabaseState} (path : Path) :
    Reachable st → Reachable { st with storage := (onHeap path HeapFile.drop).final st.storage }
  /-- A heap file gets the bytes back that it had when a statement flushed it. -/
  | restore {old st : DatabaseState} (path : Path) :
    Reachable old → Reachable st →
    Reachable { st with
      storage := (restoreFile path ((old.storage.flushFile path).fileContent path)).final st.storage }
  | catalog {st : DatabaseState} {catalog' : Catalog} :
    Reachable st → st.catalog.Step catalog' → Reachable { st with catalog := catalog' }
  | save {st : DatabaseState} :
    Reachable st → Reachable { st with catalogFile := some st.catalog.save }
  | reopen {st : DatabaseState} (capacityPages : Nat) (iteration : IterationOrder) :
    Reachable st → Reachable (st.reopen capacityPages iteration)

/-- The rows of every heap file and the entries of the catalog are the same. -/
structure SameContent (st st' : DatabaseState) : Prop where
  rows : ∀ path id, st'.storage.rowsAt path id = st.storage.rowsAt path id
  tables : st'.catalog.tables = st.catalog.tables
  snapshots : st'.catalog.snapshots = st.catalog.snapshots
  contexts : st'.catalog.contexts = st.catalog.contexts

end DatabaseState

/-! ### Files that are removed and written back -/

section Storage

variable {heaps : Path → Prop} {s : Storage} {path : Path}

/-- The content of a file is what the disk holds. -/
theorem fileContent_eq (s : Storage) (path : Path) : s.fileContent path = s.disk.files[path]? := by
  rw [Storage.fileContent]
  split
  · next hcontains =>
    have hmem : path ∈ s.disk.files := Std.ExtTreeMap.contains_iff_mem.1 hcontains
    rw [Disk.read, Std.ExtTreeMap.getD_eq_getD_getElem?, Std.ExtTreeMap.getElem?_eq_some_getElem hmem]
    rfl
  · next hcontains =>
    exact (Std.ExtTreeMap.getElem?_eq_none fun hmem ↦
      hcontains (Std.ExtTreeMap.contains_iff_mem.2 hmem)).symm

theorem fileContent_getD (s : Storage) (path : Path) :
    (s.fileContent path).getD [] = s.disk.files.getD path [] := by
  rw [fileContent_eq, Std.ExtTreeMap.getD_eq_getD_getElem?]

/-- Restoring a file never fails and puts the bytes back. -/
theorem StorageOK.restoreFile_eq (h : StorageOK heaps s) (path : Path) (bytes : Option Bytes) :
    restoreFile path bytes s = .ok () (s.backTo path bytes) := by
  rw [restoreFile, EStateM.bind_of_ok (h.invalidateFile path)]
  rfl

/-- The object forgets the file once it is gone. -/
theorem HeapFile.drop_eq (h : StorageOK heaps s) (file : HeapFile) :
    HeapFile.drop ⟨s, file⟩ = .ok () ⟨(s.flushFile file.path).backTo file.path none,
      { file with knownPageCount := some 0, insertPageHint := none }⟩ := by
  have hflush : HeapFile.flush ⟨s, file⟩ = .ok () ⟨s.flushFile file.path, file⟩ := rfl
  have hinvalidate : HeapFile.onStorage (Storage.invalidateFile file.path) ⟨s.flushFile file.path, file⟩ =
      .ok () ⟨(s.flushFile file.path).without file.path, file⟩ := by
    rw [HeapFile.onStorage, (h.flushFile file.path).ok.invalidateFile file.path]
  let remove : HeapState → HeapState := fun state ↦
    if state.storage.disk.contains state.file.path then
      { state with storage.disk := state.storage.disk.perform (.remove state.file.path) }
    else state
  have hremove : remove ⟨(s.flushFile file.path).without file.path, file⟩ =
      ⟨(s.flushFile file.path).backTo file.path none, file⟩ := by
    show (if (s.flushFile file.path).disk.contains file.path = true then _ else _) = _
    rw [Storage.backTo, restored]
    split <;> rfl
  have hmodify : (modify remove : HeapM Unit) ⟨(s.flushFile file.path).without file.path, file⟩ =
      .ok () ⟨(s.flushFile file.path).backTo file.path none, file⟩ :=
    congrArg (EStateM.Result.ok ()) hremove
  rw [HeapFile.drop, EStateM.bind_of_ok hflush]
  refine (EStateM.bind_of_ok hinvalidate).trans (.trans (EStateM.bind_of_ok hmodify) ?_)
  rfl

theorem StorageOK.drop_eq (h : StorageOK heaps s) (path : Path) :
    onHeap path HeapFile.drop s = .ok () ((s.flushFile path).backTo path none) := by
  rw [onHeap, HeapFile.drop_eq h]

/-- The rows of other files stay. -/
theorem StorageOK.rowsAt_backTo (h : StorageOK heaps s) (content : Option Bytes) {other : Path}
    (hother : other ≠ path) (id : RowId) : (s.backTo path content).rowsAt other id = s.rowsAt other id := by
  have hpage : (s.backTo path content).page ⟨other, id.page⟩ = s.page ⟨other, id.page⟩ := by
    by_cases hin : ∃ frame ∈ s.pool.frames, frame.key = ⟨other, id.page⟩
    · obtain ⟨frame, hmem, hkey⟩ := hin
      have hkept : frame ∈ (s.backTo path content).pool.frames :=
        mem_without.2 ⟨hmem, by rwa [hkey]⟩
      rw [← hkey, page_of_mem h.nodup hmem,
        page_of_mem (s := s.backTo path content) (h.without path).nodup hkept]
    · rw [page_of_not_mem fun frame hmem hkey ↦ hin ⟨frame, hmem, hkey⟩,
        page_of_not_mem (s := s.backTo path content) fun frame hmem hkey ↦
          hin ⟨frame, (mem_without.1 hmem).1, hkey⟩, diskPage_backTo hother]
  rw [Storage.rowsAt, hpage, Storage.rowsAt]

/-- What a statement that flushes the file reads of it has the rows of the file. -/
theorem StorageOK.rowAt_fileContent (h : StorageOK heaps s) (hheap : heaps path) (id : RowId) :
    rowAt (pageOfFile (((s.flushFile path).fileContent path).getD []) id.page) id.slot = s.rowsAt path id := by
  have hflush := h.flushFile path
  rw [fileContent_getD]
  show rowAt (diskPage (s.flushFile path).disk.files ⟨path, id.page⟩) id.slot = _
  rw [(flushed_flushFile s path).rows_eq hflush.ok hheap, hflush.rows]
  rfl

/-- The content of a flushed heap file is well-formed pages. -/
theorem StorageOK.pagesOK_fileContent (h : StorageOK heaps s) (hheap : heaps path) :
    PagesOK (((s.flushFile path).fileContent path).getD []) := by
  rw [fileContent_getD]
  exact (h.flushFile path).ok.files.pagesOK hheap

theorem StorageOK.flushedTwice (h : StorageOK heaps s) (path : Path) :
    PoolStep heaps s ((s.flushFile path).flushFile path) :=
  (h.flushFile path).trans ((h.flushFile path).ok.flushFile path)

/-- The storage stays well formed when a heap file is dropped. -/
theorem StorageOK.dropped (h : StorageOK heaps s) (path : Path) :
    StorageOK heaps (((s.flushFile path).flushFile path).backTo path none) :=
  (h.flushedTwice path).ok.backTo fun _ ↦ pagesOK_nil

/-- The file is removed, and what it had is written back. -/
theorem StorageOK.rowsAt_dropped (h : StorageOK heaps s) (hheap : heaps path) (other : Path) (id : RowId) :
    ((((s.flushFile path).flushFile path).backTo path none).backTo path
      ((s.flushFile path).fileContent path)).rowsAt other id = s.rowsAt other id := by
  by_cases hother : other = path
  · subst hother
    rw [SkibidiQL.rowsAt_backTo, h.rowAt_fileContent hheap]
  · rw [(h.dropped path).rowsAt_backTo _ hother, (h.flushedTwice path).ok.rowsAt_backTo _ hother]
    exact congrFun ((h.flushedTwice path).rows _) _

theorem rowAt_nil (id : RowId) : rowAt (pageOfFile [] id.page) id.slot = none := by
  rw [pageOfFile_beyond (Nat.zero_le _), rowAt_zero]

/-- The file is removed and stays away. -/
theorem StorageOK.rowsAt_lost (h : StorageOK heaps s) (path other : Path) (id : RowId) :
    (((s.flushFile path).flushFile path).backTo path none).rowsAt other id =
      if other = path then none else s.rowsAt other id := by
  split
  · next hother =>
    rw [hother, SkibidiQL.rowsAt_backTo]
    exact rowAt_nil id
  · next hother =>
    rw [(h.flushedTwice path).ok.rowsAt_backTo _ hother]
    exact congrFun ((h.flushedTwice path).rows _) _

/-- The file is removed, and written again without a byte. -/
theorem StorageOK.rowsAt_emptied (h : StorageOK heaps s) (path other : Path) (id : RowId) :
    ((((s.flushFile path).flushFile path).backTo path none).backTo path (some [])).rowsAt other id =
      if other = path then none else s.rowsAt other id := by
  split
  · next hother =>
    rw [hother, SkibidiQL.rowsAt_backTo]
    exact rowAt_nil id
  · next hother =>
    rw [(h.dropped path).rowsAt_backTo _ hother, h.rowsAt_lost, if_neg hother]

end Storage

/-! ### Reachable databases -/

namespace Represents

variable {session : HeapSession} {s : Storage} {m : HeapMaps} {path : Path}

theorem freshOn (h : Represents session m) : Represents (.freshOn session.storage) m :=
  ⟨h.ok, h.settled, fun _ ↦ rfl, fun _ ↦ nofun, h.exist, h.holds⟩

theorem storageOK (h : Represents (.freshOn s) m) : StorageOK (fun _ ↦ True) s :=
  h.ok

/-- A file gets another content, or is removed. -/
theorem backTo (h : Represents (.freshOn s) m) {content : Option Bytes} {rows : Option HeapMap}
    (hpages : PagesOK (content.getD [])) (hexist : rows.isSome = content.isSome)
    (hholds : ∀ id : RowId, (rowAt (pageOfFile (content.getD []) id.page) id.slot).map .ok =
      (rows.getD (fun _ ↦ none) id).map HeapFile.encodeTuple) :
    Represents (.freshOn (s.backTo path content)) (Function.update m path rows) := by
  refine ⟨h.ok.backTo fun _ ↦ hpages, h.settled.backTo path content, fun _ ↦ rfl,
    fun _ ↦ nofun, fun other ↦ ?_, fun other id ↦ ?_⟩
  · by_cases hother : other = path
    · subst hother
      rw [Function.update_self, hexist]
      exact mem_restored_self.symm
    · rw [Function.update_of_ne hother]
      exact (h.exist other).trans (mem_restored content hother).symm
  · by_cases hother : other = path
    · subst hother
      rw [HeapMaps.rows, Function.update_self, ← hholds id]
      exact congrArg (Option.map _) (rowsAt_backTo s other content id)
    · rw [HeapMaps.rows, Function.update_of_ne hother]
      exact (congrArg (Option.map _) (h.ok.rowsAt_backTo content hother id)).trans (h.holds other id)

theorem flushFile (h : Represents (.freshOn s) m) (path : Path) : Represents (.freshOn (s.flushFile path)) m :=
  h.pool (h.ok.flushFile path)

/-- Dropping a heap file removes its map. -/
theorem drop (h : Represents (.freshOn s) m) (path : Path) :
    Represents (.freshOn ((onHeap path HeapFile.drop).final s)) (Function.update m path none) := by
  rw [EStateM.final_of_ok (h.storageOK.drop_eq path)]
  refine (h.flushFile path).backTo pagesOK_nil rfl fun id ↦ ?_
  rw [Option.getD_none, pageOfFile_beyond (Nat.zero_le _), rowAt_zero]
  rfl

/-- Creating a heap file makes an empty map where there is none. -/
theorem create (h : Represents (.freshOn s) m) (path : Path) :
    Represents (.freshOn ((onHeap path HeapFile.create).final s)) (m.put path (m.rows path)) := by
  obtain ⟨state, hrun, hafter, hfile, -⟩ := HeapFile.create_spec (h.heapOK path) (h.holds_file path)
  have hcreate : onHeap path HeapFile.create s = .ok () state.storage := by
    rw [onHeap]
    exact hrun ▸ rfl
  rw [EStateM.final_of_ok hcreate]
  exact (h.after hafter hfile).freshOn

/-- A file gets back what a statement found in it. -/
theorem restore {s' : Storage} {m' : HeapMaps} (h : Represents (.freshOn s) m) (hold : Represents (.freshOn s') m')
    (path : Path) :
    Represents (.freshOn ((restoreFile path ((s'.flushFile path).fileContent path)).final s))
      (Function.update m path (m' path)) := by
  rw [EStateM.final_of_ok (h.storageOK.restoreFile_eq path _)]
  have hok := hold.storageOK
  refine h.backTo (hok.pagesOK_fileContent trivial) ?_ fun id ↦ ?_
  · rw [fileContent_eq, Bool.eq_iff_iff, hold.exist, Std.ExtTreeMap.isSome_getElem?_iff_mem]
    exact ((hok.flushFile path).mem path).symm
  · rw [hok.rowAt_fileContent trivial]
    exact hold.holds path id

/-- Everything is on disk when all of it has been flushed. -/
theorem reopen (h : Represents (.freshOn s) m) (capacityPages : Nat) (iteration : IterationOrder) :
    Represents (.freshOn { disk := s.flushAll.disk, pool := .new capacityPages iteration }) m := by
  have hflush := h.storageOK.flushAll
  have hflushed (path : Path) : Flushed s.flushAll path := fun frame hmem _ hdirty ↦ by
    obtain ⟨hkeys, hfirst⟩ := flushKeys_dirty hmem hdirty
    refine hkeys ?_
    rw [Storage.keys, (s.pool.iteration.perm _).mem_iff]
    exact List.mem_map.2 ⟨frame, hfirst, rfl⟩
  refine ⟨⟨Nat.le_max_left _ _, Nat.zero_le _, List.nodup_nil, List.forall_mem_nil _, List.forall_mem_nil _,
    List.forall_mem_nil _, hflush.ok.files⟩, List.forall_mem_nil _, fun _ ↦ rfl, fun _ ↦ by rintro _ ⟨⟩,
    fun path ↦ ?_, fun path id ↦ ?_⟩
  · exact (h.exist path).trans (hflush.mem path).symm
  · have hpage : (Storage.mk s.flushAll.disk (.new capacityPages iteration)).page ⟨path, id.page⟩ =
        diskPage s.flushAll.disk.files ⟨path, id.page⟩ :=
      page_of_not_mem (List.forall_mem_nil _)
    have hrow : (Storage.mk s.flushAll.disk (.new capacityPages iteration)).rowsAt path id =
        s.rowsAt path id := by
      rw [Storage.rowsAt, hpage, (hflushed path).rows_eq hflush.ok trivial, hflush.rows]
      rfl
    exact (congrArg (Option.map _) hrow).trans (h.holds path id)

end Represents

/-- The heap files of a reachable database hold maps, and its catalog is a reachable catalog. -/
theorem DatabaseState.Reachable.ok {st : DatabaseState} (h : st.Reachable) :
    (∃ m, Represents (.freshOn st.storage) m) ∧ st.catalog.Reachable := by
  induction h with
  | new root capacityPages iteration => exact ⟨⟨_, (represents_new root capacityPages iteration).freshOn⟩, .new⟩
  | heapFiles ops _ hsmall ih =>
    obtain ⟨⟨m, hm⟩, hcatalog⟩ := ih
    obtain ⟨m', hm'⟩ := hm.reached hsmall
    exact ⟨⟨m', hm'.freshOn⟩, hcatalog⟩
  | create path _ ih =>
    obtain ⟨⟨m, hm⟩, hcatalog⟩ := ih
    exact ⟨⟨_, hm.create path⟩, hcatalog⟩
  | drop path _ ih =>
    obtain ⟨⟨m, hm⟩, hcatalog⟩ := ih
    exact ⟨⟨_, hm.drop path⟩, hcatalog⟩
  | restore path _ _ ihold ih =>
    obtain ⟨⟨m', hm'⟩, -⟩ := ihold
    obtain ⟨⟨m, hm⟩, hcatalog⟩ := ih
    exact ⟨⟨_, hm.restore hm' path⟩, hcatalog⟩
  | catalog _ hstep ih => exact ⟨ih.1, ih.2.step hstep⟩
  | save _ ih => exact ih
  | reopen capacityPages iteration _ ih =>
    obtain ⟨⟨m, hm⟩, hcatalog⟩ := ih
    exact ⟨⟨m, hm.reopen capacityPages iteration⟩, hcatalog.reload⟩

/-! ### A DROP that fails -/

/-- The DROP removes the heap file of its table, and cannot save the catalog then. -/
structure FailsBehindRemoval (st : DatabaseState) (statement : DropStmt) (faults : DropFaults) (path : Path) :
    Prop where
  known : statement.table ∈ st.catalog.tables
  unreferenced : st.catalog.isReferenced statement.table = false
  path_eq : tablePath statement.table = .ok path
  logged : faults.log = none
  unsaved : faults.save.isSome

section Undo

variable {st : DatabaseState} {faults : DropFaults} {path : Path} {content : Option Bytes}

/-- Work on the storage changes the storage only, also when it fails. -/
theorem DatabaseM.onStorage_final {α : Type} (work : StorageM α) (st : DatabaseState) :
    (DatabaseM.onStorage work).final st = { st with storage := work.final st.storage } := by
  unfold EStateM.final DatabaseM.onStorage
  split <;> split <;> simp_all

/-- Saving the catalog changes nothing but its file. -/
theorem DatabaseM.saveCatalog_final (fault : Option Error) (st : DatabaseState) :
    ((saveCatalog fault).final st).storage = st.storage ∧ ((saveCatalog fault).final st).catalog = st.catalog := by
  rcases fault with _ | error <;> exact ⟨rfl, rfl⟩

/-- Undoing a drop restores the file and the catalog in turn. -/
theorem undoDrop_final (faults : DropFaults) (backup : TableMeta) (path : Path) (content : Option Bytes)
    (st : DatabaseState) :
    ((undoDrop faults backup path content).final st).storage =
        (tryRestoreFile faults.opens path content).final st.storage ∧
      ((undoDrop faults backup path content).final st).catalog = st.catalog.addTable backup := by
  set st₁ : DatabaseState := { st with catalog := st.catalog.addTable backup } with hst₁
  have hadd : modifyCatalog (·.addTable backup) st = .ok () st₁ := rfl
  have hfiles := DatabaseM.onStorage_final (tryRestoreFile faults.opens path content) st₁
  rcases hrun : onStorage (tryRestoreFile faults.opens path content) st₁ with ⟨_, st₂⟩ | ⟨error, st₂⟩
  · rw [EStateM.final_of_ok hrun] at hfiles
    obtain ⟨hstorage, hcatalog⟩ := DatabaseM.saveCatalog_final faults.saveAgain st₂
    have hundo : (undoDrop faults backup path content).final st = (saveCatalog faults.saveAgain).final st₂ := by
      unfold undoDrop EStateM.final
      rw [EStateM.bind_of_ok hadd, EStateM.bind_of_ok hrun]
    rw [hundo, hstorage, hcatalog, hfiles]
    exact ⟨rfl, rfl⟩
  · rw [EStateM.final_of_error hrun] at hfiles
    have hundo : undoDrop faults backup path content st = .error error st₂ := by
      rw [undoDrop, EStateM.bind_of_ok hadd, EStateM.bind_of_error hrun]
    rw [EStateM.final_of_error hundo, hfiles]
    exact ⟨rfl, rfl⟩

/-- What the handler makes of the heap files: the rows are back unless the file could not be opened, for reading
before it was removed or for writing now. -/
theorem tryRestoreFile_rows {heaps : Path → Prop} {s : Storage} (h : StorageOK heaps s) (hheap : heaps path)
    (opens reads : Bool) (other : Path) (id : RowId) :
    ((tryRestoreFile opens path ((s.flushFile path).readFile reads path)).final
        (((s.flushFile path).flushFile path).backTo path none)).rowsAt other id =
      if (opens = false ∨ reads = false) ∧ other = path then none else s.rowsAt other id := by
  have hdropped := h.dropped path
  rcases hcontent : (s.flushFile path).fileContent path with _ | bytes
  · -- there was no file
    have hrestore : tryRestoreFile opens path none (((s.flushFile path).flushFile path).backTo path none) =
        .ok () ((((s.flushFile path).flushFile path).backTo path none).backTo path none) := by
      rw [tryRestoreFile, Option.isNone_none, Bool.or_true]
      exact hdropped.restoreFile_eq path none
    have hrows := h.rowsAt_dropped hheap other id
    rw [hcontent] at hrows
    rw [Storage.readFile, hcontent, Option.map_none, EStateM.final_of_ok hrestore, hrows]
    split
    · next hother =>
      rw [hother.2, ← h.rowAt_fileContent hheap, hcontent]
      exact rowAt_nil id
    · rfl
  · rw [Storage.readFile, hcontent, Option.map_some]
    -- A file that cannot be opened stays removed; one that could not be read comes back empty.
    rcases opens with _ | _
    · have hrestore (content : Bytes) : tryRestoreFile false path (some content)
          (((s.flushFile path).flushFile path).backTo path none) =
            .error (lit "Failed restoring heap file") (((s.flushFile path).flushFile path).backTo path none) := by
        refine (EStateM.bind_of_ok (hdropped.invalidateFile path)).trans ?_
        exact congrArg (EStateM.Result.error _) (congrArg (Storage.mk _) (congrArg Storage.pool without_without))
      rw [EStateM.final_of_error (hrestore _), h.rowsAt_lost]
      simp
    · have hrestore (content : Bytes) : tryRestoreFile true path (some content)
          (((s.flushFile path).flushFile path).backTo path none) = .ok () _ :=
        hdropped.restoreFile_eq path _
      rw [EStateM.final_of_ok (hrestore _)]
      rcases reads with _ | _
      · rw [if_neg Bool.false_ne_true, h.rowsAt_emptied]
        simp
      · rw [if_pos rfl, ← hcontent, h.rowsAt_dropped hheap]
        simp

end Undo

/-! ### A table that is removed and added again -/

namespace Catalog

variable {catalog : Catalog} {name : Bytes} {backup : TableMeta}

/-- A table that is removed and added again is where it was. -/
theorem tables_readded (hbackup : catalog.tables[name]? = some backup) (hname : backup.name = name) :
    ((catalog.removeTable name).addTable backup).tables = catalog.tables := by
  subst hname
  refine Std.ExtTreeMap.ext_getElem? fun other ↦ ?_
  rw [getElem?_addTable, removeTable]
  split
  · next hother => rw [← hother, hbackup]
  · next hother =>
    split
    · show (catalog.tables.erase backup.name)[other]? = _
      rw [Std.ExtTreeMap.getElem?_erase, if_neg (Std.LawfulEqOrd.compare_eq_iff_eq.not.2 hother)]
    · rfl

/-- The snapshots of the table are lost. -/
theorem snapshots_readded (backup : TableMeta) (hknown : name ∈ catalog.tables) :
    ((catalog.removeTable name).addTable backup).snapshots = catalog.snapshots ↔
      ∀ (key : Bytes) (snapshot : DatasetSnapshotMeta), catalog.snapshots[key]? = some snapshot →
        snapshot.sourceTable ≠ name := by
  have hremoved : ((catalog.removeTable name).addTable backup).snapshots =
      catalog.snapshots.filter fun _ snapshot ↦ snapshot.sourceTable != name := by
    show (catalog.removeTable name).snapshots = _
    rw [removeTable, if_pos hknown]
  rw [hremoved]
  constructor
  · intro hsame key snapshot hsnapshot
    rw [← hsame, Std.ExtTreeMap.getElem?_filter, Option.pfilter_eq_some_iff] at hsnapshot
    exact bne_iff_ne.1 hsnapshot.2
  · intro hnone
    refine Std.ExtTreeMap.ext_getElem? fun key ↦ Option.ext fun snapshot ↦ ?_
    rw [Std.ExtTreeMap.getElem?_filter, Option.pfilter_eq_some_iff]
    exact ⟨fun h ↦ h.1, fun h ↦ ⟨h, bne_iff_ne.2 (hnone key snapshot h)⟩⟩

/-- Removing a table and adding it again changes no context. -/
theorem contexts_readded (hknown : name ∈ catalog.tables) :
    ((catalog.removeTable name).addTable backup).contexts = catalog.contexts := by
  show (catalog.removeTable name).contexts = _
  rw [removeTable, if_pos hknown]

end Catalog

namespace FailsBehindRemoval

variable {st : DatabaseState} {statement : DropStmt} {faults : DropFaults} {path : Path}

/-- The `try` block removes the file and the table, and throws. -/
theorem dropTable_eq (h : FailsBehindRemoval st statement faults path)
    (hok : StorageOK (fun _ ↦ True) st.storage) :
    ∃ error, dropTable faults statement.table path { st with storage := st.storage.flushFile path } =
      .error error { st with
        storage := ((st.storage.flushFile path).flushFile path).backTo path none
        catalog := st.catalog.removeTable statement.table } := by
  obtain ⟨error, herror⟩ := Option.isSome_iff_exists.1 h.unsaved
  have hdrop : onStorage (onHeap path HeapFile.drop) { st with storage := st.storage.flushFile path } =
      .ok () { st with storage := ((st.storage.flushFile path).flushFile path).backTo path none } := by
    rw [onStorage, (hok.flushFile path).ok.drop_eq path]
  refine ⟨error, (EStateM.bind_of_ok hdrop).trans ?_⟩
  rw [herror]
  rfl

/-- The statement throws, in the state that its handler leaves. -/
theorem executeDrop_eq (h : FailsBehindRemoval st statement faults path)
    (hok : StorageOK (fun _ ↦ True) st.storage) {backup : TableMeta}
    (hbackup : st.catalog.tables[statement.table]? = some backup) :
    ∃ error st', executeDrop faults statement st = .error error st' ∧
      st' = (undoDrop faults backup path ((st.storage.flushFile path).readFile faults.reads path)).final
        { st with
          storage := ((st.storage.flushFile path).flushFile path).backTo path none
          catalog := st.catalog.removeTable statement.table } := by
  obtain ⟨error, hdrop⟩ := h.dropTable_eq hok
  set content := (st.storage.flushFile path).readFile faults.reads path with hcontent
  set st₂ : DatabaseState := { st with
    storage := ((st.storage.flushFile path).flushFile path).backTo path none
    catalog := st.catalog.removeTable statement.table } with hst₂
  -- the handler ends by an exception, its own or the one that it handles
  have hundo : ∃ error', orUndo (dropTable faults statement.table path) (undoDrop faults backup path content)
      { st with storage := st.storage.flushFile path } =
        .error error' ((undoDrop faults backup path content).final st₂) := by
    rw [orUndo, hdrop]
    rcases hrun : undoDrop faults backup path content st₂ with ⟨_, st₃⟩ | ⟨error', st₃⟩
    · exact ⟨error, (EStateM.bind_of_ok hrun).trans (by rw [EStateM.final_of_ok hrun]; rfl)⟩
    · exact ⟨error', (EStateM.bind_of_error hrun).trans (by rw [EStateM.final_of_error hrun])⟩
  obtain ⟨error', hundo⟩ := hundo
  refine ⟨error', _, ?_, rfl⟩
  have hstart : executeDrop faults statement st = (do
      orUndo (dropTable faults statement.table path) (undoDrop faults backup path content)
      pure { message := lit "dropped table " ++ statement.table } : DatabaseM NativeQueryResult)
        { st with storage := st.storage.flushFile path } := by
    have hpath : EStateM.answer (tablePath statement.table) st = .ok path st := by
      rw [h.path_eq]
      rfl
    show (match st.catalog.tables[statement.table]? with
      | none => _
      | some backup => _ : DatabaseM NativeQueryResult) st = _
    rw [hbackup]
    show (if st.catalog.isReferenced statement.table = true then _ else _ : DatabaseM NativeQueryResult) st = _
    rw [h.unreferenced, if_neg Bool.false_ne_true]
    refine (EStateM.bind_of_ok hpath).trans ?_
    rw [h.logged]
    rfl
  rw [hstart]
  exact EStateM.bind_of_error hundo

end FailsBehindRemoval

/-- In every reachable database, a DROP that throws when the heap file has been removed restores the rows
and the catalog if and only if the table has no snapshot, and the file can be opened, for reading before and for
writing after the removal, or has no row. -/
theorem executeDrop_restores_iff (st : DatabaseState) (statement : DropStmt) (faults : DropFaults)
    (path : Path) (hst : st.Reachable) (hfails : FailsBehindRemoval st statement faults path) :
    ∃ error st', executeDrop faults statement st = .error error st' ∧
      (st.SameContent st' ↔
        (∀ (name : Bytes) (snapshot : DatasetSnapshotMeta), st.catalog.snapshots[name]? = some snapshot →
          snapshot.sourceTable ≠ statement.table) ∧
        (faults.opens = false ∨ faults.reads = false → ∀ id, st.storage.rowsAt path id = none)) := by
  obtain ⟨⟨m, hm⟩, hcatalog⟩ := hst.ok
  have hok : StorageOK (fun _ ↦ True) st.storage := hm.storageOK
  obtain ⟨backup, hbackup⟩ := Option.isSome_iff_exists.1
    (Std.ExtTreeMap.isSome_getElem?_iff_mem.2 hfails.known)
  obtain ⟨error, st', hrun, rfl⟩ := hfails.executeDrop_eq hok hbackup
  refine ⟨error, _, hrun, ?_⟩
  obtain ⟨hstorage, hentries⟩ := undoDrop_final faults backup path
    ((st.storage.flushFile path).readFile faults.reads path)
    { st with
      storage := ((st.storage.flushFile path).flushFile path).backTo path none
      catalog := st.catalog.removeTable statement.table }
  -- The heap file is written back, unless it could not be read before or opened after the removal.
  have hrows (other : Path) (id : RowId) :
      ((undoDrop faults backup path ((st.storage.flushFile path).readFile faults.reads path)).final _).storage.rowsAt
        other id = if (faults.opens = false ∨ faults.reads = false) ∧ other = path then none
          else st.storage.rowsAt other id :=
    hstorage ▸ tryRestoreFile_rows hok trivial faults.opens faults.reads other id
  constructor
  · intro hsame
    refine ⟨(Catalog.snapshots_readded backup hfails.known).1 (hentries ▸ hsame.snapshots),
      fun hopens id ↦ ?_⟩
    rw [← hsame.rows, hrows, if_pos ⟨hopens, rfl⟩]
  · rintro ⟨hsnapshots, hlost⟩
    refine ⟨fun other id ↦ ?_, ?_, ?_, ?_⟩
    · rw [hrows]
      split
      · next hother =>
        obtain ⟨hopens, rfl⟩ := hother
        exact (hlost hopens id).symm
      · rfl
    · rw [hentries]
      exact Catalog.tables_readded hbackup (hcatalog.ok.tables _ _ hbackup).1
    · rw [hentries]
      exact (Catalog.snapshots_readded backup hfails.known).2 hsnapshots
    · rw [hentries]
      exact Catalog.contexts_readded hfails.known

/-- A table of pets. -/
def petsTable : CreateStmt where
  table := lit "pets"
  columns := [{ name := lit "id", type := lit "INTEGER" }]

/-- The catalog with the table. -/
def petsCatalog : Catalog :=
  ({} : Catalog).addTable { name := lit "pets", columns := [{ name := lit "id", type := lit "INTEGER" }] }

theorem petsCatalog_step : Catalog.Step {} petsCatalog :=
  .create petsTable rfl

/-- A database with the table, which has these snapshots. -/
def petsDatabase (snapshots : List DatasetSnapshotMeta) : DatabaseState :=
  ⟨oneFrame.storage, snapshots.foldl Catalog.addSnapshot petsCatalog, none⟩

/-- The database of pets is reachable. -/
theorem petsDatabase_reachable (snapshots : List DatasetSnapshotMeta) :
    (petsDatabase snapshots).Reachable := by
  have hnew : (petsDatabase []).Reachable :=
    (DatabaseState.Reachable.new (lit "/db") 1 ⟨id, fun _ ↦ .rfl⟩).catalog petsCatalog_step
  induction snapshots using List.reverseRecOn with
  | nil => exact hnew
  | append_singleton snapshots snapshot ih =>
    rw [petsDatabase, List.foldl_append]
    exact ih.catalog (.snapshot snapshot)

/-- The table with one row. -/
def onePet (snapshots : List DatasetSnapshotMeta) : DatabaseState :=
  { petsDatabase snapshots with
    storage := ((HeapSession.freshOn (petsDatabase snapshots).storage).reached
      [.insert (lit "tables/pets.heap") [.integer 7]]).storage }

theorem onePet_reachable (snapshots : List DatasetSnapshotMeta) : (onePet snapshots).Reachable :=
  .heapFiles [.insert (lit "tables/pets.heap") [.integer 7]] (petsDatabase_reachable snapshots)
    ⟨pagesOf_empty_lt, trivial⟩

/-- Behind the removal the drop of pets can fail. -/
theorem onePet_fails (snapshots : List DatasetSnapshotMeta) :
    FailsBehindRemoval (onePet snapshots) { table := lit "pets" }
      { save := some (lit "Cannot write catalog file: /db/catalog.json") } (lit "tables/pets.heap") := by
  have htables : (onePet snapshots).catalog.tables = petsCatalog.tables := by
    show (snapshots.foldl Catalog.addSnapshot petsCatalog).tables = petsCatalog.tables
    induction snapshots using List.reverseRecOn with
    | nil => rfl
    | append_singleton snapshots snapshot ih =>
      rw [List.foldl_append]
      exact ih
  refine ⟨?_, ?_, by decide +kernel, rfl, rfl⟩
  · rw [htables]
    decide +kernel
  · rw [Catalog.isReferenced, htables]
    decide +kernel

/-- The drop of one pet, failing. -/
theorem executeDrop_restores_iff_onePet :
    ∃ error st', executeDrop { save := some (lit "Cannot write catalog file: /db/catalog.json") }
        { table := lit "pets" } (onePet []) = .error error st' ∧
      ((onePet []).SameContent st' ↔
        (∀ (name : Bytes) (snapshot : DatasetSnapshotMeta), (onePet []).catalog.snapshots[name]? = some snapshot →
          snapshot.sourceTable ≠ lit "pets") ∧
        (true = false ∨ true = false → ∀ id, (onePet []).storage.rowsAt (lit "tables/pets.heap") id = none)) :=
  executeDrop_restores_iff (onePet []) { table := lit "pets" }
    { save := some (lit "Cannot write catalog file: /db/catalog.json") } (lit "tables/pets.heap")
    (onePet_reachable []) (onePet_fails [])

/-- A snapshot of the table is gone after a DROP that could not save the catalog. -/
theorem executeDrop_not_restores :
    ¬∀ (st : DatabaseState) (statement : DropStmt) (faults : DropFaults) (path : Path) (error : Error)
      (st' : DatabaseState), st.Reachable → FailsBehindRemoval st statement faults path →
      faults.opens = true → faults.reads = true → faults.saveAgain = none → executeDrop faults statement st = .error error st' →
      st.SameContent st' := by
  intro h
  let litter : DatasetSnapshotMeta := { name := lit "litter", sourceTable := lit "pets" }
  have hfails := onePet_fails [litter]
  have hbackup : (onePet [litter]).catalog.tables[lit "pets"]? =
      some { name := lit "pets", columns := [{ name := lit "id", type := lit "INTEGER" }] } := by
    decide +kernel
  obtain ⟨⟨m, hm⟩, -⟩ := (onePet_reachable [litter]).ok
  obtain ⟨error, st', hrun, hst'⟩ := hfails.executeDrop_eq hm.storageOK hbackup
  have hsame := (h _ _ _ _ error st' (onePet_reachable [litter]) hfails rfl rfl rfl hrun).snapshots
  rw [hst', (undoDrop_final _ _ _ _ _).2, Catalog.snapshots_readded _ hfails.known] at hsame
  exact hsame (lit "litter") litter (by decide +kernel) rfl

end SkibidiQL
