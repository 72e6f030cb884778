import SkibidiQL.Dataset.StatementFootprint
import SkibidiQL.Storage.WriteAhead

/-!
# In a transaction

From the BEGIN record on, every statement writes a file only when its image is in the log: the writes of the
session are those of a journal (`InTransaction`), whatever the statements are and whether they throw. Queries
write nothing of their own (`Reading`). The
dirty pages in the pool belong to files that are in the log, too, so they may be written back at any time.
-/

namespace SkibidiQL

open NativeWal

/-- The image of the file fits into a record of the log, whose sizes have four and eight bytes. -/
structure FitsRecord (before : Files) (path : Path) : Prop where
  path_length : path.length < 2 ^ 32
  content_length : ((contentOf before path).getD []).length < 2 ^ 64

instance (before : Files) (path : Path) : Decidable (FitsRecord before path) :=
  decidable_of_iff (path.length < 2 ^ 32 ∧ ((contentOf before path).getD []).length < 2 ^ 64)
    ⟨fun h ↦ ⟨h.1, h.2⟩, fun h ↦ ⟨h.1, h.2⟩⟩

/-- A file of the database that fits. -/
structure Loggable (before : Files) (path : Path) : Prop extends FitsRecord before path where
  ne_nil : path ≠ []
  ne_wal : path ≠ walPath

theorem FitsRecord.loggable_catalogPath {before : Files} (h : FitsRecord before catalogPath) :
    Loggable before catalogPath :=
  ⟨h, by decide, by decide⟩

/-- The file of a table can be logged. -/
theorem FitsRecord.loggable_tablePath {before : Files} {table : Bytes} {path : Path} (h : FitsRecord before path)
    (hpath : tablePath table = .ok path) : Loggable before path := by
  have hprefix : ∃ rest, path = 116 :: rest := by
    unfold tablePath at hpath
    split at hpath
    · exact ⟨_, (Except.ok.inj hpath).symm⟩
    · cases hpath
  obtain ⟨rest, rfl⟩ := hprefix
  refine ⟨h, List.cons_ne_nil _ _, fun heq ↦ ?_⟩
  have hhead : (116 : UInt8) = 115 := (List.cons.inj heq).1
  exact absurd hhead (by decide)

/-- The session is in a transaction with this id, which has begun in the session `start`; these files are in its
log. -/
structure InTransaction (id : UInt64) (start : NativeSession) (logged : List Path) (st : NativeSession) : Prop where
  transaction : st.walTransactionId = id
  active : st.transactionActive = start.transactionActive
  snapshot : st.transactionSnapshot = start.transactionSnapshot
  covers : ∀ path ∈ logged, path ∈ st.walLoggedFiles
  idle : Idle (· ∈ st.walLoggedFiles) st.storage
  run : ∃ writes j, Journal.Run id (Journal.opened id start.storage.disk.files) writes j ∧
    j.files = st.storage.disk.files ∧ UndoLog.keys j.images = st.walLoggedFiles ∧
    st.storage.disk.trace = start.storage.disk.trace ++ begin id :: writes

/-- What holds before holds after. -/
def Maintains {σ : Type} (I : σ → Prop) (s s' : σ) : Prop :=
  I s → I s'

instance {σ : Type} (I : σ → Prop) : IsPreorder σ (Maintains I) where
  refl _ h := h
  trans _ _ _ h h' hs := h' (h hs)

variable {id : UInt64} {before : Files} {logged : List Path} {start st st' : NativeSession}

/-! ### Writes -/

/-- Writes on files in the log. -/
theorem NativeWal.Journal.Run.append {start j : Journal} {writes : List Write} (h : Journal.Run id start writes j)
    {more : List Write} (hmore : ∀ write ∈ more, write.path ∈ UndoLog.keys j.images) :
    Journal.Run id start (writes ++ more) { j with files := applyAll j.files more } := by
  induction more generalizing writes j with
  | nil => rwa [List.append_nil]
  | cons write more ih =>
    obtain ⟨hwrite, hrest⟩ := List.forall_mem_cons.1 hmore
    have hnext := ih (h.snoc (.write write hwrite)) hrest
    rwa [List.append_assoc] at hnext

/-- Work on files in the log, which may change the indexes, the catalog and the cache, too. -/
theorem InTransaction.work (h : InTransaction id start logged st)
    (hwork : Confined (· ∈ st.walLoggedFiles) st.storage st'.storage)
    (hsame : st' = { st with
      toEngineState := st'.toEngineState
      catalog := st'.catalog
      contextResultCache := st'.contextResultCache }) :
    InTransaction id start logged st' := by
  obtain ⟨hidle, more, hmore, hdisk⟩ := hwork h.idle
  obtain ⟨writes, j, hrun, hfiles, hkeys, htrace⟩ := h.run
  have hfiles' : st'.walLoggedFiles = st.walLoggedFiles := congrArg (·.walLoggedFiles) hsame
  rw [foldl_perform] at hdisk
  refine ⟨(congrArg (·.walTransactionId) hsame).trans h.transaction,
    (congrArg (·.transactionActive) hsame).trans h.active, (congrArg (·.transactionSnapshot) hsame).trans h.snapshot,
    hfiles' ▸ h.covers, hfiles' ▸ hidle, writes ++ more, _, hrun.append (by rwa [hkeys]), ?_,
    hkeys.trans hfiles'.symm, ?_⟩
  · rw [hfiles, hdisk]
  · rw [hdisk, htrace, List.append_assoc, List.cons_append]

/-- What a transaction needs of the files that it begins on. -/
structure Quiet (id : UInt64) (before : Files) : Prop where
  ne_zero : id ≠ 0
  no_log : contentOf before walPath = none

namespace SessionM

variable {α : Type}

/-- Engine work that is confined to the logged files maintains the transaction. -/
theorem maintains_onEngine {work : EngineM α}
    (h : ∀ P : Path → Prop, (∀ path ∈ logged, P path) → EStateM.Keeps (EngineState.Confined P) work) :
    EStateM.Keeps (Maintains (InTransaction id start logged)) (onEngine work) := by
  intro st hst
  have hwork := h (· ∈ st.walLoggedFiles) hst.covers
  rcases hrun : work st.toEngineState with ⟨a, engine⟩ | ⟨error, engine⟩
  · rw [EStateM.final, onEngine, hrun]
    exact hst.work (hwork.ok hrun) rfl
  · rw [EStateM.final, onEngine, hrun]
    exact hst.work (hwork.error hrun) rfl

/-- Storage work that is confined to the logged files maintains the transaction. -/
theorem maintains_onStorage {work : StorageM α}
    (h : ∀ P : Path → Prop, (∀ path ∈ logged, P path) → EStateM.Keeps (Confined P) work) :
    EStateM.Keeps (Maintains (InTransaction id start logged)) (onStorage work) :=
  maintains_onEngine fun P hP ↦ EngineM.confined_onStorage (h P hP)

theorem maintains_performWrite {write : Write} (h : write.path ∈ logged) :
    EStateM.Keeps (Maintains (InTransaction id start logged)) (performWrite write) :=
  fun _ hst ↦ hst.work (.of_disk rfl (writesTo_perform _ (hst.covers _ h))) rfl

theorem maintains_forgetIndex (table : Bytes) :
    EStateM.Keeps (Maintains (InTransaction id start logged)) (forgetIndex table) :=
  fun st hst ↦ hst.work (refl st.storage) rfl

theorem maintains_modifyCatalog (change : Catalog → Catalog) :
    EStateM.Keeps (Maintains (InTransaction id start logged)) (modifyCatalog change) :=
  fun st hst ↦ hst.work (refl st.storage) rfl

theorem maintains_setContextResults (contextResultCache : NameMap NativeQueryResult) :
    EStateM.Keeps (Maintains (InTransaction id start logged)) (setContextResults contextResultCache) :=
  fun st hst ↦ hst.work (refl st.storage) rfl

/-! ### The log -/

/-- From here on the image of the file is in the log. -/
theorem InTransaction.recordWalBefore (hquiet : Quiet id start.storage.disk.files) {path : Path}
    (hpath : Loggable start.storage.disk.files path) (h : InTransaction id start logged st) :
    InTransaction id start (path :: logged) ((recordWalBefore path).final st) := by
  have hid : ¬st.walTransactionId = 0 := h.transaction ▸ hquiet.ne_zero
  show InTransaction id start (path :: logged) (if _ then _ else _)
  -- A file is logged once: a second image would hold what the transaction has written.
  by_cases hin : path ∈ st.walLoggedFiles
  · rw [if_pos (by simp [hin])]
    exact { h with covers := List.forall_mem_cons.2 ⟨hin, h.covers⟩ }
  · rw [if_neg (by simp [hid, hin])]
    obtain ⟨writes, j, hrun, hfiles, hkeys, htrace⟩ := h.run
    have hnew : path ∉ UndoLog.keys j.images := hkeys ▸ hin
    -- What is not logged is not written, so the image is of the file as the transaction found it.
    have hcontent : contentOf j.files path = contentOf start.storage.disk.files path :=
      (hrun.isOpen hquiet.no_log).agree path hpath.ne_wal hnew
    have hsize : Recordable (beforeRecord id path (contentOf j.files path)) :=
      ⟨hpath.path_length, by rw [hcontent]; exact hpath.content_length⟩
    have hstep := Journal.Step.log path hnew hpath.ne_nil hpath.ne_wal hsize
    refine ⟨h.transaction, h.active, h.snapshot, ?_, ?_, _, _, hrun.snoc hstep, ?_, ?_, ?_⟩
    · exact List.forall_mem_cons.2 ⟨List.mem_append_right _ List.mem_cons_self,
        fun other hother ↦ List.mem_append_left _ (h.covers other hother)⟩
    · exact ⟨h.idle.unpinned, fun frame hmem hdirty ↦ List.mem_append_left _ (h.idle.dirty frame hmem hdirty)⟩
    · rw [hfiles, ← h.transaction]
      rfl
    · rw [UndoLog.keys, List.map_append, ← UndoLog.keys, hkeys]
      rfl
    · show st.storage.disk.trace ++ [_] = _
      rw [htrace, hfiles, ← h.transaction, List.append_assoc, List.cons_append]
      rfl

/-- A program that begins by logging a file. -/
theorem maintains_recordWalBefore (hquiet : Quiet id start.storage.disk.files) {path : Path}
    (hpath : Loggable start.storage.disk.files path) {rest : SessionM α}
    (hrest : EStateM.Keeps (Maintains (InTransaction id start (path :: logged))) rest) :
    EStateM.Keeps (Maintains (InTransaction id start logged)) (do recordWalBefore path; rest) := by
  intro st hst
  have hnext := hrest _ (InTransaction.recordWalBefore hquiet hpath hst)
  exact { hnext with covers := (List.forall_mem_cons.1 hnext.covers).2 }

/-- Saving the catalog logs it and maintains the transaction. -/
theorem maintains_saveCatalog (hquiet : Quiet id start.storage.disk.files)
    (hcatalog : Loggable start.storage.disk.files catalogPath) :
    EStateM.Keeps (Maintains (InTransaction id start logged)) saveCatalog := by
  have hwrite {write : Write} (hpath : write.path = catalogPath) :
      EStateM.Keeps (Maintains (InTransaction id start (catalogPath :: logged))) (performWrite write) :=
    maintains_performWrite (hpath ▸ List.mem_cons_self)
  exact maintains_recordWalBefore hquiet hcatalog ((hwrite rfl).bind fun _ ↦ .bind .get fun _ ↦ hwrite rfl)

theorem maintains_flushUnlocked (hquiet : Quiet id start.storage.disk.files)
    (hcatalog : Loggable start.storage.disk.files catalogPath) :
    EStateM.Keeps (Maintains (InTransaction id start logged)) flushUnlocked :=
  (maintains_onStorage fun _ _ s ↦ confined_flushAll s).bind fun _ ↦ maintains_saveCatalog hquiet hcatalog

end SessionM

/-! ### The statements -/

/-- The files that a statement logs: that of its table, and the catalog. -/
def DatabaseStatement.table? : DatabaseStatement → Option Bytes
  | .create statement => some statement.table
  | .drop statement => some statement.table
  | .insert statement => some statement.table
  | .update statement => some statement.table
  | .delete statement => some statement.table
  | _ => none

/-- The files that a statement may write fit into the log. -/
structure DatabaseStatement.Fits (before : Files) (statement : DatabaseStatement) : Prop where
  catalog : FitsRecord before catalogPath
  table : ∀ table, statement.table? = some table → ∀ path, tablePath table = .ok path → FitsRecord before path

/-- A statement on a table fits when its file and the catalog do. -/
theorem DatabaseStatement.Fits.of_table {statement : DatabaseStatement} {table : Bytes} {path : Path}
    (hname : statement.table? = some table) (hpath : tablePath table = .ok path)
    (hcatalog : FitsRecord before catalogPath) (htable : FitsRecord before path) : statement.Fits before := by
  refine ⟨hcatalog, fun name hname' path' hpath' ↦ ?_⟩
  rw [hname] at hname'
  obtain rfl := Option.some.inj hname'
  rw [hpath] at hpath'
  obtain rfl := Except.ok.inj hpath'
  exact htable

namespace SessionM

/-- A program that looks up the file of a table. -/
theorem maintains_tablePath {α : Type} {table : Bytes} {rest : Path → SessionM α} {I : NativeSession → Prop}
    (hrest : ∀ path, tablePath table = .ok path → EStateM.Keeps (Maintains I) (rest path)) :
    EStateM.Keeps (Maintains I) (EStateM.answer (tablePath table) >>= rest) :=
  (EStateM.Keeps.answer _).bind_ok fun path _ st hpath ↦ hrest path (EStateM.answer_eq_ok hpath).1 st

theorem maintains_flushFile (path : Path) : EStateM.Keeps (Maintains (InTransaction id start logged))
    (onStorage (modify (Storage.flushFile · path))) :=
  maintains_onStorage fun _ _ s ↦ confined_flushFile s path

section Tables

variable {table : Bytes} (hquiet : Quiet id start.storage.disk.files)
  (htable : ∀ path, tablePath table = .ok path → Loggable start.storage.disk.files path)

include hquiet htable

/-- `CREATE` does. -/
theorem maintains_executeCreate {statement : CreateStmt} (hname : statement.table = table)
    (hcatalog : Loggable start.storage.disk.files catalogPath) :
    EStateM.Keeps (Maintains (InTransaction id start logged)) (executeCreate statement) := by
  subst hname
  refine .bind .get fun st ↦ .ite (fun _ ↦ .ite (fun _ ↦ .pure _) fun _ ↦ .throw _) fun _ ↦ ?_
  refine (EStateM.Keeps.answer _).bind fun columns ↦ maintains_tablePath fun path hpath ↦ ?_
  refine maintains_recordWalBefore hquiet (htable path hpath) ?_
  refine (maintains_onStorage fun P hP ↦ confined_onHeap HeapFile.works_create (hP path List.mem_cons_self)).bind
    fun _ ↦ ?_
  exact (maintains_modifyCatalog _).bind fun _ ↦ (maintains_saveCatalog hquiet hcatalog).bind fun _ ↦
    (maintains_forgetIndex _).bind fun _ ↦ .pure _

/-- `DROP` does. -/
theorem maintains_executeDrop {statement : DropStmt} (hname : statement.table = table)
    (hcatalog : Loggable start.storage.disk.files catalogPath) :
    EStateM.Keeps (Maintains (InTransaction id start logged)) (executeDrop statement) := by
  subst hname
  refine .bind .get fun st ↦ .ite (fun _ ↦ .ite (fun _ ↦ .throw _) fun _ ↦ ?_) fun _ ↦
    .ite (fun _ ↦ .pure _) fun _ ↦ .throw _
  refine maintains_tablePath fun path hpath ↦ (maintains_flushFile path).bind fun _ ↦ ?_
  refine maintains_recordWalBefore hquiet (htable path hpath) ?_
  refine (maintains_onStorage fun P hP ↦ confined_onHeap HeapFile.works_drop (hP path List.mem_cons_self)).bind
    fun _ ↦ ?_
  exact (maintains_forgetIndex _).bind fun _ ↦ (maintains_modifyCatalog _).bind fun _ ↦
    (maintains_saveCatalog hquiet hcatalog).bind fun _ ↦ .pure _

/-- `INSERT` does. -/
theorem maintains_executeInsert {statement : InsertStmt} (hname : statement.table = table) (batchSize : Nat) :
    EStateM.Keeps (Maintains (InTransaction id start logged)) (executeInsert batchSize statement) := by
  subst hname
  refine .bind .get fun st ↦ ?_
  split
  · exact .throw _
  · refine maintains_tablePath fun path hpath ↦ (maintains_flushFile path).bind fun _ ↦ .bind .get fun st' ↦ ?_
    refine maintains_recordWalBefore hquiet (htable path hpath)
      (.bind (maintains_onEngine fun P hP ↦ ?_) fun _ ↦ .pure _)
    have hpath := hP path List.mem_cons_self
    refine NativeEngine.confined_restoringInsert _ _ ?_ hpath
    exact ((st.engine batchSize).confined_insertRows _ _ hpath _ _ rfl).bind fun file ↦
      EngineM.confined_onStorage fun s ↦ confined_flushFile s file.path

/-- A statement that changes rows does. -/
theorem maintains_changeRows {change : NativeEngine → TableMeta → List StoredRow → HeapM (List RowEvent)}
    (hchange : ∀ (P : Path → Prop) engine table rows, EStateM.Keeps (HeapFile.Works P) (change engine table rows))
    (batchSize : Nat) :
    EStateM.Keeps (Maintains (InTransaction id start logged)) (changeRows batchSize table change) := by
  refine .bind .get fun st ↦ ?_
  split
  · exact .throw _
  · refine maintains_tablePath fun path hpath ↦ (maintains_flushFile path).bind fun _ ↦ .bind .get fun st' ↦ ?_
    refine maintains_recordWalBefore hquiet (htable path hpath) (.bind (maintains_onStorage fun P hP ↦ ?_) fun _ ↦
      (maintains_forgetIndex _).bind fun _ ↦ .pure _)
    have hpath := hP path List.mem_cons_self
    exact confined_restoring ((confined_scanTable _).bind fun _ ↦
      confined_onHeap (works_thenFlush (hchange P _ _ _)) hpath) hpath

theorem maintains_executeUpdate {statement : UpdateStmt} (hname : statement.table = table) (batchSize : Nat) :
    EStateM.Keeps (Maintains (InTransaction id start logged)) (executeUpdate batchSize statement) := by
  subst hname
  refine (maintains_changeRows hquiet htable (fun P engine table rows ↦ ?_) batchSize).bind fun _ ↦ .pure _
  exact works_updateRows (fun row ↦ engine.keeps_updateChange engine.confined_scanHeap table statement row) rows

theorem maintains_executeDelete {statement : DeleteStmt} (hname : statement.table = table) (batchSize : Nat) :
    EStateM.Keeps (Maintains (InTransaction id start logged)) (executeDelete batchSize statement) := by
  subst hname
  refine (maintains_changeRows hquiet htable (fun P engine table rows ↦ ?_) batchSize).bind fun _ ↦ .pure _
  exact works_deleteRows (fun row ↦ engine.keeps_deleteSelects engine.confined_scanHeap table statement row) rows

end Tables

/-- `CREATE SNAPSHOT` does. -/
theorem maintains_executeCreateSnapshot (hquiet : Quiet id start.storage.disk.files)
    (hcatalog : Loggable start.storage.disk.files catalogPath) (generate : SelectStmt → Bytes) (batchSize : Nat)
    (statement : CreateSnapshotStmt) :
    EStateM.Keeps (Maintains (InTransaction id start logged))
      (executeCreateSnapshot generate batchSize statement) :=
  .bind .get fun st ↦ (maintains_onStorage fun _ _ ↦
    (st.engine batchSize).confined_createdSnapshot generate statement).bind fun _ ↦
      (maintains_modifyCatalog _).bind fun _ ↦ (maintains_saveCatalog hquiet hcatalog).bind fun _ ↦ .pure _

/-- A context statement throws before it has changed anything; what it changes goes to the catalog file. -/
theorem maintains_executePrompt (hquiet : Quiet id start.storage.disk.files)
    (hcatalog : Loggable start.storage.disk.files catalogPath) (statement : PromptStatement) :
    EStateM.Keeps (Maintains (InTransaction id start logged)) (executePrompt statement) := by
  refine .bind .get fun st ↦ (EStateM.Keeps.answer _).bind fun ⟨result, state⟩ ↦ .ite (fun _ ↦ ?_) fun _ ↦ ?_
  · exact (maintains_setContextResults _).bind fun _ ↦ .pure result
  · exact (maintains_modifyCatalog _).bind fun _ ↦ (maintains_saveCatalog hquiet hcatalog).bind fun _ ↦
      (maintains_setContextResults _).bind fun _ ↦ .pure result

end SessionM

open SessionM

/-- A statement keeps to the log, whether it returns or throws. -/
theorem DatabaseStatement.Fits.maintains_run (config : EngineConfig) (hquiet : Quiet id start.storage.disk.files)
    {statement : DatabaseStatement} (h : statement.Fits start.storage.disk.files) :
    EStateM.Keeps (Maintains (InTransaction id start logged)) (statement.run config) := by
  have hcatalog := h.catalog.loggable_catalogPath
  have htable (table : Bytes) (hname : statement.table? = some table) (path : Path)
      (hpath : tablePath table = .ok path) : Loggable start.storage.disk.files path :=
    (h.table table hname path hpath).loggable_tablePath hpath
  cases statement with
  | create statement => exact maintains_executeCreate hquiet (htable _ rfl) rfl hcatalog
  | drop statement => exact maintains_executeDrop hquiet (htable _ rfl) rfl hcatalog
  | insert statement => exact maintains_executeInsert hquiet (htable _ rfl) rfl _
  | update statement => exact maintains_executeUpdate hquiet (htable _ rfl) rfl _
  | delete statement => exact maintains_executeDelete hquiet (htable _ rfl) rfl _
  | createSnapshot statement => exact maintains_executeCreateSnapshot hquiet hcatalog _ _ statement
  | createContext name => exact maintains_executePrompt hquiet hcatalog _
  | context statement => exact maintains_executePrompt hquiet hcatalog _

/-! ### Queries -/

/-- A query has run: it has read pages, and may have built indexes and cached its result. -/
def ReadsSession (P : Path → Prop) (st st' : NativeSession) : Prop :=
  Confined P st.storage st'.storage ∧
    st' = { st with toEngineState := st'.toEngineState, contextResultCache := st'.contextResultCache }

instance (P : Path → Prop) : IsPreorder NativeSession (ReadsSession P) where
  refl st := ⟨refl st.storage, rfl⟩
  trans st st' st'' h h' := by
    refine ⟨IsTrans.trans (r := Confined P) _ _ _ h.1 h'.1, ?_⟩
    rw [h'.2, h.2]

/-- Work that scans and changes no row, as a query does. -/
def Reading : Type :=
  { work : SessionM Unit // ∀ P : Path → Prop, EStateM.Keeps (ReadsSession P) work }

/-- A query keeps to the log. -/
theorem Reading.maintains (work : Reading) :
    EStateM.Keeps (Maintains (InTransaction id start logged)) work.1 := by
  intro st hst
  obtain ⟨hconfined, hsame⟩ := work.2 (· ∈ st.walLoggedFiles) st
  have hcatalog : (work.1.final st).catalog = st.catalog := congrArg (·.catalog) hsame
  exact hst.work hconfined (by rw [hcatalog]; exact hsame)

end SkibidiQL
