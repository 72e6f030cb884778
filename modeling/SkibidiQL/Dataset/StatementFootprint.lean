import SkibidiQL.Dataset.LoggedStatements
import SkibidiQL.Storage.WriteFootprint

/-!
# The files that a statement writes

What a statement evaluates and checks for its rows scans tables, and writes nothing but what other work has
left dirty. The changes of the rows, and going back when one fails, write the file of the table.
-/

namespace SkibidiQL

variable {P : Path → Prop}

namespace HeapFile

/-- Scanning pages only looks. -/
theorem looks_scanPages (decode : Bytes → Except Error Tuple) (pages : List Nat) :
    EStateM.Keeps (Looks P) (scanPages decode pages) := by
  induction pages with
  | nil => exact .pure []
  | cons page pages ih =>
    exact (looks_withPage page (keeps_decodePage decode page)).bind fun _ ↦ ih.bind fun _ ↦ .pure _

theorem looks_scan (batchSize : Nat) : EStateM.Keeps (Looks P) (scan batchSize) := by
  refine .bind (.ite (fun _ ↦ .throw _) fun _ ↦ .bind (.ite (fun _ ↦ .throw _) fun _ ↦ .pure ()) fun _ ↦ ?_)
    fun _ ↦ .pure _
  exact looks_pageCount.bind fun _ ↦ (looks_scanPages _ _).bind fun _ ↦ .pure _

end HeapFile

/-! ### Heap files -/

/-- Work on a heap file is confined to the file. -/
theorem confined_onHeap {α : Type} {path : Path} {use : HeapM α} (h : EStateM.Keeps (HeapFile.Works P) use)
    (hpath : P path) : EStateM.Keeps (Confined P) (onHeap path use) := by
  intro s
  rw [EStateM.final, onHeap]
  rcases hrun : use ⟨s, { path }⟩ with ⟨a, state⟩ | ⟨error, state⟩
  · exact (h.ok hrun).2 hpath
  · exact (h.error hrun).2 hpath

/-- Where it only looks it is confined to any files. -/
theorem confined_onHeap_of_looks {α : Type} (path : Path) {use : HeapM α}
    (h : EStateM.Keeps (HeapFile.Looks P) use) : EStateM.Keeps (Confined P) (onHeap path use) := by
  intro s
  rw [EStateM.final, onHeap]
  rcases hrun : use ⟨s, { path }⟩ with ⟨a, state⟩ | ⟨error, state⟩
  · exact (h.ok hrun).2
  · exact (h.error hrun).2

theorem confined_scanTable (table : Table) : EStateM.Keeps (Confined P) table.scanTable :=
  (confined_onHeap_of_looks table.path (HeapFile.looks_scan table.batchSize)).bind fun _ ↦
    .ite (fun _ ↦ .throw _) fun _ ↦ .pure _

/-- A body that is rolled back is confined to its file. -/
theorem confined_restoring {α : Type} {path : Path} {before : Option Bytes} {body : StorageM α}
    (h : EStateM.Keeps (Confined P) body) (hpath : P path) :
    EStateM.Keeps (Confined P) (restoring path before body) := by
  intro s
  rw [EStateM.final, restoring]
  rcases hrun : body s with ⟨a, s'⟩ | ⟨error, s'⟩
  · exact h.ok hrun
  · have hback : EStateM.Keeps (Confined P) (do rollBack path before; throw error : StorageM α) :=
      (confined_rollBack hpath before).bind fun _ ↦ .throw error
    exact IsTrans.trans _ _ _ (h.error hrun) (hback s')

section Rows

variable {heaps : Path → Prop}

/-- Updating rows works. -/
theorem works_updateRows {change : StoredRow → ReadOnly heaps (Option Tuple)}
    (h : ∀ row, EStateM.Keeps (Confined P) (change row).1) (rows : List StoredRow) :
    EStateM.Keeps (HeapFile.Works P) (updateRows change rows) := by
  induction rows with
  | nil => exact .pure []
  | cons row rows ih =>
    refine (HeapFile.works_onStorage (h row)).bind fun changed ↦ ?_
    cases changed with
    | none => exact ih
    | some tuple => exact (HeapFile.works_update row.id tuple).bind fun _ ↦ ih.bind fun _ ↦ .pure _

/-- Deleting rows works. -/
theorem works_deleteRows {selects : StoredRow → ReadOnly heaps Bool}
    (h : ∀ row, EStateM.Keeps (Confined P) (selects row).1) (rows : List StoredRow) :
    EStateM.Keeps (HeapFile.Works P) (deleteRows selects rows) := by
  induction rows with
  | nil => exact .pure []
  | cons row rows ih =>
    refine (HeapFile.works_onStorage (h row)).bind fun _ ↦ .ite (fun _ ↦ ?_) fun _ ↦ ih
    exact (HeapFile.works_erase row.id).bind fun _ ↦ .ite (fun _ ↦ ih.bind fun _ ↦ .pure _) fun _ ↦ ih

theorem works_thenFlush {changes : HeapM (List RowEvent)} (h : EStateM.Keeps (HeapFile.Works P) changes) :
    EStateM.Keeps (HeapFile.Works P) (thenFlush changes) :=
  h.bind fun _ ↦ HeapFile.works_flush.bind fun _ ↦ .pure _

end Rows

/-! ### Checks -/

namespace NativeEngine

variable (engine : NativeEngine)

theorem confined_scanHeap (table : Bytes) : EStateM.Keeps (Confined P) (engine.scanHeap table) :=
  (EStateM.Keeps.answer _).bind fun path ↦ confined_onHeap_of_looks path (HeapFile.looks_scan engine.batchSize)

/-- Capturing a snapshot is confined to any files. -/
theorem confined_createdSnapshot (generate : SelectStmt → Bytes) (statement : CreateSnapshotStmt) :
    EStateM.Keeps (Confined P) (engine.createdSnapshot generate statement) :=
  (EStateM.Keeps.answer _).bind fun _ ↦ (EStateM.Keeps.answer _).bind fun _ ↦ (confined_scanTable _).bind fun _ ↦
    (EStateM.Keeps.answer _).bind fun _ ↦ .pure _

end NativeEngine

/-! ### Rows with an index -/

/-- The storage of the engine has been worked on, and only these files have been written. -/
def EngineState.Confined (P : Path → Prop) (st st' : EngineState) : Prop :=
  SkibidiQL.Confined P st.storage st'.storage

instance (P : Path → Prop) : IsPreorder EngineState (EngineState.Confined P) where
  refl st := refl st.storage
  trans _ _ _ h h' := IsTrans.trans (r := SkibidiQL.Confined P) _ _ _ h h'

namespace EngineM

/-- Confined work on the storage is confined in the engine. -/
theorem confined_onStorage {α : Type} {work : StorageM α} (h : EStateM.Keeps (Confined P) work) :
    EStateM.Keeps (EngineState.Confined P) (onStorage work) := by
  intro st
  rcases hrun : work st.storage with ⟨a, s⟩ | ⟨error, s⟩
  · rw [EStateM.final, onStorage, hrun]
    exact h.ok hrun
  · rw [EStateM.final, onStorage, hrun]
    exact h.error hrun

/-- A change of the indexes. -/
theorem confined_indexes (change : EngineState → NameMap (BPlusTree Value)) :
    EStateM.Keeps (EngineState.Confined P)
      (modify fun st ↦ { st with primaryIndexes := change st } : EngineM PUnit) :=
  fun st ↦ refl st.storage

/-- Work on a heap file is confined to the file in the engine. -/
theorem confined_onFile {α : Type} {file : HeapFile} {use : HeapM α} (h : EStateM.Keeps (HeapFile.Works P) use)
    (hpath : P file.path) : EStateM.Keeps (EngineState.Confined P) (onFile file use) := by
  intro st
  rcases hrun : use ⟨st.storage, file⟩ with ⟨a, state⟩ | ⟨error, state⟩
  · rw [EStateM.final, onFile, hrun]
    exact (h.ok hrun).2 hpath
  · rw [EStateM.final, onFile, hrun]
    exact (h.error hrun).2 hpath

/-- The file is the same when it has been used. -/
theorem path_onFile {α : Type} {file file' : HeapFile} {use : HeapM α} {a : α} {st st' : EngineState}
    (h : EStateM.Keeps (HeapFile.Works fun _ ↦ True) use) (hrun : onFile file use st = .ok (a, file') st') :
    file'.path = file.path := by
  rw [onFile] at hrun
  rcases huse : use ⟨st.storage, file⟩ with ⟨a, state⟩ | ⟨error, state⟩
  · rw [huse] at hrun
    obtain ⟨hpair, -⟩ := EStateM.Result.ok.inj hrun
    rw [← (Prod.mk.inj hpair).2]
    exact (h.ok huse).1
  · rw [huse] at hrun
    cases hrun

end EngineM

namespace NativeEngine

variable (engine : NativeEngine)

/-- Building the index of a table is confined to any files. -/
theorem confined_primaryIndex (table : Bytes) :
    EStateM.Keeps (EngineState.Confined P) (engine.primaryIndex table) := by
  apply EStateM.Keeps.get_bind
  intro st
  split
  · exact refl st.storage
  · split
    · exact refl st.storage
    · split
      · exact refl st.storage
      · exact ((EngineM.confined_onStorage (engine.confined_scanHeap table)).bind fun _ ↦
          (EStateM.Keeps.answer _).bind fun _ ↦ (EngineM.confined_indexes _).bind fun _ ↦ .pure _) st

theorem confined_checkNewKey (table : TableMeta) (tuple : Tuple) :
    EStateM.Keeps (EngineState.Confined P) (engine.checkNewKey table tuple) :=
  .forM fun _ ↦ .ite (fun _ ↦ (engine.confined_primaryIndex _).bind fun _ ↦
    .ite (fun _ ↦ .throw _) fun _ ↦ .pure _) fun _ ↦ .pure _

theorem confined_validateNewRow (table : TableMeta) (tuple : Tuple) :
    EStateM.Keeps (EngineState.Confined P) (engine.validateNewRow table tuple) :=
  (EStateM.Keeps.answer _).bind fun _ ↦ (engine.confined_checkNewKey _ _).bind fun _ ↦
    (EngineM.confined_onStorage (engine.keeps_validateForeignKeys engine.confined_scanHeap _ _)).bind fun _ ↦
      .pure _

/-- Entering a row in the index is. -/
theorem confined_indexRow (table : TableMeta) (tuple : Tuple) (id : RowId) :
    EStateM.Keeps (EngineState.Confined P) (engine.indexRow table tuple id) := by
  unfold indexRow
  split
  · exact .pure _
  · exact (engine.confined_primaryIndex _).bind fun _ ↦ (EngineM.confined_indexes _).bind fun _ ↦ .answer _

/-- Inserting a row is confined to its file. -/
theorem confined_insertRow (table : TableMeta) (columns : List Bytes) {file : HeapFile} (values : List Expr)
    (hpath : P file.path) : EStateM.Keeps (EngineState.Confined P) (engine.insertRow table columns file values) :=
  (EStateM.Keeps.answer _).bind fun _ ↦ (engine.confined_validateNewRow _ _).bind fun _ ↦
    (EngineM.confined_onFile (HeapFile.works_insert _) hpath).bind fun _ ↦
      (engine.confined_indexRow _ _ _).bind fun _ ↦ .pure _

/-- Inserting a row does not rename the file. -/
theorem path_insertRow {table : TableMeta} {columns : List Bytes} {file file' : HeapFile} {values : List Expr}
    {st st' : EngineState} (h : engine.insertRow table columns file values st = .ok file' st') :
    file'.path = file.path := by
  obtain ⟨tuple, st₁, -, h⟩ := EStateM.exists_of_bind_eq_ok h
  obtain ⟨tuple', st₂, -, h⟩ := EStateM.exists_of_bind_eq_ok h
  obtain ⟨⟨id, file₁⟩, st₃, hinsert, h⟩ := EStateM.exists_of_bind_eq_ok h
  obtain ⟨-, st₄, -, h⟩ := EStateM.exists_of_bind_eq_ok h
  obtain ⟨rfl, -⟩ := EStateM.Result.ok.inj h
  exact EngineM.path_onFile (HeapFile.works_insert _) hinsert

/-- Inserting rows is confined to the file. -/
theorem confined_insertRows (table : TableMeta) (columns : List Bytes) {path : Path} (hpath : P path)
    (valueRows : List (List Expr)) (file : HeapFile) (hfile : file.path = path) :
    EStateM.Keeps (EngineState.Confined P) (valueRows.foldlM (engine.insertRow table columns) file) := by
  induction valueRows generalizing file with
  | nil => exact .pure file
  | cons values valueRows ih =>
    rw [List.foldlM_cons]
    refine (engine.confined_insertRow table columns values (hfile ▸ hpath)).bind_ok fun file' st st' hrun ↦ ?_
    exact ih file' ((engine.path_insertRow hrun).trans hfile) st'

/-- An insertion that is rolled back is confined to its file. -/
theorem confined_restoringInsert {α : Type} (table : Bytes) {path : Path} (before : Option Bytes) {body : EngineM α}
    (h : EStateM.Keeps (EngineState.Confined P) body) (hpath : P path) :
    EStateM.Keeps (EngineState.Confined P) (restoringInsert table path before body) := by
  intro st
  rw [EStateM.final, restoringInsert]
  rcases hrun : body st with ⟨a, st'⟩ | ⟨error, st'⟩
  · exact h.ok hrun
  · have hback : EStateM.Keeps (EngineState.Confined P) (do
        modify fun st ↦ { st with primaryIndexes := st.primaryIndexes.erase table }
        EngineM.onStorage (rollBack path before)
        throw error : EngineM α) :=
      (EngineM.confined_indexes _).bind fun _ ↦ (EngineM.confined_onStorage (confined_rollBack hpath before)).bind
        fun _ ↦ .throw error
    exact IsTrans.trans _ _ _ (h.error hrun) (hback st')

end NativeEngine

end SkibidiQL
