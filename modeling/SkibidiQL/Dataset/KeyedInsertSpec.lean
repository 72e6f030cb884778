import SkibidiQL.Base.ListRules
import SkibidiQL.Dataset.KeyedInsert
import SkibidiQL.Dataset.SetSemantics
import SkibidiQL.Query.PrimaryKey
import SkibidiQL.Query.RawPointAgreement
import Mathlib.Data.List.Sigma

/-!
# The index follows the heap

Between two statements, the index that is kept for a table has the keys of the rows of its heap, in the
order in which some listing has them (`KeyedFile`). Over rows whose keys are of one type, different and no
NaN (`KeyedHeap`), an INSERT of one row succeeds exactly when its key compares as equal with no key of the
table, and a lookup finds the row whose key compares as equal.
-/

namespace SkibidiQL

open HeapFile Bytes

/-! ### Tables with one primary key -/

/-- A table of the catalog with one primary key, as `executeCreate` admits it. -/
structure KeyTable (engine : NativeEngine) (table : TableMeta) (path : Path) (position : Nat)
    (primary : ColumnMeta) : Prop where
  listed : engine.catalog.tables[table.name]? = some table
  path_eq : tablePath table.name = .ok path
  primary_eq : primaryColumn table = some (position, primary)
  single : ∀ (other : Nat) (column : ColumnMeta), table.columns[other]? = some column → column.primaryKey →
    other = position
  names : (table.columns.map (·.name)).Nodup
  batch : 0 < engine.batchSize

/-- The keys of a heap have the type of their column, differ, and are no NaN. -/
structure KeyedHeap (position : Nat) (primary : ColumnMeta) (rows : HeapMap) : Prop where
  keyed : ∀ listed, Lists rows listed → PrimaryKeyed position primary listed
  number : ∀ id tuple, rows id = some tuple → (tuple.getD position .null).isNaN = false

/-- The file of a table has these rows, and the index that is kept for it, if one is, their keys. -/
structure KeyedFile (name : Bytes) (path : Path) (position : Nat) (rows : HeapMap) (st : EngineState) :
    Prop where
  table : TableOK IsTableFile path rows st.storage
  index : ∀ index, st.primaryIndexes[name]? = some index →
    ∃ listed, Lists rows listed ∧ buildIndex (keyedRows position listed) = .ok index

/-- The index is kept, and has the keys of these rows. -/
def IndexedBy (name : Bytes) (position : Nat) (rows : HeapMap) (st : EngineState)
    (index : BPlusTree Value) : Prop :=
  st.primaryIndexes[name]? = some index ∧
    ∃ listed, Lists rows listed ∧ buildIndex (keyedRows position listed) = .ok index

/-- The index of the table is there, or the scan that builds it does not throw. -/
def Indexable (engine : NativeEngine) (name : Bytes) (st : EngineState) : Prop :=
  engine.batchSize ≤ maxStoredRows ∨ name ∈ st.primaryIndexes

section Keyed

variable {position : Nat} {primary : ColumnMeta} {rows : HeapMap} {listed : List StoredRow}

/-- Keys do not depend on the order of the rows. -/
theorem PrimaryKeyed.of_perm {listed' : List StoredRow} (h : PrimaryKeyed position primary listed)
    (hperm : listed.Perm listed') : PrimaryKeyed position primary listed' where
  typed row hrow := h.typed row (hperm.mem_iff.2 hrow)
  distinct := (hperm.pairwise_iff fun {row row'} hne heq ↦ hne (by rwa [Value.beq_comm])).1 h.distinct

theorem KeyedHeap.separated (h : KeyedHeap position primary rows) (hlists : Lists rows listed) :
    Separated position listed :=
  separated_of_not_isNaN (h.keyed listed hlists) fun row hrow ↦ h.number row.id row.values ((hlists.mem row).1 hrow)

/-- The index of the rows can be built. -/
theorem KeyedHeap.exists_index (h : KeyedHeap position primary rows) (hlists : Lists rows listed) :
    ∃ index, buildIndex (keyedRows position listed) = .ok index :=
  (exists_index_iff (h.keyed listed hlists) hlists.nodup (.refl _)).2 (h.separated hlists)

/-- An empty heap is keyed. -/
theorem keyedHeap_empty : KeyedHeap position primary fun _ ↦ none where
  keyed listed hlists := by
    obtain rfl : listed = [] := List.eq_nil_iff_forall_not_mem.2 fun row hrow ↦ nomatch (hlists.mem row).1 hrow
    exact ⟨nofun, .nil⟩
  number _ _ := nofun

/-- A row comes in whose key compares as equal with none. -/
theorem KeyedHeap.insert (h : KeyedHeap position primary rows) (hlists : Lists rows listed) {id : RowId}
    {tuple : Tuple} (hfree : rows id = none)
    (htype : declaredValueType primary = .ok (tuple.getD position .null).type)
    (hnumber : (tuple.getD position .null).isNaN = false)
    (hnew : ∀ other old, rows other = some old →
      (old.getD position .null).compare (tuple.getD position .null) ≠ .eq) :
    KeyedHeap position primary (Function.update rows id (some tuple)) where
  keyed listed' hlists' := by
    have hkeyed := h.keyed listed hlists
    refine PrimaryKeyed.of_perm ⟨fun row hrow ↦ ?_, List.pairwise_cons.2 ⟨fun row hrow heq ↦ ?_, hkeyed.distinct⟩⟩
      ((hlists.insert hfree tuple).perm hlists')
    · rcases List.mem_cons.1 hrow with rfl | hrow
      · exact htype
      · exact hkeyed.typed row hrow
    · have hlive := (hlists.mem row).1 hrow
      have heq' : (row.values.getD position .null) == (tuple.getD position .null) := by
        rw [Value.beq_comm]
        exact heq
      exact hnew row.id row.values hlive ((Value.compare_eq_iff (h.number _ _ hlive) hnumber).2 heq')
  number other old hold := by
    by_cases hother : other = id
    · rw [hother, Function.update_self] at hold
      obtain rfl := Option.some.inj hold
      exact hnumber
    · rw [Function.update_of_ne hother] at hold
      exact h.number other old hold

/-- What the index of the rows answers. -/
theorem KeyedHeap.find_eq_none (h : KeyedHeap position primary rows) (hlists : Lists rows listed)
    {index : BPlusTree Value} (hindex : buildIndex (keyedRows position listed) = .ok index) {key : Value}
    (hnone : ∀ id tuple, rows id = some tuple → (tuple.getD position .null).compare key ≠ .eq) :
    index.find Value.compare key = none :=
  find_index_eq_none (h.keyed listed hlists) hlists.nodup (.refl _) hindex fun row hrow ↦
    hnone row.id row.values ((hlists.mem row).1 hrow)

/-- The index finds the row of a key, and no other. -/
theorem KeyedHeap.find_eq_some (h : KeyedHeap position primary rows) (hlists : Lists rows listed)
    {index : BPlusTree Value} (hindex : buildIndex (keyedRows position listed) = .ok index) {key : Value}
    (hkey : key.isNaN = false) {id : RowId} {tuple : Tuple} (hrow : rows id = some tuple)
    (heq : (tuple.getD position .null).compare key = .eq) : index.find Value.compare key = some id := by
  have hmem : (⟨id, tuple⟩ : StoredRow) ∈ listed := (hlists.mem _).2 hrow
  obtain ⟨found, hfind, hsame⟩ :=
    find_index_eq_some (h.keyed listed hlists) hlists.nodup (.refl _) hindex hmem heq
  rw [hfind, hsame (h.number id tuple hrow) hkey]

end Keyed

/-! ### The programs of the engine -/

/-- The primary column is a primary key. -/
theorem primaryColumn_primaryKey {table : TableMeta} {position : Nat} {primary : ColumnMeta}
    (h : primaryColumn table = some (position, primary)) : primary.primaryKey := by
  obtain ⟨⟨column, index⟩, hfind, heq⟩ := Option.map_eq_some_iff.1 h
  obtain ⟨rfl, rfl⟩ := Prod.mk.inj heq
  exact List.find?_some (p := fun item : ColumnMeta × Nat ↦ item.1.primaryKey) hfind

section Engine

variable {engine : NativeEngine} {table : TableMeta} {path : Path} {position : Nat} {primary : ColumnMeta}
  {rows : HeapMap} {st st' : EngineState} {index : BPlusTree Value} {name : Bytes}

theorem EngineM.onStorage_of_ok {α : Type} {work : StorageM α} {a : α} {s : Storage}
    (h : work st.storage = .ok a s) : EngineM.onStorage work st = .ok a { st with storage := s } := by
  rw [EngineM.onStorage, h]

/-- Work on a heap file that returns, returns in the engine. -/
theorem EngineM.onFile_of_ok {α : Type} {file : HeapFile} {use : HeapM α} {a : α} {state : HeapState}
    (h : use ⟨st.storage, file⟩ = .ok a state) :
    EngineM.onFile file use st = .ok (a, state.file) { st with storage := state.storage } := by
  rw [EngineM.onFile, h]

/-- A table with its index is a keyed file. -/
theorem IndexedBy.keyedFile (h : IndexedBy name position rows st index)
    (htable : TableOK IsTableFile path rows st.storage) : KeyedFile name path position rows st where
  table := htable
  index other hother := by
    obtain ⟨hindex, hlisted⟩ := h
    rw [hindex] at hother
    obtain rfl := Option.some.inj hother
    exact hlisted

theorem mem_of_indexedBy (h : IndexedBy name position rows st index) : name ∈ st.primaryIndexes :=
  Std.ExtTreeMap.isSome_getElem?_iff_mem.1 (by rw [h.1]; rfl)

/-- An index that is kept is handed out. -/
theorem IndexedBy.primaryIndex_eq (h : IndexedBy name position rows st index) :
    engine.primaryIndex name st = .ok index st := by
  rw [NativeEngine.primaryIndex, EStateM.bind_of_ok (show (get : EngineM EngineState) st = .ok st st from rfl), h.1]
  rfl

theorem restoringInsert_of_ok {α : Type} {before : Option Bytes} {body : EngineM α} {a : α}
    (h : body st = .ok a st') : NativeEngine.restoringInsert name path before body st = .ok a st' := by
  rw [NativeEngine.restoringInsert, h]

/-- One that fails is, and the index is forgotten. -/
theorem restoringInsert_of_error {α : Type} (name : Bytes) (path : Path) (before : Option Bytes)
    {body : EngineM α} {error : Error} (h : body st = .error error st')
    (hok : StorageOK IsTableFile st'.storage) :
    ∃ st'', NativeEngine.restoringInsert name path before body st = .error error st'' := by
  have hback : EngineM.onStorage (rollBack path before)
      { st' with primaryIndexes := st'.primaryIndexes.erase name } = .ok () _ :=
    EngineM.onStorage_of_ok (hok.rollBack_eq path before)
  have hthrow : NativeEngine.restoringInsert name path before body st = (do
      EngineM.onStorage (rollBack path before)
      throw error : EngineM α) { st' with primaryIndexes := st'.primaryIndexes.erase name } := by
    rw [NativeEngine.restoringInsert, h]
    rfl
  exact ⟨_, hthrow.trans (EStateM.bind_of_ok hback)⟩

variable (hkey : KeyTable engine table path position primary)

include hkey

/-- A scan of the table finds its rows. -/
theorem KeyTable.scanHeap_eq {s : Storage} (h : TableOK IsTableFile path rows s)
    (hfits : engine.batchSize ≤ maxStoredRows) :
    ∃ found s', engine.scanHeap table.name s = .ok found s' ∧ IsScan rows found ∧ PoolStep IsTableFile s s' := by
  obtain ⟨state, found, hscan, hstep, -, hrun⟩ := scanBatches_spec h.inUse.ok h.holds ⟨hkey.batch, hfits⟩
  refine ⟨found, state.storage, ?_, hscan, hstep⟩
  rw [NativeEngine.scanHeap, hkey.path_eq]
  show onHeap path (HeapFile.scan engine.batchSize) s = _
  rw [onHeap, HeapFile.scan, EStateM.bind_of_ok hrun, (batches_spec hkey.batch found).1]
  rfl

/-- The index of the table is there or is built. -/
theorem KeyTable.primaryIndex_eq (h : KeyedFile table.name path position rows st)
    (hheap : KeyedHeap position primary rows) (hindexable : Indexable engine table.name st) :
    ∃ index st', engine.primaryIndex table.name st = .ok index st' ∧
      IndexedBy table.name position rows st' index ∧ PoolStep IsTableFile st.storage st'.storage := by
  rcases hcached : st.primaryIndexes[table.name]? with - | index
  · have hfits : engine.batchSize ≤ maxStoredRows :=
      hindexable.resolve_right fun hmem ↦ by
        rw [← Std.ExtTreeMap.isSome_getElem?_iff_mem, hcached] at hmem
        cases hmem
    obtain ⟨found, s', hscan, hfound, hstep⟩ := hkey.scanHeap_eq h.table hfits
    obtain ⟨index, hindex⟩ := hheap.exists_index hfound.lists
    refine ⟨index, ⟨s', st.primaryIndexes.insert table.name index⟩, ?_,
      ⟨Std.ExtTreeMap.getElem?_insert_self, found, hfound.lists, hindex⟩, hstep⟩
    rw [NativeEngine.primaryIndex, EStateM.bind_of_ok (show (get : EngineM EngineState) st = .ok st st from rfl)]
    simp only [hcached, hkey.listed, hkey.primary_eq]
    show (EngineM.onStorage (engine.scanHeap table.name) >>= _) st = _
    rw [EStateM.bind_of_ok (EngineM.onStorage_of_ok hscan), hindex]
    rfl
  · have hindexed : IndexedBy table.name position rows st index := ⟨hcached, h.index index hcached⟩
    exact ⟨index, st, hindexed.primaryIndex_eq, hindexed, .refl h.table.ok⟩

/-- Without the index, a batch size that is too large for a vector makes the scan that builds it throw. -/
theorem KeyTable.primaryIndex_error (hindexable : ¬Indexable engine table.name st) :
    ∃ error, engine.primaryIndex table.name st = .error error st := by
  obtain ⟨hlarge, hcached⟩ := not_or.1 hindexable
  have hinvalid : ¬ValidBatch engine.batchSize := fun hvalid ↦ hlarge hvalid.2
  obtain ⟨error, hrun⟩ := scanBatches_invalid hinvalid ⟨st.storage, { path }⟩
  have hscan : engine.scanHeap table.name st.storage = .error error st.storage := by
    rw [NativeEngine.scanHeap, hkey.path_eq]
    show onHeap path (HeapFile.scan engine.batchSize) st.storage = _
    rw [onHeap, HeapFile.scan, EStateM.bind_of_error hrun]
  have hthrow : EngineM.onStorage (engine.scanHeap table.name) st = .error error st := by
    rw [EngineM.onStorage, hscan]
  refine ⟨error, ?_⟩
  rw [NativeEngine.primaryIndex, EStateM.bind_of_ok (show (get : EngineM EngineState) st = .ok st st from rfl)]
  simp only [Std.ExtTreeMap.getElem?_eq_none hcached, hkey.listed, hkey.primary_eq]
  exact EStateM.bind_of_error hthrow

/-- The loop over the columns does something for the primary key alone. -/
theorem KeyTable.forM_columns (work : Nat → EngineM PUnit) :
    (table.columns.zipIdx.forM fun (column, other) ↦
      if column.primaryKey then work other else pure ⟨⟩) = work position := by
  have hat := primaryColumn_eq_some hkey.primary_eq
  have hmark := primaryColumn_primaryKey hkey.primary_eq
  have hnodup : table.columns.zipIdx.Nodup := .of_map _ (List.nodup_zipIdx_map_snd table.columns)
  refine (List.forM_eq_of_mem hnodup (List.mk_mem_zipIdx_iff_getElem?.2 hat) ?_).trans (if_pos hmark)
  rintro ⟨column, other⟩ hmem hne
  have hother := List.mk_mem_zipIdx_iff_getElem?.1 hmem
  refine if_neg fun hcolumn ↦ hne ?_
  obtain rfl := hkey.single other column hother hcolumn
  rw [hat] at hother
  rw [Option.some.inj hother]

/-! ### One row -/

/-- The references of a tuple hold, as far as the table and its file matter. -/
def References (engine : NativeEngine) (table : TableMeta) (path : Path) (tuple : Tuple) (rows : HeapMap)
    (s : Storage) : Prop :=
  ∀ s', HeapStep IsTableFile path s s' → TableOK IsTableFile path rows s' →
    ∃ s'', engine.validateForeignKeys table tuple s' = .ok () s''

/-- The check of the key. -/
theorem KeyTable.checkNewKey_eq (h : KeyedFile table.name path position rows st)
    (hheap : KeyedHeap position primary rows) (hindexable : Indexable engine table.name st) (tuple : Tuple) :
    ∃ index st', IndexedBy table.name position rows st' index ∧ PoolStep IsTableFile st.storage st'.storage ∧
      engine.checkNewKey table tuple st =
        if (index.find Value.compare (tuple.getD position .null)).isSome then
          .error (lit "Duplicate primary key for table " ++ table.name) st'
        else .ok () st' := by
  obtain ⟨index, st', hrun, hindexed, hstep⟩ := hkey.primaryIndex_eq h hheap hindexable
  refine ⟨index, st', hindexed, hstep, ?_⟩
  have hloop := hkey.forM_columns fun position ↦ (do
    let index ← engine.primaryIndex table.name
    if (index.find Value.compare (tuple.getD position .null)).isSome then
      throw (lit "Duplicate primary key for table " ++ table.name) : EngineM Unit)
  rw [NativeEngine.checkNewKey, hloop, EStateM.bind_of_ok hrun]
  split <;> rfl

/-- The check of the key throws when the index cannot be built. -/
theorem KeyTable.checkNewKey_error (hindexable : ¬Indexable engine table.name st) (tuple : Tuple) :
    ∃ error, engine.checkNewKey table tuple st = .error error st := by
  obtain ⟨error, hrun⟩ := hkey.primaryIndex_error hindexable
  have hloop := hkey.forM_columns fun position ↦ (do
    let index ← engine.primaryIndex table.name
    if (index.find Value.compare (tuple.getD position .null)).isSome then
      throw (lit "Duplicate primary key for table " ++ table.name) : EngineM Unit)
  refine ⟨error, ?_⟩
  rw [NativeEngine.checkNewKey, hloop]
  exact EStateM.bind_of_error hrun

section Row

variable {tuple new : Tuple} (hcoerce : coerceTuple table tuple = .ok new)

include hcoerce

/-- A row whose key is in the index is refused. -/
theorem KeyTable.validateNewRow_error (h : KeyedFile table.name path position rows st)
    (hheap : KeyedHeap position primary rows) (hindexable : Indexable engine table.name st)
    (hnumber : (new.getD position .null).isNaN = false) {id : RowId} {old : Tuple} (hold : rows id = some old)
    (heq : (old.getD position .null).compare (new.getD position .null) = .eq) :
    ∃ st', engine.validateNewRow table tuple st =
      .error (lit "Duplicate primary key for table " ++ table.name) st' ∧ StorageOK IsTableFile st'.storage := by
  obtain ⟨index, st', ⟨-, listed, hlists, hindex⟩, hstep, hcheck⟩ := hkey.checkNewKey_eq h hheap hindexable new
  rw [hheap.find_eq_some hlists hindex hnumber hold heq, Option.isSome_some, if_pos rfl] at hcheck
  refine ⟨st', ?_, hstep.ok⟩
  rw [NativeEngine.validateNewRow, hcoerce]
  show (engine.checkNewKey table new >>= _) st = _
  exact EStateM.bind_of_error hcheck

/-- A row whose key compares as equal with none passes. -/
theorem KeyTable.validateNewRow_eq (h : KeyedFile table.name path position rows st)
    (hheap : KeyedHeap position primary rows) (hindexable : Indexable engine table.name st)
    (hnew : ∀ id old, rows id = some old →
      (old.getD position .null).compare (new.getD position .null) ≠ .eq)
    (hreferences : References engine table path new rows st.storage) :
    ∃ index st', engine.validateNewRow table tuple st = .ok new st' ∧
      IndexedBy table.name position rows st' index ∧ PoolStep IsTableFile st.storage st'.storage := by
  obtain ⟨index, st₁, hindexed, hstep, hcheck⟩ := hkey.checkNewKey_eq h hheap hindexable new
  obtain ⟨hcached, listed, hlists, hindex⟩ := hindexed
  rw [hheap.find_eq_none hlists hindex hnew, Option.isSome_none, if_neg Bool.false_ne_true] at hcheck
  have htable := h.table.poolStep hstep
  obtain ⟨s, hreference⟩ := hreferences st₁.storage (hstep.toHeapStep h.table.settled path) htable
  have hreads := (engine.keeps_validateForeignKeys engine.reads_scanHeap table new).ok hreference
  refine ⟨index, { st₁ with storage := s }, ?_, ⟨hcached, listed, hlists, hindex⟩,
    hstep.trans (hreads htable.ok)⟩
  rw [NativeEngine.validateNewRow, hcoerce]
  show (engine.checkNewKey table new >>= _) st = _
  rw [EStateM.bind_of_ok hcheck, EStateM.bind_of_ok (EngineM.onStorage_of_ok hreference)]
  rfl

end Row

/-- A row goes into the index. -/
theorem KeyTable.indexRow_eq (h : IndexedBy table.name position rows st index) {id : RowId} {new : Tuple}
    (hfree : rows id = none)
    (hheap : KeyedHeap position primary (Function.update rows id (some new))) :
    ∃ index', engine.indexRow table new id st =
        .ok () { st with primaryIndexes := st.primaryIndexes.insert table.name index' } ∧
      IndexedBy table.name position (Function.update rows id (some new))
        { st with primaryIndexes := st.primaryIndexes.insert table.name index' } index' := by
  obtain ⟨hcached, listed, hlists, hindex⟩ := h
  have hlists' : Lists (Function.update rows id (some new)) (listed ++ [⟨id, new⟩]) :=
    (hlists.insert hfree new).of_perm (List.perm_append_singleton _ _).symm
  obtain ⟨index', hindex'⟩ := hheap.exists_index hlists'
  have hinsert : BPlusTree.tryInsert Value.compare index (new.getD position .null, id) = .ok index' := by
    rw [keyedRows, List.map_append, buildIndex, BPlusTree.build, List.foldlM_append] at hindex'
    obtain ⟨before, hbefore, hlast⟩ := Except.bind_eq_ok.1 hindex'
    obtain rfl : before = index := Except.ok.inj (hbefore.symm.trans hindex)
    obtain ⟨after, hafter, hend⟩ := Except.bind_eq_ok.1 hlast
    rwa [Except.ok.inj hend] at hafter
  have hresult : index.insert Value.compare (new.getD position .null) id = (index', .ok ()) := by
    rw [BPlusTree.tryInsert] at hinsert
    split at hinsert
    next heq => rw [heq, Except.ok.inj hinsert]
    next => cases hinsert
  refine ⟨index', ?_, Std.ExtTreeMap.getElem?_insert_self, _, hlists', hindex'⟩
  have hindexed : IndexedBy table.name position rows st index := ⟨hcached, listed, hlists, hindex⟩
  rw [NativeEngine.indexRow, hkey.primary_eq]
  show (engine.primaryIndex table.name >>= _) st = _
  rw [EStateM.bind_of_ok hindexed.primaryIndex_eq, hresult]
  rfl

/-! ### INSERT of one row -/

/-- What an INSERT of one row leaves: the row is in the heap, under a row id that was free, and in the
index. -/
structure Inserted (table : TableMeta) (path : Path) (position : Nat) (rows : HeapMap) (new : Tuple)
    (st st' : EngineState) (id : RowId) : Prop where
  free : rows id = none
  file : KeyedFile table.name path position (Function.update rows id (some new)) st'
  indexed : table.name ∈ st'.primaryIndexes
  step : HeapStep IsTableFile path st.storage st'.storage
  pages : pagesOf st'.storage.disk.files path ≤ pagesOf st.storage.disk.files path + 1

/-- The loop of INSERT on a new row. -/
theorem KeyTable.insertRow_eq (h : KeyedFile table.name path position rows st)
    (hheap : KeyedHeap position primary rows) (hindexable : Indexable engine table.name st)
    (hsmall : pagesOf st.storage.disk.files path < 4294967296) {columns : List Bytes} {values : List Expr}
    {tuple new : Tuple} (htuple : insertTuple table columns values = .ok tuple)
    (hcoerce : coerceTuple table tuple = .ok new) (hstorable : Storable new)
    (htype : declaredValueType primary = .ok (new.getD position .null).type)
    (hnumber : (new.getD position .null).isNaN = false)
    (hnew : ∀ id old, rows id = some old →
      (old.getD position .null).compare (new.getD position .null) ≠ .eq)
    (hreferences : References engine table path new rows st.storage) :
    ∃ id file st', engine.insertRow table columns { path } values st = .ok file st' ∧
      InUse IsTableFile path (Function.update rows id (some new)) ⟨st'.storage, file⟩ ∧
      (∃ index, IndexedBy table.name position (Function.update rows id (some new)) st' index) ∧
      rows id = none ∧ HeapStep IsTableFile path st.storage st'.storage ∧
      pagesOf st'.storage.disk.files path ≤ pagesOf st.storage.disk.files path + 1 := by
  obtain ⟨index, st₁, hvalidate, hindexed, hstep⟩ := hkey.validateNewRow_eq hcoerce h hheap hindexable hnew hreferences
  have htable := h.table.poolStep hstep
  have huse := htable.inUse
  have hpages := (hstep.settled h.table.settled).2 path
  rw [← hpages] at hsmall
  -- The row is validated, inserted into the heap and then into the index.
  obtain ⟨id, state, hinsert, hfree, hafter, -⟩ := insert_spec huse.ok huse.holds hsmall hstorable
  obtain ⟨-, -, -, -, huse'⟩ := huse.insert hsmall hinsert
  obtain ⟨listed, hlists, -⟩ := hindexed.2
  obtain ⟨index', hindex, hindexed'⟩ := hkey.indexRow_eq
    (show IndexedBy table.name position rows { st₁ with storage := state.storage } index from hindexed)
    hfree (hheap.insert hlists hfree htype hnumber hnew)
  refine ⟨id, state.file, _, ?_, huse', ⟨index', hindexed'⟩, hfree,
    (hstep.toHeapStep h.table.settled path).trans hafter.step, ?_⟩
  · rw [NativeEngine.insertRow, htuple]
    show (engine.validateNewRow table tuple >>= _) st = _
    rw [EStateM.bind_of_ok hvalidate, EStateM.bind_of_ok (EngineM.onFile_of_ok hinsert)]
    exact EStateM.bind_of_ok hindex
  · rw [← hpages]
    exact huse.insert_pages hsmall hinsert

omit hkey in
theorem KeyedFile.flushFile (h : KeyedFile name path position rows st) :
    KeyedFile name path position rows { st with storage := st.storage.flushFile path } :=
  ⟨h.table.flushFile, h.index⟩

/-- The body of an INSERT of one row. -/
def insertOne (engine : NativeEngine) (table : TableMeta) (path : Path) (columns : List Bytes)
    (values : List Expr) : EngineM Unit := do
  let file ← engine.insertRow table columns { path } values
  EngineM.onStorage (modify (Storage.flushFile · file.path))

/-- An INSERT of one row, up to its body. -/
theorem KeyTable.executeInsert_eq (h : KeyedFile table.name path position rows st) (columns : List Bytes)
    (values : List Expr) :
    engine.executeInsert { table := table.name, columns, valueRows := [values] } st =
      (NativeEngine.restoringInsert table.name path (some ((st.storage.flushFile path).disk.read path))
        (insertOne engine table path columns values) >>= fun _ ↦ pure (insertResult 1))
          { st with storage := st.storage.flushFile path } := by
  have hexists : (st.storage.flushFile path).disk.contains path = true :=
    Std.ExtTreeMap.contains_iff_mem.2 h.table.flushFile.stored
  rw [NativeEngine.executeInsert]
  simp only [hkey.listed]
  rw [hkey.path_eq]
  show (NativeEngine.restoringInsert table.name path (if (st.storage.flushFile path).disk.contains path then
      some ((st.storage.flushFile path).disk.read path) else none)
    (engine.insertRow table columns { path } values >>= pure >>= _) >>= _) _ = _
  rw [if_pos hexists, bind_pure]
  rfl

/-- An INSERT of a row whose key compares as equal with none in the table. -/
theorem KeyTable.insert_new (h : KeyedFile table.name path position rows st)
    (hheap : KeyedHeap position primary rows) (hindexable : Indexable engine table.name st)
    (hsmall : pagesOf st.storage.disk.files path < 4294967296) {columns : List Bytes} {values : List Expr}
    {tuple new : Tuple} (htuple : insertTuple table columns values = .ok tuple)
    (hcoerce : coerceTuple table tuple = .ok new) (hstorable : Storable new)
    (htype : declaredValueType primary = .ok (new.getD position .null).type)
    (hnumber : (new.getD position .null).isNaN = false)
    (hnew : ∀ id old, rows id = some old →
      (old.getD position .null).compare (new.getD position .null) ≠ .eq)
    (hreferences : References engine table path new rows st.storage) :
    ∃ id st', engine.executeInsert { table := table.name, columns, valueRows := [values] } st =
      .ok (insertResult 1) st' ∧ Inserted table path position rows new st st' id := by
  have hflush := h.table.ok.flushFile path
  have hstep := hflush.toHeapStep h.table.settled path
  have hpages : pagesOf (st.storage.flushFile path).disk.files path = pagesOf st.storage.disk.files path :=
    (hflush.settled h.table.settled).2 path
  obtain ⟨id, file, st', hrun, huse, ⟨index, hindexed⟩, hfree, hinserted, hmore⟩ :=
    hkey.insertRow_eq h.flushFile hheap hindexable (by rwa [hpages]) htuple hcoerce hstorable htype hnumber hnew
      fun s' hs' ↦ hreferences s' (hstep.trans hs')
  have hbody : insertOne engine table path columns values { st with storage := st.storage.flushFile path } =
      .ok () { st' with storage := st'.storage.flushFile file.path } := by
    rw [insertOne, EStateM.bind_of_ok hrun]
    rfl
  have hlast := huse.ok.ok.flushFile file.path
  refine ⟨id, { st' with storage := st'.storage.flushFile file.path }, ?_, hfree,
    IndexedBy.keyedFile hindexed huse.flushFile, mem_of_indexedBy hindexed,
    (hstep.trans hinserted).trans (hlast.toHeapStep huse.ok.settled path), ?_⟩
  · rw [hkey.executeInsert_eq h]
    exact EStateM.bind_of_ok (restoringInsert_of_ok hbody)
  · show pagesOf (st'.storage.flushFile file.path).disk.files path ≤ _
    rw [(hlast.settled huse.ok.settled).2 path, ← hpages]
    exact hmore

/-- An INSERT of a row whose key compares as equal with one in the table throws. -/
theorem KeyTable.insert_duplicate (h : KeyedFile table.name path position rows st)
    (hheap : KeyedHeap position primary rows) (hindexable : Indexable engine table.name st)
    {columns : List Bytes} {values : List Expr} {tuple new : Tuple} (htuple : insertTuple table columns values = .ok tuple)
    (hcoerce : coerceTuple table tuple = .ok new) (hnumber : (new.getD position .null).isNaN = false)
    {id : RowId} {old : Tuple} (hold : rows id = some old)
    (heq : (old.getD position .null).compare (new.getD position .null) = .eq) :
    ∃ st', engine.executeInsert { table := table.name, columns, valueRows := [values] } st =
      .error (lit "Duplicate primary key for table " ++ table.name) st' := by
  obtain ⟨st₁, hvalidate, hok⟩ := hkey.validateNewRow_error hcoerce h.flushFile hheap hindexable hnumber hold heq
  have hbody : insertOne engine table path columns values { st with storage := st.storage.flushFile path } =
      .error (lit "Duplicate primary key for table " ++ table.name) st₁ := by
    refine EStateM.bind_of_error ?_
    rw [NativeEngine.insertRow, htuple]
    show (engine.validateNewRow table tuple >>= _) _ = _
    exact EStateM.bind_of_error hvalidate
  obtain ⟨st', hrestoring⟩ := restoringInsert_of_error table.name path
    (some ((st.storage.flushFile path).disk.read path)) hbody hok
  rw [hkey.executeInsert_eq h]
  exact ⟨st', EStateM.bind_of_error hrestoring⟩

/-- An INSERT of a row throws when the index cannot be built. -/
theorem KeyTable.insert_unindexable (h : KeyedFile table.name path position rows st)
    (hindexable : ¬Indexable engine table.name st) {columns : List Bytes} {values : List Expr}
    {tuple new : Tuple} (htuple : insertTuple table columns values = .ok tuple)
    (hcoerce : coerceTuple table tuple = .ok new) :
    ∃ error st', engine.executeInsert { table := table.name, columns, valueRows := [values] } st =
      .error error st' := by
  have hflush : ¬Indexable engine table.name { st with storage := st.storage.flushFile path } := hindexable
  obtain ⟨error, hcheck⟩ := hkey.checkNewKey_error hflush new
  have hbody : insertOne engine table path columns values { st with storage := st.storage.flushFile path } =
      .error error { st with storage := st.storage.flushFile path } := by
    refine EStateM.bind_of_error ?_
    rw [NativeEngine.insertRow, htuple]
    show (engine.validateNewRow table tuple >>= _) _ = _
    refine EStateM.bind_of_error ?_
    rw [NativeEngine.validateNewRow, hcoerce]
    show (engine.checkNewKey table new >>= _) _ = _
    exact EStateM.bind_of_error hcheck
  obtain ⟨st', hrestoring⟩ := restoringInsert_of_error table.name path
    (some ((st.storage.flushFile path).disk.read path)) hbody h.flushFile.table.ok
  rw [hkey.executeInsert_eq h]
  exact ⟨error, st', EStateM.bind_of_error hrestoring⟩

/-- A lookup finds the row whose key compares as equal. -/
theorem KeyTable.lookupPrimaryKey_eq (h : KeyedFile table.name path position rows st)
    (hheap : KeyedHeap position primary rows) (hindexable : Indexable engine table.name st) {key : Value}
    (hnumber : key.isNaN = false)
    {id : RowId} {tuple : Tuple} (hrow : rows id = some tuple)
    (heq : (tuple.getD position .null).compare key = .eq) (alias' : Bytes) (fuel : Nat) :
    ∃ st', engine.lookupPrimaryKey table.name alias' key (fuel + 1) st =
      .ok (some [⟨id, bindRow (boundColumns table table.name alias') ⟨id, tuple⟩⟩]) st' := by
  obtain ⟨index, st₁, hindex, ⟨-, listed, hlists, hbuild⟩, hstep⟩ := hkey.primaryIndex_eq h hheap hindexable
  have htable := h.table.poolStep hstep
  obtain ⟨s, -, hread⟩ := read_spec htable.inUse.ok htable.stored htable.holds id
  refine ⟨{ st₁ with storage := s }, ?_⟩
  rw [NativeEngine.lookupPrimaryKey]
  simp only [hkey.listed]
  rw [EStateM.bind_of_ok hindex]
  simp only [hheap.find_eq_some hlists hbuild hnumber hrow heq]
  rw [hkey.path_eq]
  have hheapRead : onHeap path (HeapFile.read id) st₁.storage = .ok (some ⟨id, tuple⟩) s := by
    rw [onHeap, hread, hrow]
    rfl
  show (EngineM.onStorage (onHeap path (HeapFile.read id)) >>= _) st₁ = _
  rw [EStateM.bind_of_ok (EngineM.onStorage_of_ok hheapRead)]
  rfl

end Engine

end SkibidiQL
