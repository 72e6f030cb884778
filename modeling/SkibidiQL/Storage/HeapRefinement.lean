import SkibidiQL.Storage.HeapScan

/-!
# Heap files refine maps

Any number of heap files that share a buffer pool behave as maps from row ids to tuples (`Allowed`), over
every sequence of operations, with pages evicted, flushed and fetched again at any time between them
(`heapFiles_refine_maps`).
-/

namespace SkibidiQL

/-! ### Heap files that share a pool -/

/-- The pool and one `HeapFile` for each path. -/
structure HeapSession where
  storage : Storage
  files : Path → HeapFile

/-- The operations on heap files, and what the pool may do between them. -/
inductive HeapOp where
  | insert (path : Path) (tuple : Tuple)
  | read (path : Path) (id : RowId)
  | erase (path : Path) (id : RowId)
  | update (path : Path) (id : RowId) (tuple : Tuple)
  | scanBatches (path : Path) (batchSize : Nat)
  | scanProjectedBatches (path : Path) (columns : List Nat) (batchSize : Nat)
  | evict
  | flush (key : PageKey)
  | flushFile (path : Path)
  | flushAll
  | fetch (key : PageKey)

/-- What an operation returns. -/
inductive Outcome where
  | inserted (id : RowId)
  | found (row : Option StoredRow)
  | erased (done : Bool)
  | updated (id : RowId)
  | scanned (batches : List (List StoredRow))
  | done
deriving DecidableEq

namespace HeapSession

/-- Over an empty directory. -/
def new (root : Bytes) (capacityPages : Nat) (iteration : IterationOrder) : HeapSession where
  storage := { disk := { root }, pool := .new capacityPages iteration }
  files path := { path }

/-- An operation on the heap file of a path. -/
def onFile {α : Type} (session : HeapSession) (path : Path) (use : HeapM α) (outcome : α → Outcome) :
    Except Error Outcome × HeapSession :=
  match use ⟨session.storage, session.files path⟩ with
  | .ok a state => (.ok (outcome a), ⟨state.storage, Function.update session.files path state.file⟩)
  | .error error state => (.error error, ⟨state.storage, Function.update session.files path state.file⟩)

/-- An operation on the pool. -/
def onPool (session : HeapSession) (use : StorageM Unit) : Except Error Outcome × HeapSession :=
  match use session.storage with
  | .ok _ storage => (.ok .done, { session with storage })
  | .error error storage => (.error error, { session with storage })

/-- One operation. -/
def step (session : HeapSession) : HeapOp → Except Error Outcome × HeapSession
  | .insert path tuple => session.onFile path (HeapFile.insert tuple) .inserted
  | .read path id => session.onFile path (HeapFile.read id) .found
  | .erase path id => session.onFile path (HeapFile.erase id) .erased
  | .update path id tuple => session.onFile path (HeapFile.update id tuple) .updated
  | .scanBatches path batchSize => session.onFile path (HeapFile.scanBatches batchSize) .scanned
  | .scanProjectedBatches path columns batchSize =>
    session.onFile path (HeapFile.scanProjectedBatches columns batchSize) .scanned
  | .evict => session.onPool Storage.evictOne
  | .flush key => session.onPool (modify (Storage.flushKey · key))
  | .flushFile path => session.onPool (modify (Storage.flushFile · path))
  | .flushAll => session.onPool (modify Storage.flushAll)
  | .fetch key => session.onPool (Storage.withPage key false (pure ()))

/-- The results of a sequence of operations. -/
def run (session : HeapSession) : List HeapOp → List (Except Error Outcome)
  | [] => []
  | op :: ops => (session.step op).1 :: (session.step op).2.run ops

/-- Before each of the operations every file has less than 2³² pages. -/
def SmallFiles (session : HeapSession) : List HeapOp → Prop
  | [] => True
  | op :: ops => (∀ path, pagesOf session.storage.disk.files path < 4294967296) ∧
      (session.step op).2.SmallFiles ops

end HeapSession

/-! ### Maps -/

/-- The heap files that exist, as maps. -/
abbrev HeapMaps := Path → Option HeapMap

namespace HeapMaps

/-- The rows of a file, none when it does not exist. -/
def rows (m : HeapMaps) (path : Path) : HeapMap :=
  (m path).getD fun _ ↦ none

/-- The file exists and has these rows. -/
def put (m : HeapMaps) (path : Path) (rows : HeapMap) : HeapMaps :=
  Function.update m path (some rows)

/-- The file has these rows if it exists. -/
def set (m : HeapMaps) (path : Path) (rows : HeapMap) : HeapMaps :=
  Function.update m path ((m path).map fun _ ↦ rows)

theorem rows_of_missing {m : HeapMaps} {path : Path} (h : m path = none) :
    m.rows path = fun _ ↦ none := by
  rw [rows, h, Option.getD_none]

theorem set_of_missing {m : HeapMaps} {path : Path} (h : m path = none) (rows : HeapMap) :
    m.set path rows = m := by
  rw [set, h, Option.map_none, ← h, Function.update_eq_self]

theorem set_of_exists {m : HeapMaps} {path : Path} {rows : HeapMap} (h : m path = some rows)
    (rows' : HeapMap) : m.set path rows' = m.put path rows' := by
  rw [set, h, Option.map_some, put]

theorem put_rows {m : HeapMaps} {path : Path} {rows : HeapMap} (h : m path = some rows) :
    m.put path (m.rows path) = m := by
  rw [put, HeapMaps.rows, h, Option.getD_some, ← h, Function.update_eq_self]

end HeapMaps

/-- The rows in batches: in this order, and all but the last batch are full. -/
structure IsBatches (batchSize : Nat) (found : List StoredRow) (batches : List (List StoredRow)) :
    Prop where
  flatten : batches.flatten = found
  nonempty : ∀ batch ∈ batches, batch ≠ []
  full : ∀ batch ∈ batches.dropLast, batch.length = batchSize

/-- What an operation may return, and the maps after it. -/
def Allowed (m : HeapMaps) (op : HeapOp) (result : Except Error Outcome) (m' : HeapMaps) : Prop :=
  match op with
  | .insert path tuple =>
    (HeapFile.Storable tuple ∧ ∃ id, result = .ok (.inserted id) ∧ m.rows path id = none ∧
        m' = m.put path (Function.update (m.rows path) id (some tuple))) ∨
      ¬HeapFile.Storable tuple ∧ (∃ error, result = .error error) ∧ m' = m.put path (m.rows path)
  | .read path id => m' = m ∧
      match m path with
      | some rows => result = .ok (.found ((rows id).map (⟨id, ·⟩)))
      | none => ∃ error, result = .error error
  | .erase path id => result = .ok (.erased (m.rows path id).isSome) ∧
      m' = m.set path (Function.update (m.rows path) id none)
  | .update path id tuple =>
    (∃ new, result = .ok (.updated new) ∧ (m.rows path id).isSome ∧
        (new = id ∨ m.rows path new = none) ∧
        m' = m.set path
          (Function.update (Function.update (m.rows path) id none) new (some tuple))) ∨
      (∃ error, result = .error error) ∧ (m.rows path id = none ∨ ¬HeapFile.Storable tuple) ∧
        (m' = m ∨ m' = m.set path (Function.update (m.rows path) id none))
  | .scanBatches path batchSize => m' = m ∧
      if HeapFile.ValidBatch batchSize then ∃ found batches, IsScan (m.rows path) found ∧
        IsBatches batchSize found batches ∧ result = .ok (.scanned batches)
      else ∃ error, result = .error error
  | .scanProjectedBatches path columns batchSize => m' = m ∧
      ((HeapFile.ValidBatch batchSize ∧ HeapFile.sortedUnique columns ∧
          HeapFile.ColumnsExist (m.rows path) columns ∧ ∃ found batches, IsScan (m.rows path) found ∧
            IsBatches batchSize (found.map fun row ↦ ⟨row.id, HeapFile.project columns row.values⟩)
              batches ∧ result = .ok (.scanned batches)) ∨
        ¬(HeapFile.ValidBatch batchSize ∧ HeapFile.sortedUnique columns ∧
          HeapFile.ColumnsExist (m.rows path) columns) ∧ ∃ error, result = .error error)
  | .evict | .flush _ | .flushFile _ | .flushAll | .fetch _ => m' = m

/-- The maps may return these results one after the other. -/
def AllowedRun (m : HeapMaps) : List HeapOp → List (Except Error Outcome) → Prop
  | [], results => results = []
  | op :: ops, results =>
    ∃ result rest m', results = result :: rest ∧ Allowed m op result m' ∧ AllowedRun m' ops rest

/-! ### Refinement -/

/-- The rows are cut into batches of the size asked for. -/
theorem isBatches_batches {batchSize : Nat} (hpos : 0 < batchSize) (found : List StoredRow) :
    IsBatches batchSize found (batches batchSize found) := by
  obtain ⟨hflatten, hnonempty, hfull⟩ := batches_spec hpos found
  exact ⟨hflatten, hnonempty, hfull⟩

theorem isScan_empty : IsScan (fun _ ↦ none) [] :=
  ⟨.nil, fun _ ↦ iff_of_false List.not_mem_nil nofun⟩

/-- The heap files of the session hold these maps. -/
structure Represents (session : HeapSession) (m : HeapMaps) : Prop where
  ok : StorageOK (fun _ ↦ True) session.storage
  settled : Settled session.storage
  path_eq : ∀ path, (session.files path).path = path
  known : ∀ path, ∀ pages ∈ (session.files path).knownPageCount,
    pages = pagesOf session.storage.disk.files path
  exist : ∀ path, (m path).isSome ↔ path ∈ session.storage.disk.files
  holds : ∀ path, Holds session.storage path (m.rows path)

namespace Represents

variable {session : HeapSession} {m : HeapMaps} {path : Path} {rows : HeapMap}

/-- Every file of a session is well formed. -/
theorem heapOK (h : Represents session m) (path : Path) :
    HeapOK (fun _ ↦ True) session.storage (session.files path) := by
  refine ⟨h.ok, h.settled, trivial, ?_⟩
  rw [h.path_eq]
  exact h.known path

/-- Every file holds the rows of its map. -/
theorem holds_file (h : Represents session m) (path : Path) :
    Holds session.storage (session.files path).path (m.rows path) := by
  rw [h.path_eq]
  exact h.holds path

/-- A step of the pool leaves what a session represents. -/
theorem pool (h : Represents session m) {s : Storage}
    (hstep : PoolStep (fun _ ↦ True) session.storage s) :
    Represents { session with storage := s } m := by
  obtain ⟨hsettled, hpages⟩ := hstep.settled h.settled
  refine ⟨hstep.ok, hsettled, h.path_eq, fun path pages hknown ↦ ?_, fun path ↦ ?_, fun path ↦ ?_⟩
  · rw [hpages]
    exact h.known path pages hknown
  · rw [hstep.mem]
    exact h.exist path
  · exact (h.holds path).poolStep hstep

/-- After an operation on a file that exists then. -/
theorem after (h : Represents session m) {state : HeapState}
    (hafter : HeapFile.After (fun _ ↦ True) session.storage path rows state)
    (hfile : path ∈ state.storage.disk.files) :
    Represents ⟨state.storage, Function.update session.files path state.file⟩ (m.put path rows) := by
  refine ⟨hafter.step.ok, hafter.step.settled, fun other ↦ ?_, fun other ↦ ?_, fun other ↦ ?_,
    fun other ↦ ?_⟩
  · show (Function.update session.files path state.file other).path = other
    by_cases hother : other = path
    · subst hother
      rw [Function.update_self, hafter.path_eq]
    · rw [Function.update_of_ne hother, h.path_eq]
  · show ∀ pages ∈ (Function.update session.files path state.file other).knownPageCount,
      pages = pagesOf state.storage.disk.files other
    by_cases hother : other = path
    · subst hother
      have hknown := hafter.ok.known
      rwa [hafter.path_eq, ← Function.update_self other state.file session.files] at hknown
    · rw [Function.update_of_ne hother, hafter.step.pages other hother]
      exact h.known other
  · by_cases hother : other = path
    · subst hother
      rw [HeapMaps.put, Function.update_self]
      exact iff_of_true rfl hfile
    · rw [HeapMaps.put, Function.update_of_ne hother, hafter.step.mem other hother]
      exact h.exist other
  · by_cases hother : other = path
    · subst hother
      rw [HeapMaps.rows, HeapMaps.put, Function.update_self]
      exact hafter.holds
    · rw [HeapMaps.rows, HeapMaps.put, Function.update_of_ne hother]
      exact (h.holds other).heapStep hafter.step hother

/-- After an operation that changed the object alone. -/
theorem refile (h : Represents session m) {file : HeapFile} (hpath : file.path = path)
    (hknown : ∀ pages ∈ file.knownPageCount, pages = pagesOf session.storage.disk.files path) :
    Represents { session with files := Function.update session.files path file } m := by
  refine ⟨h.ok, h.settled, fun other ↦ ?_, fun other ↦ ?_, h.exist, h.holds⟩
  · show (Function.update session.files path file other).path = other
    by_cases hother : other = path
    · subst hother
      rw [Function.update_self, hpath]
    · rw [Function.update_of_ne hother, h.path_eq]
  · show ∀ pages ∈ (Function.update session.files path file other).knownPageCount,
      pages = pagesOf session.storage.disk.files other
    by_cases hother : other = path
    · subst hother
      rw [Function.update_self]
      exact hknown
    · rw [Function.update_of_ne hother]
      exact h.known other

end Represents

/-! ### One operation -/

section Step

open HeapFile

variable {session : HeapSession} {m : HeapMaps}

/-- A call that returns on the file returns on the session. -/
theorem HeapSession.onFile_of_ok {α : Type} {path : Path} {use : HeapM α} {outcome : α → Outcome} {a : α}
    {state : HeapState} (h : use ⟨session.storage, session.files path⟩ = .ok a state) :
    session.onFile path use outcome =
      (.ok (outcome a), ⟨state.storage, Function.update session.files path state.file⟩) := by
  rw [HeapSession.onFile, h]

/-- A call that fails on the file fails on the session. -/
theorem HeapSession.onFile_of_error {α : Type} {path : Path} {use : HeapM α} {outcome : α → Outcome}
    {error : Error} {state : HeapState}
    (h : use ⟨session.storage, session.files path⟩ = .error error state) :
    session.onFile path use outcome =
      (.error error, ⟨state.storage, Function.update session.files path state.file⟩) := by
  rw [HeapSession.onFile, h]

/-- The operation returns what the maps allow, and leaves heap files that hold them. -/
def Simulates (session : HeapSession) (m : HeapMaps) (op : HeapOp) : Prop :=
  ∃ m', Allowed m op (session.step op).1 m' ∧ Represents (session.step op).2 m'

theorem Represents.exists_rows (h : Represents session m) {path : Path}
    (hfile : path ∈ session.storage.disk.files) : ∃ rows, m path = some rows :=
  Option.isSome_iff_exists.1 ((h.exist path).2 hfile)

/-- A file that does not exist has none. -/
theorem Represents.missing (h : Represents session m) {path : Path}
    (hfile : path ∉ session.storage.disk.files) : m path = none := by
  rw [← Option.not_isSome_iff_eq_none, h.exist path]
  exact hfile

/-- Counting the pages is all that some operations do. -/
theorem Represents.counted (h : Represents session m) (path : Path) :
    Represents ⟨session.storage, Function.update session.files path
      (counted session.storage (session.files path))⟩ m :=
  h.refile (h.path_eq path) fun pages hknown ↦ by
    rw [← Option.some.inj hknown, h.path_eq path]

variable (h : Represents session m)

include h

/-- An insertion is one on the map of its file. -/
theorem simulates_insert (path : Path) (tuple : Tuple)
    (hsmall : pagesOf session.storage.disk.files path < 4294967296) :
    Simulates session m (.insert path tuple) := by
  have hok := h.heapOK path
  have hholds := h.holds_file path
  by_cases hfits : Storable tuple
  · obtain ⟨id, state, hrun, hfree, hafter, hfile⟩ := insert_spec hok hholds
      (by rwa [h.path_eq]) hfits
    rw [h.path_eq] at hafter hfile
    refine ⟨_, .inl ⟨hfits, id, ?_, hfree, rfl⟩, ?_⟩ <;> rw [HeapSession.step, HeapSession.onFile_of_ok hrun]
    exact h.after hafter hfile
  · obtain ⟨error, state, hrun, hafter, hfile⟩ := insert_error hok hholds hfits
    rw [h.path_eq] at hafter hfile
    refine ⟨_, .inr ⟨hfits, ⟨error, ?_⟩, rfl⟩, ?_⟩ <;> rw [HeapSession.step, HeapSession.onFile_of_error hrun]
    exact h.after hafter hfile

/-- A read is one in the map of its file. -/
theorem simulates_read (path : Path) (id : RowId) : Simulates session m (.read path id) := by
  have hok := h.heapOK path
  have hsame : Function.update session.files path (session.files path) = session.files :=
    Function.update_eq_self path session.files
  by_cases hfile : path ∈ session.storage.disk.files
  · obtain ⟨rows, hrows⟩ := h.exists_rows hfile
    obtain ⟨s', hstep, hrun⟩ := read_spec hok (by rwa [h.path_eq]) (h.holds_file path) id
    refine ⟨m, ⟨rfl, ?_⟩, ?_⟩ <;> rw [HeapSession.step, HeapSession.onFile_of_ok hrun]
    · rw [hrows, HeapMaps.rows, hrows]
      rfl
    · rw [hsame]
      exact h.pool hstep
  · obtain ⟨s', hstep, hrun⟩ := read_missing hok (by rwa [h.path_eq]) id
    refine ⟨m, ⟨rfl, ?_⟩, ?_⟩ <;> rw [HeapSession.step, HeapSession.onFile_of_error hrun]
    · rw [h.missing hfile]
      exact ⟨_, rfl⟩
    · rw [hsame]
      exact h.pool hstep

/-- A deletion is one in the map of its file. -/
theorem simulates_erase (path : Path) (id : RowId) : Simulates session m (.erase path id) := by
  have hok := h.heapOK path
  by_cases hfile : path ∈ session.storage.disk.files
  · obtain ⟨rows, hrows⟩ := h.exists_rows hfile
    obtain ⟨state, hrun, hafter, -⟩ := erase_spec hok (h.holds_file path) id
    rw [h.path_eq] at hafter
    refine ⟨_, ⟨?_, rfl⟩, ?_⟩ <;> rw [HeapSession.step, HeapSession.onFile_of_ok hrun]
    rw [HeapMaps.set_of_exists hrows]
    exact h.after hafter (hafter.step.stays hfile)
  · have hmissing := h.missing hfile
    have hrun := erase_missing hok (by rwa [h.path_eq]) id
    refine ⟨m, ⟨?_, (HeapMaps.set_of_missing hmissing _).symm⟩, ?_⟩ <;>
      rw [HeapSession.step, HeapSession.onFile_of_ok hrun]
    · rw [HeapMaps.rows_of_missing hmissing]
      rfl
    · exact h.counted path

/-- An update is one in the map of its file. -/
theorem simulates_update (path : Path) (id : RowId) (tuple : Tuple)
    (hsmall : pagesOf session.storage.disk.files path < 4294967296) :
    Simulates session m (.update path id tuple) := by
  have hok := h.heapOK path
  by_cases hfile : path ∈ session.storage.disk.files
  · obtain ⟨rows, hrows⟩ := h.exists_rows hfile
    have hupdated := update_spec hok (h.holds_file path) (by rwa [h.path_eq]) id tuple
    rw [h.path_eq] at hupdated
    cases hrun : update id tuple ⟨session.storage, session.files path⟩ with
    | ok new state =>
      rw [hrun] at hupdated
      obtain ⟨hlive, hnew, hafter⟩ := hupdated
      refine ⟨_, .inl ⟨new, ?_, hlive, hnew, rfl⟩, ?_⟩ <;>
        rw [HeapSession.step, HeapSession.onFile_of_ok hrun]
      rw [HeapMaps.set_of_exists hrows]
      exact h.after hafter (hafter.step.stays hfile)
    | error error state =>
      rw [hrun] at hupdated
      -- A failed update has left the row, or has erased it before the insertion failed.
      obtain ⟨hwhy, hafter | hafter⟩ := hupdated
      · refine ⟨m, .inr ⟨⟨error, ?_⟩, hwhy, .inl rfl⟩, ?_⟩ <;>
          rw [HeapSession.step, HeapSession.onFile_of_error hrun]
        rw [← HeapMaps.put_rows hrows]
        exact h.after hafter (hafter.step.stays hfile)
      · refine ⟨_, .inr ⟨⟨error, ?_⟩, hwhy, .inr rfl⟩, ?_⟩ <;>
          rw [HeapSession.step, HeapSession.onFile_of_error hrun]
        rw [HeapMaps.set_of_exists hrows]
        exact h.after hafter (hafter.step.stays hfile)
  · have hmissing := h.missing hfile
    have hdead : m.rows path id = none := by
      rw [HeapMaps.rows_of_missing hmissing]
    obtain ⟨error, file', hrun, hfile'⟩ := update_missing hok (by rwa [h.path_eq]) id tuple
    refine ⟨m, .inr ⟨⟨error, ?_⟩, .inl hdead, .inl rfl⟩, ?_⟩ <;>
      rw [HeapSession.step, HeapSession.onFile_of_error hrun]
    rcases hfile' with rfl | rfl
    · rw [Function.update_eq_self]
      exact h
    · exact h.counted path

/-- A scan in batches lists the map of its file. -/
theorem simulates_scanBatches (path : Path) (batchSize : Nat) :
    Simulates session m (.scanBatches path batchSize) := by
  have hok := h.heapOK path
  by_cases hvalid : ValidBatch batchSize
  · by_cases hfile : path ∈ session.storage.disk.files
    · obtain ⟨rows, hrows⟩ := h.exists_rows hfile
      obtain ⟨state, found, hscan, -, hafter, hrun⟩ := scanBatches_spec hok (h.holds_file path) hvalid
      rw [h.path_eq] at hafter
      refine ⟨m, ⟨rfl, ?_⟩, ?_⟩ <;> rw [HeapSession.step, HeapSession.onFile_of_ok hrun]
      · rw [if_pos hvalid]
        exact ⟨found, _, hscan, isBatches_batches hvalid.1 found, rfl⟩
      · rw [← HeapMaps.put_rows hrows]
        exact h.after hafter (hafter.step.stays hfile)
    · have hrun := EStateM.bind_of_ok (f := fun found ↦ (pure (batches batchSize found) : HeapM _))
        (scanAll_missing hok (by rwa [h.path_eq]) decodeTuple)
      rw [← scanBatches_eq hvalid] at hrun
      refine ⟨m, ⟨rfl, ?_⟩, ?_⟩ <;> rw [HeapSession.step, HeapSession.onFile_of_ok hrun]
      · rw [if_pos hvalid, HeapMaps.rows_of_missing (h.missing hfile)]
        exact ⟨[], _, isScan_empty, isBatches_batches hvalid.1 [], rfl⟩
      · exact h.counted path
  · obtain ⟨error, hrun⟩ := scanBatches_invalid hvalid ⟨session.storage, session.files path⟩
    refine ⟨m, ⟨rfl, ?_⟩, ?_⟩ <;> rw [HeapSession.step, HeapSession.onFile_of_error hrun]
    · rw [if_neg hvalid]
      exact ⟨error, rfl⟩
    · rw [Function.update_eq_self]
      exact h

/-- A projected scan lists the columns of the map of its file. -/
theorem simulates_scanProjectedBatches (path : Path) (columns : List Nat) (batchSize : Nat) :
    Simulates session m (.scanProjectedBatches path columns batchSize) := by
  have hok := h.heapOK path
  by_cases hargs : ValidBatch batchSize ∧ sortedUnique columns
  · obtain ⟨hvalid, hsorted⟩ := hargs
    by_cases hfile : path ∈ session.storage.disk.files
    · obtain ⟨rows, hrows⟩ := h.exists_rows hfile
      obtain ⟨state, found, hscan, hafter, hexist, hmissing⟩ :=
        scanProjectedBatches_spec hok (h.holds_file path) hsorted hvalid
      rw [h.path_eq] at hafter
      have hafter' : Represents ⟨state.storage, Function.update session.files path state.file⟩ m := by
        rw [← HeapMaps.put_rows hrows]
        exact h.after hafter (hafter.step.stays hfile)
      by_cases hcolumns : ColumnsExist (m.rows path) columns
      · refine ⟨m, ⟨rfl, .inl ⟨hvalid, hsorted, hcolumns, found, _, hscan, isBatches_batches hvalid.1 _,
          ?_⟩⟩, ?_⟩ <;> rw [HeapSession.step, HeapSession.onFile_of_ok (hexist hcolumns)]
        exact hafter'
      · refine ⟨m, ⟨rfl, .inr ⟨fun hall ↦ hcolumns hall.2.2, lit "Invalid projected tuple columns", ?_⟩⟩,
          ?_⟩ <;> rw [HeapSession.step, HeapSession.onFile_of_error (hmissing hcolumns)]
        exact hafter'
    -- A file that is missing is scanned as an empty one, and its pages are counted.
    · have hrun := EStateM.bind_of_ok (f := fun found ↦ (pure (batches batchSize found) : HeapM _))
        (scanAll_missing hok (by rwa [h.path_eq]) (decodeTupleProjected · columns))
      rw [← scanProjectedBatches_eq hsorted hvalid] at hrun
      have hempty := HeapMaps.rows_of_missing (h.missing hfile)
      have hcolumns : ColumnsExist (m.rows path) columns := by
        rw [hempty]
        exact fun _ _ hnone ↦ nomatch hnone
      refine ⟨m, ⟨rfl, .inl ⟨hvalid, hsorted, hcolumns, [], _, ?_, isBatches_batches hvalid.1 _, ?_⟩⟩, ?_⟩
      · rw [hempty]
        exact isScan_empty
      · rw [HeapSession.step, HeapSession.onFile_of_ok hrun]
        rfl
      · rw [HeapSession.step, HeapSession.onFile_of_ok hrun]
        exact h.counted path
  · obtain ⟨error, hrun⟩ := scanProjectedBatches_invalid hargs ⟨session.storage, session.files path⟩
    refine ⟨m, ⟨rfl, .inr ⟨fun hall ↦ hargs ⟨hall.1, hall.2.1⟩, error, ?_⟩⟩, ?_⟩ <;>
      rw [HeapSession.step, HeapSession.onFile_of_error hrun]
    rw [Function.update_eq_self]
    exact h

/-- Work of the pool changes no map. -/
theorem simulates_pool {use : StorageM Unit} (huse : PoolStep (fun _ ↦ True) session.storage
    (use.final session.storage)) : Represents (session.onPool use).2 m := by
  unfold HeapSession.onPool
  cases hrun : use session.storage with
  | ok a s =>
    rw [EStateM.final_of_ok hrun] at huse
    exact h.pool huse
  | error error s =>
    rw [EStateM.final_of_error hrun] at huse
    exact h.pool huse

/-- Evicting a page changes no map. -/
theorem simulates_evict : Simulates session m .evict := by
  refine ⟨m, rfl, simulates_pool h ?_⟩
  by_cases hempty : session.storage.pool.frames = []
  · have hrun : Storage.evictOne session.storage =
        .error (lit "All buffer pool pages are pinned") session.storage := by
      simp only [Storage.evictOne, bind, EStateM.bind, get, getThe, MonadStateOf.get, EStateM.get, hempty]
      rfl
    rw [EStateM.final_of_error hrun]
    exact .refl h.ok
  · obtain ⟨frame, hmem, hrun⟩ := h.ok.evictOne hempty
    rw [EStateM.final_of_ok hrun]
    exact h.ok.evicted hmem

/-- Fetching a page changes no map. -/
theorem simulates_fetch (key : PageKey) : Simulates session m (.fetch key) := by
  refine ⟨m, rfl, simulates_pool h ?_⟩
  by_cases hfile : key.file ∈ session.storage.disk.files
  · obtain ⟨s', result, hstep, hrun, rfl⟩ := h.ok.viewPage key false (pure ()) (· = .ok ()) trivial hfile
      fun guard _ _ ↦ ⟨_, rfl, rfl⟩
    rw [EStateM.final_of_ok hrun]
    exact hstep
  · obtain ⟨s', hstep, hrun⟩ := h.ok.fetch_missing key hfile
    have hrun' : Storage.withPage key false (pure ()) session.storage = .error _ s' :=
      EStateM.bind_of_error hrun
    rw [EStateM.final_of_error hrun']
    exact hstep

/-- Every operation returns what the maps allow. -/
theorem simulates_step (hsmall : ∀ path, pagesOf session.storage.disk.files path < 4294967296)
    (op : HeapOp) : Simulates session m op := by
  cases op with
  | insert path tuple => exact simulates_insert h path tuple (hsmall path)
  | read path id => exact simulates_read h path id
  | erase path id => exact simulates_erase h path id
  | update path id tuple => exact simulates_update h path id tuple (hsmall path)
  | scanBatches path batchSize => exact simulates_scanBatches h path batchSize
  | scanProjectedBatches path columns batchSize =>
    exact simulates_scanProjectedBatches h path columns batchSize
  | evict => exact simulates_evict h
  | flush key => exact ⟨m, rfl, simulates_pool h (h.ok.flushKey key)⟩
  | flushFile path => exact ⟨m, rfl, simulates_pool h (h.ok.flushFile path)⟩
  | flushAll => exact ⟨m, rfl, simulates_pool h h.ok.flushAll⟩
  | fetch key => exact simulates_fetch h key

end Step

/-! ### Runs -/

/-- Heap files that hold maps return what the maps allow, over every run. -/
theorem Represents.run {session : HeapSession} {m : HeapMaps} (h : Represents session m)
    {ops : List HeapOp} (hsmall : session.SmallFiles ops) : AllowedRun m ops (session.run ops) := by
  induction ops generalizing session m with
  | nil => rfl
  | cons op ops ih =>
    obtain ⟨m', hallowed, hnext⟩ := simulates_step h hsmall.1 op
    exact ⟨_, _, m', rfl, hallowed, ih hnext hsmall.2⟩

/-- A pool without frames over an empty directory. -/
theorem storageOK_new (heaps : Path → Prop) (root : Bytes) (capacityPages : Nat) (iteration : IterationOrder) :
    StorageOK heaps (HeapSession.new root capacityPages iteration).storage := by
  refine ⟨Nat.le_max_left _ _, Nat.zero_le _, List.nodup_nil, nofun, nofun, nofun, fun path _ ↦ ?_,
    fun key _ hlt ↦ ?_⟩
  · exact ⟨0, by rw [show (HeapSession.new root capacityPages iteration).storage.disk.files = ∅ from rfl,
      Std.ExtTreeMap.getD_empty]; rfl⟩
  · have hnone : pagesOf (∅ : Files) key.file = 0 := pagesOf_missing Std.ExtTreeMap.not_mem_empty
    have hlt' : key.page < pagesOf (∅ : Files) key.file := hlt
    rw [hnone] at hlt'
    exact absurd hlt' (Nat.not_lt_zero _)

/-- A new session holds no rows. -/
theorem holds_new (root : Bytes) (capacityPages : Nat) (iteration : IterationOrder) (path : Path) :
    Holds (HeapSession.new root capacityPages iteration).storage path fun _ ↦ none := by
  intro id
  have hpage : (HeapSession.new root capacityPages iteration).storage.page ⟨path, id.page⟩ =
      PageBytes.zero := by
    rw [page_of_not_mem fun _ hmem ↦ absurd hmem List.not_mem_nil]
    show pageOfFile ((∅ : Files).getD path []) id.page = PageBytes.zero
    rw [Std.ExtTreeMap.getD_empty]
    exact pageOfFile_beyond (Nat.zero_le _)
  rw [Storage.rowsAt, hpage, rowAt_zero]
  rfl

/-- An empty directory holds no map. -/
theorem represents_new (root : Bytes) (capacityPages : Nat) (iteration : IterationOrder) :
    Represents (.new root capacityPages iteration) fun _ ↦ none where
  ok := storageOK_new _ root capacityPages iteration
  settled := nofun
  path_eq _ := rfl
  known _ _ := nofun
  exist _ := iff_of_false Bool.false_ne_true Std.ExtTreeMap.not_mem_empty
  holds path := holds_new root capacityPages iteration path

/-- Heap files over one pool of any capacity behave as maps, for every sequence of operations that meets
no file of 2³² pages. -/
theorem heapFiles_refine_maps (root : Bytes) (capacityPages : Nat) (iteration : IterationOrder)
    (ops : List HeapOp) (hsmall : (HeapSession.new root capacityPages iteration).SmallFiles ops) :
    AllowedRun (fun _ ↦ none) ops ((HeapSession.new root capacityPages iteration).run ops) :=
  (represents_new root capacityPages iteration).run hsmall

/-- A session with one frame over an empty directory. -/
def oneFrame : HeapSession :=
  .new (lit "/db") 1 ⟨id, List.Perm.refl⟩

theorem pagesOf_empty_lt (path : Path) : pagesOf (∅ : Files) path < 4294967296 := by
  rw [pagesOf_missing Std.ExtTreeMap.not_mem_empty]
  decide

/-- Whether every file has less than 2³² pages before each of the operations. -/
def HeapSession.smallFiles (session : HeapSession) : List HeapOp → Bool
  | [] => true
  | op :: ops => session.storage.disk.files.toList.all (fun entry ↦ entry.2.length / pageSize < 4294967296) &&
      (session.step op).2.smallFiles ops

/-- The check of the file sizes is sound. -/
theorem HeapSession.smallFiles_sound {session : HeapSession} {ops : List HeapOp}
    (h : session.smallFiles ops = true) : session.SmallFiles ops := by
  induction ops generalizing session with
  | nil => trivial
  | cons op ops ih =>
    obtain ⟨hfiles, hrest⟩ := Bool.and_eq_true_iff.1 h
    refine ⟨fun path ↦ ?_, ih hrest⟩
    rcases hfile : session.storage.disk.files[path]? with _ | bytes
    · have hmissing : path ∉ session.storage.disk.files := fun hmem ↦ by
        rw [← Std.ExtTreeMap.isSome_getElem?_iff_mem, hfile] at hmem
        cases hmem
      rw [pagesOf_missing hmissing]
      decide
    · have hmem := List.all_eq_true.1 hfiles _ (Std.ExtTreeMap.mem_toList_iff_getElem?_eq_some.2 hfile)
      rw [pagesOf, Std.ExtTreeMap.getD_eq_getD_getElem?, hfile]
      exact of_decide_eq_true hmem

/-- A row is inserted, read, replaced and read again, found by both scans, and erased. -/
def oneRowOps : List HeapOp :=
  [.insert (lit "a") [.integer 7, .null], .read (lit "a") ⟨0, 0⟩,
    .update (lit "a") ⟨0, 0⟩ [.integer 8, .text (lit "x")], .flushAll, .evict, .read (lit "a") ⟨0, 0⟩,
    .scanBatches (lit "a") 2, .scanProjectedBatches (lit "a") [1] 2, .erase (lit "a") ⟨0, 0⟩,
    .scanBatches (lit "a") 2]

theorem oneFrame_refines_maps : oneFrame.SmallFiles oneRowOps ∧
    AllowedRun (fun _ ↦ none) oneRowOps (oneFrame.run oneRowOps) := by
  have hsmall : oneFrame.SmallFiles oneRowOps := HeapSession.smallFiles_sound (by decide +kernel)
  exact ⟨hsmall, heapFiles_refine_maps (lit "/db") 1 ⟨id, fun _ ↦ .rfl⟩ _ hsmall⟩

/-- Reading from a heap file that was never created throws, and so does a scan with batches of no rows or of more
rows than a vector can hold. -/
theorem heapFile_throws :
    oneFrame.run [.read (lit "a") ⟨0, 0⟩] = [.error (lit "Cannot open heap file: /db/a")] ∧
      oneFrame.run [.scanBatches (lit "a") 0] =
        [.error (lit "Heap scan batch size must be positive")] ∧
      oneFrame.run [.scanBatches (lit "a") 288230376151711744] = [.error (lit "vector::reserve")] :=
  ⟨rfl, rfl, rfl⟩

end SkibidiQL
