import SkibidiQL.Dataset.RowOrigins
import SkibidiQL.Storage.HeapRefinement

/-!
# The rows of a snapshot

A snapshot stores row ids, and its readers, the engine through the buffer pool and the Python package from
the file, look the rows up when they need them. A row id of the snapshot names the row that was captured
under it as long as no statement gives the row id to another row (`snapshotRows_stable`); an INSERT behind a
DELETE may do so (`snapshotRow_replaced`).
-/

namespace SkibidiQL

variable {heaps : Path → Prop}

/-! ### Capturing -/

/-- The loop of `NativeEngine::executeCreateSnapshot`: the row ids of the rows that the condition selects. -/
def captureRows (selects : StoredRow → ReadOnly heaps Bool) : List StoredRow → StorageM (List RowId)
  | [] => pure []
  | row :: rows => do
    if ← (selects row).1 then pure (row.id :: (← captureRows selects rows))
    else captureRows selects rows

/-- `NativeEngine::executeCreateSnapshot`: the row ids that the snapshot stores. -/
def snapshotRowIds (table : Table) (selects : StoredRow → ReadOnly heaps Bool) : StorageM (List RowId) := do
  let rows ← table.scanTable
  captureRows selects rows

/-- Capturing rows only reads. -/
theorem captureRows_reads (selects : StoredRow → ReadOnly heaps Bool) (rows : List StoredRow) :
    EStateM.Keeps (ReadsPages heaps) (captureRows selects rows) := by
  induction rows with
  | nil => exact .pure []
  | cons row rows ih =>
    refine .bind (selects row).2 fun selected ↦ ?_
    cases selected with
    | true => exact .bind ih fun _ ↦ .pure _
    | false => exact ih

/-! ### The Python reader -/

/-- `_read_u16`. -/
def pyReadU16 (page : Bytes) (offset : Nat) : Except Error Nat :=
  if page.length < offset + 2 then
    throw (lit "unpack_from requires a buffer of at least " ++ Bytes.ofNat (offset + 2) ++
      lit " bytes for unpacking 2 bytes at offset " ++ Bytes.ofNat offset ++
      lit " (actual buffer size is " ++ Bytes.ofNat page.length ++ lit ")")
  else pure (LittleEndian.decode (page.slice offset 2))

/-- `_read_row`, up to the bytes that `_decode_tuple` gets. -/
def pyReadRow (disk : Disk) (path : Path) (id : RowId) : Except Error Bytes := do
  if !disk.contains path then
    throw (lit "[Errno 2] No such file or directory: '" ++ disk.absolute path ++ lit "'")
  let page := (disk.read path).slice (id.page * pageSize) pageSize
  -- A short read at the end of the file counts as a missing page.
  if page.length ≠ pageSize then
    throw (lit "page " ++ Bytes.ofNat id.page ++ lit " is missing from " ++ disk.absolute path)
  if LittleEndian.decode (page.slice 0 4) ≠ pageMagic then
    throw (lit "page " ++ Bytes.ofNat id.page ++ lit " is not a skibidi heap page")
  let slotCount ← pyReadU16 page 4
  if id.slot ≥ slotCount then
    throw (lit "slot " ++ Bytes.ofNat id.slot ++ lit " is out of range on page " ++ Bytes.ofNat id.page)
  let slotOffset := 16 + id.slot * 6
  let rowOffset ← pyReadU16 page slotOffset
  let rowLength ← pyReadU16 page (slotOffset + 2)
  let live ← pyReadU16 page (slotOffset + 4)
  if live = 0 then
    throw (lit "row " ++ Bytes.ofNat id.page ++ lit ":" ++ Bytes.ofNat id.slot ++ lit " was deleted")
  pure (page.slice rowOffset rowLength)

open SlottedPage

theorem pyReadU16_eq {page : PageBytes} {offset : Nat} (h : offset + 2 ≤ pageSize) :
    pyReadU16 page.bytes offset = .ok (page.read16 offset) := by
  rw [pyReadU16, page.size_eq, if_neg (Nat.not_lt.2 h)]
  rfl

/-- `_read_row` on a page that is all there. -/
theorem pyReadRow_page {disk : Disk} {path : Path} {id : RowId} {page : PageBytes}
    (hstored : path ∈ disk.files) (hpage : (disk.read path).slice (id.page * pageSize) pageSize = page.bytes)
    (hok : PageOK page) :
    match rowAt page id.slot with
      | some row => pyReadRow disk path id = .ok row
      | none => ∃ error, pyReadRow disk path id = .error error := by
  have hcontains : disk.contains path = true := Std.ExtTreeMap.contains_iff_mem.2 hstored
  have hmagic : LittleEndian.decode (page.bytes.slice 0 4) = pageMagic := hok.magic
  have hstart : pyReadU16 page.bytes 4 = .ok (page.read16 4) :=
    pyReadU16_eq (by rw [show pageSize = 4096 from rfl]; omega)
  unfold pyReadRow
  simp only [hcontains, Bool.not_true, Bool.false_eq_true, if_false, hpage, page.size_eq, ne_eq,
    not_true_eq_false, hmagic, hstart, bind, Except.bind, pure, Except.pure]
  by_cases hslot : id.slot < page.read16 4
  · have hentry := slotOffset_le hok hslot
    have hle := hok.start_le
    have hend := hok.end_le
    rw [slotOffset] at hentry
    have hoffset : pyReadU16 page.bytes (16 + id.slot * 6) = .ok (rowOffset page id.slot) :=
      pyReadU16_eq (by omega)
    have hlength : pyReadU16 page.bytes (16 + id.slot * 6 + 2) = .ok (rowLength page id.slot) :=
      pyReadU16_eq (by omega)
    have hflag : pyReadU16 page.bytes (16 + id.slot * 6 + 4) = .ok (rowFlag page id.slot) :=
      pyReadU16_eq (by omega)
    rw [if_neg (Nat.not_le.2 hslot)]
    simp only [hoffset, hlength, hflag]
    by_cases hlive : rowFlag page id.slot = 0
    · rw [rowAt, if_neg fun hboth ↦ hboth.2 hlive, if_pos hlive]
      exact ⟨_, rfl⟩
    · rw [rowAt, if_pos ⟨hok.slotCount_eq ▸ hslot, hlive⟩, if_neg hlive]
  · rw [rowAt, if_neg fun hboth ↦ hslot (hok.slotCount_eq ▸ hboth.1), if_pos (Nat.le_of_not_lt hslot)]
    exact ⟨_, rfl⟩

/-- `_read_row` finds the row that the table holds, or raises an exception. -/
theorem pyReadRow_spec {path : Path} {rows : HeapMap} {s : Storage} (h : TableOK heaps path rows s)
    (id : RowId) :
    match rows id with
      | some tuple => ∃ row, HeapFile.encodeTuple tuple = .ok row ∧ pyReadRow s.disk path id = .ok row
      | none => ∃ error, pyReadRow s.disk path id = .error error := by
  have hsize : pageSize ∣ (s.disk.read path).length := h.ok.files.size path h.heap
  by_cases hin : id.page < pagesOf s.disk.files path
  · have hslice : (s.disk.read path).slice (id.page * pageSize) pageSize =
        (diskPage s.disk.files ⟨path, id.page⟩).bytes := by
      have hlength : ((s.disk.read path).slice (id.page * pageSize) pageSize).length = pageSize := by
        refine List.length_slice ?_
        rw [← Nat.div_mul_cancel hsize, ← Nat.succ_mul]
        exact Nat.mul_le_mul_right _ hin
      let page : PageBytes := ⟨(s.disk.read path).slice (id.page * pageSize) pageSize, hlength⟩
      have hpage : diskPage s.disk.files ⟨path, id.page⟩ = page := pageOfFile_eq rfl
      rw [hpage]
    have hpage := h.ok.files.pages ⟨path, id.page⟩ h.heap hin
    have hrow := h.rowAt_disk id
    generalize diskPage s.disk.files ⟨path, id.page⟩ = page at hslice hpage hrow
    have hfound := pyReadRow_page h.stored hslice hpage
    rw [hrow] at hfound
    cases htuple : rows id with
    | none =>
      rw [h.holds.none_iff.2 htuple] at hfound
      exact hfound
    | some tuple =>
      obtain ⟨row, hrow, hencode, -⟩ := h.holds.some_iff htuple
      rw [hrow] at hfound
      exact ⟨row, hencode, hfound⟩
  -- Behind the last page there is no row, and a short read raises an exception.
  · have hdead : rows id = none := by
      cases htuple : rows id with
      | none => rfl
      | some tuple => exact absurd (h.inUse.ok.page_lt h.holds htuple) hin
    have hempty : (s.disk.read path).slice (id.page * pageSize) pageSize = [] := by
      rw [List.slice, List.drop_eq_nil_of_le, List.take_nil]
      rw [← Nat.div_mul_cancel hsize]
      exact Nat.mul_le_mul_right _ (Nat.le_of_not_lt hin)
    have hcontains : s.disk.contains path = true := Std.ExtTreeMap.contains_iff_mem.2 h.stored
    rw [hdead]
    unfold pyReadRow
    simp only [hcontains, Bool.not_true, Bool.false_eq_true, if_false, hempty]
    exact ⟨_, rfl⟩

/-! ### Reading captured rows -/

/-- What the readers of a snapshot get under one of its row ids: both get the row that was captured there,
or neither gets any. -/
def ReadsCaptured (path : Path) (state : TableState) (id : RowId) : Prop :=
  ∃ found s', onHeap path (HeapFile.read id) state.storage = .ok found s' ∧
    match found with
      | some stored => state.origins id = .captured id ∧
        ∃ row, HeapFile.encodeTuple stored.values = .ok row ∧
          pyReadRow state.storage.disk path id = .ok row
      | none => ∃ error, pyReadRow state.storage.disk path id = .error error

/-- A captured place that was kept reads its row or none. -/
theorem TableState.OK.readsCaptured {table : Table} {ids : List RowId} {state : TableState}
    (h : TableState.OK heaps table ids state) : ∀ id ∈ ids, ReadsCaptured table.path state id := by
  intro id hid
  obtain ⟨rows, htable, hkeeps⟩ := h
  obtain ⟨s', -, hread⟩ := HeapFile.read_spec htable.inUse.ok htable.stored htable.holds id
  have hpython := pyReadRow_spec htable id
  refine ⟨(rows id).map (⟨id, ·⟩), s', by rw [onHeap, hread], ?_⟩
  cases htuple : rows id with
  | none =>
    rw [htuple] at hpython
    exact hpython
  | some tuple =>
    rw [htuple] at hpython
    exact ⟨hkeeps id hid (by rw [htuple]; rfl), hpython⟩

/-- A database with one table, created by `HeapFile::create` in `NativeEngine::executeCreate`. -/
def newTable (table : Table) (root : Bytes) (capacityPages : Nat) (iteration : IterationOrder) : Storage :=
  (onHeap table.path HeapFile.create).final (HeapSession.new root capacityPages iteration).storage

/-- Creating a file leaves the pool. -/
theorem create_pool {state state' : HeapState} (hrun : HeapFile.create state = .ok () state') :
    state'.storage.pool = state.storage.pool := by
  by_cases hfile : state.storage.disk.contains state.file.path
  · simp only [HeapFile.create, HeapFile.fileExists, bind, EStateM.bind, get, getThe, MonadStateOf.get,
      EStateM.get, pure, EStateM.pure, hfile, Bool.not_true, Bool.false_eq_true, if_false] at hrun
    rw [(EStateM.Result.ok.inj hrun).2]
  · simp only [HeapFile.create, HeapFile.fileExists, bind, EStateM.bind, get, getThe, MonadStateOf.get,
      EStateM.get, pure, EStateM.pure, hfile, Bool.not_false, if_true] at hrun
    rw [← (EStateM.Result.ok.inj hrun).2]

/-- A new table is in order. -/
theorem newTable_ok {table : Table} (hheap : heaps table.path) (root : Bytes) (capacityPages : Nat)
    (iteration : IterationOrder) :
    TableOK heaps table.path (fun _ ↦ none) (newTable table root capacityPages iteration) := by
  have hok := storageOK_new heaps root capacityPages iteration
  have hholds := holds_new root capacityPages iteration table.path
  obtain ⟨state, hrun, hafter, hstored, -⟩ :=
    HeapFile.create_spec (⟨hok, nofun, hheap, nofun⟩ : HeapOK heaps _ { path := table.path }) hholds
  have hfinal : newTable table root capacityPages iteration = state.storage := by
    rw [newTable]
    exact EStateM.final_of_ok (by rw [onHeap, hrun])
  rw [hfinal]
  refine ⟨hafter.step.ok, hafter.step.settled, hheap, hstored, hafter.holds, fun frame hmem ↦ ?_⟩
  rw [create_pool hrun] at hmem
  exact absurd hmem List.not_mem_nil

/-- The row ids of a snapshot are stable: over every run of statements that inserts no row, and moves none,
to the row id of another captured row, the readers find under each of them the row that was captured there
or none. -/
theorem snapshotRows_stable {table : Table} (hheap : heaps table.path) (root : Bytes) (capacityPages : Nat)
    (iteration : IterationOrder) (before after : List (TableStatement heaps table.path))
    (hbefore : TableState.RunAvoids table []
      ⟨newTable table root capacityPages iteration, .captured⟩ before)
    (selects : StoredRow → ReadOnly heaps Bool) {ids : List RowId} {s : Storage}
    (hcapture : snapshotRowIds table selects (TableState.run table
      ⟨newTable table root capacityPages iteration, .captured⟩ before).storage = .ok ids s)
    (hafter : TableState.RunAvoids table ids ⟨s, .captured⟩ after)
    {done rest : List (TableStatement heaps table.path)} (hdone : after = done ++ rest) :
    ∀ id ∈ ids, ReadsCaptured table.path (TableState.run table ⟨s, .captured⟩ done) id := by
  have hstart : TableState.OK heaps table [] ⟨newTable table root capacityPages iteration, .captured⟩ :=
    ⟨_, newTable_ok hheap root capacityPages iteration, fun _ hid ↦ absurd hid List.not_mem_nil⟩
  obtain ⟨rows, htable, -⟩ := hstart.run hbefore
  have hreads : TableOK heaps table.path rows s := by
    obtain ⟨s₁, result, hstep, hscan, -⟩ := scanTable_spec htable
    cases result with
    | error error =>
      rw [snapshotRowIds, EStateM.bind_of_error hscan] at hcapture
      cases hcapture
    | ok scanned =>
      rw [snapshotRowIds, EStateM.bind_of_ok hscan] at hcapture
      have htable₁ := htable.poolStep hstep
      exact htable₁.poolStep ((captureRows_reads selects scanned).ok hcapture htable₁.ok)
  have hcaptured : TableState.OK heaps table ids ⟨s, .captured⟩ := ⟨rows, hreads, fun _ _ _ ↦ rfl⟩
  exact (hcaptured.run (hdone ▸ hafter).of_append).readsCaptured

/-! ### One row after another -/

/-- A table with one column. -/
def marks : Table where
  name := lit "marks"
  path := lit "tables/marks.heap"
  columns := 1
  batchSize := 1024

/-- The statement inserts one number. -/
def insertMark (n : Int64) : TableStatement (fun _ ↦ True) marks.path :=
  .insert [⟨.pure [.integer n], fun _ _ ↦ .pure ()⟩]

/-- The statement deletes all rows. -/
def deleteMarks : TableStatement (fun _ ↦ True) marks.path :=
  .delete fun _ ↦ .pure true

/-- All rows, for a snapshot. -/
def allMarks : StoredRow → ReadOnly (fun _ ↦ True) Bool :=
  fun _ ↦ .pure true

/-- The table with the number 7, in a database with one frame. -/
def oneMark : TableState :=
  TableState.run marks ⟨newTable marks (lit "/db") 1 ⟨id, List.Perm.refl⟩, .captured⟩ [insertMark 7]

/-- The table when a snapshot of it has been created. -/
def snapshotOfMarks : TableState :=
  ⟨(snapshotRowIds marks allMarks).final oneMark.storage, .captured⟩

/-- The state after the row of the snapshot was deleted and another one inserted. -/
def replacedMark : TableState :=
  snapshotOfMarks.run marks [deleteMarks, insertMark 8]

set_option maxRecDepth 100000 in
/-- The row id of a deleted row is given to the next row that is inserted, and both readers of the snapshot
return that row. -/
theorem snapshotRow_replaced :
    ((snapshotRowIds marks allMarks).run' oneMark.storage = some [⟨0, 0⟩] ∧
      (onHeap marks.path (HeapFile.read ⟨0, 0⟩)).run' replacedMark.storage =
        some (some ⟨⟨0, 0⟩, [.integer 8]⟩) ∧
      pyReadRow replacedMark.storage.disk marks.path ⟨0, 0⟩ = HeapFile.encodeTuple [.integer 8] ∧
      replacedMark.origins ⟨0, 0⟩ = .later) ∧
    ¬ReadsCaptured marks.path replacedMark ⟨0, 0⟩ := by
  have hrun : (snapshotRowIds marks allMarks).run' oneMark.storage = some [⟨0, 0⟩] ∧
      (onHeap marks.path (HeapFile.read ⟨0, 0⟩)).run' replacedMark.storage =
        some (some ⟨⟨0, 0⟩, [.integer 8]⟩) ∧
      pyReadRow replacedMark.storage.disk marks.path ⟨0, 0⟩ = HeapFile.encodeTuple [.integer 8] ∧
      replacedMark.origins ⟨0, 0⟩ = .later := by decide +kernel
  refine ⟨hrun, fun ⟨found, s', hread, hfound⟩ ↦ ?_⟩
  obtain ⟨-, hread', -, horigin⟩ := hrun
  rw [EStateM.run', EStateM.run, hread] at hread'
  obtain rfl := Option.some.inj hread'
  rw [horigin] at hfound
  cases hfound.1

/-- A mark that goes to a new place avoids the captured ones. -/
theorem insertMark_avoids {ids : List RowId} {origins : Origins} {s : Storage} {n : Int64}
    (hsmall : pagesOf (s.flushFile marks.path).disk.files marks.path < 4294967296)
    (hplace : ∀ encoded, HeapFile.encodeTuple [.integer n] = .ok encoded →
      insertPlace (s.flushFile marks.path) marks.path encoded ∉ ids) :
    StatementAvoids marks ids origins s (insertMark n) := by
  have hone : ∀ ids' : List RowId, (∀ id ∈ ids', id ∈ ids) → InsertsAvoid ids'
      [(⟨.pure [.integer n], fun _ _ ↦ .pure ()⟩ : RowInput fun _ ↦ True)]
      ⟨s.flushFile marks.path, { path := marks.path }⟩ := by
    intro ids' hsub tuple state₁ htuple
    obtain ⟨rfl, rfl⟩ := EStateM.Result.ok.inj htuple
    exact ⟨⟨hsmall, fun encoded hencode hmem ↦ absurd (hsub _ hmem) (hplace encoded hencode)⟩,
      fun _ _ _ _ _ ↦ trivial⟩
  exact ⟨hone [] fun _ hmem ↦ absurd hmem List.not_mem_nil, fun _ ↦ hone ids fun _ hmem ↦ hmem⟩

set_option maxRecDepth 100000 in
/-- A snapshot of two marks, read after one more and a deletion. -/
theorem snapshotRows_stable_marks :
    ReadsCaptured marks.path (snapshotOfMarks.run marks [insertMark 8, deleteMarks]) ⟨0, 0⟩ := by
  have hcapture := EStateM.eq_of_run' (x := snapshotRowIds marks allMarks) (s := oneMark.storage)
    (a := [⟨0, 0⟩]) (by decide +kernel)
  refine snapshotRows_stable trivial (lit "/db") 1 ⟨id, fun _ ↦ .rfl⟩ [insertMark 7]
    [insertMark 8, deleteMarks] ⟨insertMark_avoids (by decide +kernel) fun _ _ ↦ List.not_mem_nil, trivial⟩
    allMarks hcapture ⟨insertMark_avoids (by decide +kernel) fun encoded hencode ↦ ?_, trivial, trivial⟩
    (List.append_nil _).symm _ (List.mem_singleton_self _)
  obtain rfl := Except.ok.inj hencode
  decide +kernel

end SkibidiQL
