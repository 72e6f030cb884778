import SkibidiQL.Storage.BufferPool
import SkibidiQL.Storage.TupleCodec

/-!
# Heap files

`HeapFile` stores tuples in the slotted pages of a file, which it reads and changes through the buffer
pool. The object remembers the number of pages and the page of the last insertion.

Page numbers have 32 bits. The counters of the loops over the pages would wrap in a file of 2³² pages or
more; here they do not.
-/

namespace SkibidiQL

/-- `struct StoredRow`. -/
structure StoredRow where
  id : RowId
  values : Tuple
deriving DecidableEq

/-- `class HeapFile`. -/
structure HeapFile where
  path : Path
  insertPageHint : Option Nat := none
  knownPageCount : Option Nat := none
deriving DecidableEq

/-- The storage and the `HeapFile` that works on it. -/
structure HeapState where
  storage : Storage
  file : HeapFile

/-- Member functions of `HeapFile`. -/
abbrev HeapM := EStateM Error HeapState

/-- `static_cast<std::uint32_t>`. -/
def toUInt32 (n : Nat) : Nat :=
  n % 4294967296

/-- The batches that a scan hands to its visitor: `full` so far, `rows` since. -/
def addToBatch (batchSize : Nat) (state : List (List StoredRow) × List StoredRow) (row : StoredRow) :
    List (List StoredRow) × List StoredRow :=
  let rows := state.2 ++ [row]
  if rows.length = batchSize then (state.1 ++ [rows], []) else (state.1, rows)

/-- All batches of a scan that finds these rows. -/
def batches (batchSize : Nat) (rows : List StoredRow) : List (List StoredRow) :=
  let (full, rest) := rows.foldl (addToBatch batchSize) ([], [])
  if rest.isEmpty then full else full ++ [rest]

namespace HeapFile

/-- A computation on the storage. -/
def onStorage {α : Type} (use : StorageM α) : HeapM α := fun state ↦
  match use state.storage with
  | .ok a storage => .ok a { state with storage }
  | .error error storage => .error error { state with storage }

/-- A use of a page of the file under a guard. -/
def withPage {α : Type} (page : Nat) (create : Bool) (use : GuardM α) : HeapM α := do
  let state ← get
  onStorage (Storage.withPage ⟨state.file.path, page⟩ create use)

/-- A change of the object. -/
def modifyFile (f : HeapFile → HeapFile) : HeapM Unit :=
  modify fun state ↦ { state with file := f state.file }

/-- `HeapFile::exists`. -/
def fileExists : HeapM Bool := do
  let state ← get
  pure (state.storage.disk.contains state.file.path)

/-- `HeapFile::create`. -/
def create : HeapM Unit := do
  if !(← fileExists) then
    let state ← get
    set { state with storage.disk := state.storage.disk.perform (.truncate state.file.path) }
    modifyFile ({ · with knownPageCount := some 0 })

/-- `HeapFile::flush`. -/
def flush : HeapM Unit :=
  modify fun state ↦ { state with storage := state.storage.flushFile state.file.path }

/-- `HeapFile::drop`. -/
def drop : HeapM Unit := do
  flush
  let state ← get
  onStorage (Storage.invalidateFile state.file.path)
  modify fun state ↦
    if state.storage.disk.contains state.file.path then
      { state with storage.disk := state.storage.disk.perform (.remove state.file.path) }
    else state
  modifyFile ({ · with knownPageCount := some 0, insertPageHint := none })

/-- `HeapFile::pageCount`. -/
def pageCount : HeapM Nat := do
  let state ← get
  match state.file.knownPageCount with
  | some pages => pure pages
  | none =>
    let pages :=
      if state.storage.disk.contains state.file.path then
        -- A part of a page at the end of the file counts as a page.
        ((state.storage.disk.read state.file.path).length + pageSize - 1) / pageSize
      else 0
    modifyFile ({ · with knownPageCount := some pages })
    pure pages

/-- The body of the loop of `HeapFile::insert` under the guard. -/
def insertOnPage (encoded : Bytes) : GuardM (Option Nat) := do
  if !SlottedPage.valid (← get).bytes then onPage (set SlottedPage.formatted)
  let slot ← onPage (SlottedPage.insert encoded)
  if slot.isSome then markDirty
  pure slot

/-- The loop of `HeapFile::insert` over existing pages. -/
def insertOnPages (encoded : Bytes) : List Nat → HeapM (Option RowId)
  | [] => pure none
  | page :: pages => do
    match ← withPage page false (insertOnPage encoded) with
    | some slot =>
      modifyFile ({ · with insertPageHint := some page })
      pure (some ⟨page, slot⟩)
    | none => insertOnPages encoded pages

/-- The end of `HeapFile::insert` under the guard of the new page. -/
def insertOnNewPage (encoded : Bytes) : GuardM Nat := do
  onPage (set SlottedPage.formatted)
  match ← onPage (SlottedPage.insert encoded) with
  | none => throw (lit "Could not insert tuple")
  | some slot =>
    markDirty
    pure slot

/-- The first page that `HeapFile::insert` tries. -/
def firstPage (file : HeapFile) (pages : Nat) : Nat :=
  match file.insertPageHint with
  | some hint => if hint < pages then hint else if pages > 0 then toUInt32 (pages - 1) else 0
  | none => if pages > 0 then toUInt32 (pages - 1) else 0

/-- `HeapFile::insert`. The source flushes the new page before it gives up its guard. -/
def insert (tuple : Tuple) : HeapM RowId := do
  create
  match encodeTuple tuple with
  | .error error => throw error
  | .ok encoded =>
    -- 22 bytes are the header of a page and one slot entry.
    if encoded.length + 22 > pageSize then throw (lit "Tuple exceeds page size")
    let pages ← pageCount
    let first := (← get).file.firstPage pages
    match ← insertOnPages encoded (List.range' first (pages - first)) with
    | some id => pure id
    | none =>
      let page := toUInt32 pages
      let slot ← withPage page true (insertOnNewPage encoded)
      flush
      modifyFile ({ · with insertPageHint := some page, knownPageCount := some (pages + 1) })
      pure ⟨page, slot⟩

/-- The row of one slot, as a scan decodes it. -/
def scanSlot (decode : Bytes → Except Error Tuple) (page : Nat) (bytes : PageBytes) (slot : Nat) :
    Except Error (Option StoredRow) := do
  match ← SlottedPage.read bytes slot with
  | none => pure none
  | some row => pure (some ⟨⟨page, slot⟩, ← decode row⟩)

/-- The rows of one page, as a scan decodes them. -/
def decodePage (decode : Bytes → Except Error Tuple) (page : Nat) : GuardM (List StoredRow) := do
  let bytes := (← get).bytes
  if !SlottedPage.valid bytes then pure []
  else
    match (List.range (SlottedPage.slotCount bytes)).filterMapM (scanSlot decode page bytes) with
    | .error error => throw error
    | .ok rows => pure rows

/-- The loop of a scan over the pages. -/
def scanPages (decode : Bytes → Except Error Tuple) : List Nat → HeapM (List StoredRow)
  | [] => pure []
  | page :: pages => do
    let rows ← withPage page false (decodePage decode page)
    pure (rows ++ (← scanPages decode pages))

/-- The most rows that a `std::vector<StoredRow>` can hold: a `StoredRow` has 32 bytes, and the vector less than
`2 ^ 63`. -/
def maxStoredRows : Nat :=
  288230376151711743

/-- `rows.reserve(batchSize)`, as far as it throws `std::length_error`; the memory itself is taken as there. -/
def reserveRows (batchSize : Nat) : HeapM Unit := do
  if maxStoredRows < batchSize then throw (lit "vector::reserve")

/-- `HeapFile::scanBatches`: what the visitor is given. -/
def scanBatches (batchSize : Nat) : HeapM (List (List StoredRow)) := do
  if batchSize = 0 then throw (lit "Heap scan batch size must be positive")
  reserveRows batchSize
  let pages ← pageCount
  pure (batches batchSize (← scanPages decodeTuple (List.range pages)))

/-- `HeapFile::scanProjectedBatches`: what the visitor is given. -/
def scanProjectedBatches (columns : List Nat) (batchSize : Nat) : HeapM (List (List StoredRow)) := do
  if batchSize = 0 then throw (lit "Heap scan batch size must be positive")
  if !sortedUnique columns then throw (lit "Projected heap columns must be sorted and unique")
  reserveRows batchSize
  let pages ← pageCount
  pure (batches batchSize (← scanPages (decodeTupleProjected · columns) (List.range pages)))

/-- `HeapFile::scan`, for any configured batch size. -/
def scan (batchSize : Nat) : HeapM (List StoredRow) := do
  pure (← scanBatches batchSize).flatten

/-- `HeapFile::read` under the guard. -/
def readSlot (slot : Nat) : GuardM (Option Tuple) := do
  match SlottedPage.read (← get).bytes slot with
  | .error error => throw error
  | .ok none => pure none
  | .ok (some row) =>
    match decodeTuple row with
    | .error error => throw error
    | .ok tuple => pure (some tuple)

/-- `HeapFile::read`. -/
def read (row : RowId) : HeapM (Option StoredRow) := do
  let tuple ← withPage row.page false (readSlot row.slot)
  pure (tuple.map fun values ↦ ⟨row, values⟩)

/-- `HeapFile::erase` under the guard. -/
def eraseSlot (slot : Nat) : GuardM Bool := do
  match SlottedPage.erase (← get).bytes slot with
  | none => pure false
  | some bytes =>
    onPage (set bytes)
    markDirty
    pure true

/-- `HeapFile::erase`. -/
def erase (row : RowId) : HeapM Bool := do
  if row.page ≥ (← pageCount) then pure false
  else withPage row.page false (eraseSlot row.slot)

/-- The update in place of `HeapFile::update` under the guard. -/
def updateSlot (slot : Nat) (encoded : Bytes) : GuardM Bool := do
  match SlottedPage.update (← get).bytes slot encoded with
  | none => pure false
  | some bytes =>
    onPage (set bytes)
    markDirty
    pure true

/-- `HeapFile::update`. -/
def update (row : RowId) (tuple : Tuple) : HeapM RowId := do
  match encodeTuple tuple with
  | .error error => throw error
  | .ok encoded =>
    let inPlace ← do
      if row.page < (← pageCount) then withPage row.page false (updateSlot row.slot encoded)
      else pure false
    if inPlace then pure row
    else
      -- The old row is erased before the new one is known to fit.
      if !(← erase row) then throw (lit "Row no longer exists")
      insert tuple

end HeapFile

end SkibidiQL
