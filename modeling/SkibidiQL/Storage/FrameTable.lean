import SkibidiQL.Storage.BufferPool

/-!
# The frame table and its list of keys

`BufferPool` has a hash table of frames and, apart from it, a list of their keys with the most recently used
first; each frame remembers its node in the list. `Storage` works with one list of frames instead. Here the
two are as in the source, with guards that point at frames, so that it can be said that they fit.
-/

namespace SkibidiQL

/-- `struct Frame` with its node in the list of keys. Nodes are numbered as they are made, and a pointer to
a frame is the number of its node. -/
structure TableFrame extends Frame where
  lru : Nat

/-- `class BufferPool` over a disk; `made` nodes have been made so far. -/
structure FrameTable where
  disk : Disk := {}
  capacityPages : Nat
  frames : List TableFrame := []
  lru : List (Nat × PageKey) := []
  made : Nat := 0
  iteration : IterationOrder

/-- Computations on the frame table that may throw. -/
abbrev FrameTableM := EStateM Error FrameTable

namespace FrameTable

/-- The constructor of `BufferPool`. -/
def new (disk : Disk) (capacityPages : Nat) (iteration : IterationOrder) : FrameTable :=
  { disk, capacityPages := max 1 capacityPages, iteration }

/-- `frames_.find`. -/
def find? (table : FrameTable) (key : PageKey) : Option TableFrame :=
  table.frames.find? fun frame ↦ frame.key == key

/-- The frame that a pointer points at. -/
def frameAt? (table : FrameTable) (node : Nat) : Option TableFrame :=
  table.frames.find? fun frame ↦ frame.lru == node

/-- A change of a frame through a pointer to it. -/
def update (table : FrameTable) (node : Nat) (f : Frame → Frame) : FrameTable :=
  { table with
    frames := table.frames.map fun frame ↦
      if frame.lru = node then { frame with toFrame := f frame.toFrame } else frame }

/-- `BufferPool::touch`. -/
def touch (table : FrameTable) (node : Nat) : FrameTable :=
  { table with lru := table.lru.filter (·.1 == node) ++ table.lru.filter (·.1 != node) }

/-- `BufferPool::flush`. -/
def flush (table : FrameTable) (frame : TableFrame) : FrameTable :=
  { table.update frame.lru ({ · with dirty := false }) with
    disk := Storage.flushed table.disk frame.toFrame }

/-- Erasing a frame from the list and from the table. -/
def erase (table : FrameTable) (frame : TableFrame) : FrameTable :=
  { table with
    frames := table.frames.filter (·.key != frame.key)
    lru := table.lru.filter (·.1 != frame.lru) }

/-- `BufferPool::evictOne`. -/
def evictOne : FrameTableM Unit := do
  let table ← get
  match table.lru.reverse.findSome? fun node ↦ (table.find? node.2).filter (·.pins == 0) with
  | none => throw (lit "All buffer pool pages are pinned")
  | some frame => set ((table.flush frame).erase frame)

/-- The loop in `fetch` that makes room, for at most so many rounds. -/
def makeRoom : Nat → FrameTableM Unit
  | 0 => pure ()
  | rounds + 1 => do
    let table ← get
    if table.frames.length ≥ table.capacityPages then
      evictOne
      makeRoom rounds

/-- A new frame, in front of the list. -/
def add (table : FrameTable) (key : PageKey) (bytes : PageBytes) : FrameTable :=
  { table with
    frames :=
      -- `emplace` leaves a table alone that has the key
      if (table.find? key).isSome then table.frames
      else { key, bytes, pins := 1, lru := table.made } :: table.frames
    lru := (table.made, key) :: table.lru
    made := table.made + 1 }

/-- `BufferPool::fetch`, with a pointer to the frame for an answer. -/
def fetch (key : PageKey) (create : Bool) : FrameTableM Nat := do
  let table ← get
  match table.find? key with
  | some frame =>
    set ((table.update frame.lru fun frame ↦ { frame with pins := frame.pins + 1 }).touch frame.lru)
    pure frame.lru
  | none =>
    makeRoom table.frames.length
    let table ← get
    match Storage.readPage table.disk key create with
    | .error error => throw error
    | .ok bytes =>
      set (table.add key bytes)
      pure table.made

/-- The keys, as a loop over `frames_` lists them. -/
def keys (table : FrameTable) : List PageKey :=
  table.iteration.order (table.frames.map (·.key))

/-- A round of the loops of `flushAll` and `flushFile`. -/
def flushKey (table : FrameTable) (key : PageKey) : FrameTable :=
  match table.find? key with
  | none => table
  | some frame => table.flush frame

/-- `BufferPool::flushAll`. -/
def flushAll (table : FrameTable) : FrameTable :=
  table.keys.foldl flushKey table

/-- `BufferPool::flushFile`. -/
def flushFile (table : FrameTable) (file : Path) : FrameTable :=
  (table.keys.filter (·.file = file)).foldl flushKey table

/-- `BufferPool::discardAll`. -/
def discardAll : FrameTableM Unit := do
  let table ← get
  if table.frames.any fun frame ↦ frame.pins != 0 then
    throw (lit "Cannot discard buffer pool with pinned pages")
  set { table with frames := [], lru := [] }

/-- A round of the loop of `invalidateFile`, at a page of the file. -/
def invalidateKey (key : PageKey) : FrameTableM Unit := do
  let table ← get
  match table.find? key with
  | none => pure ()
  | some frame =>
    if frame.pins != 0 then
      throw (lit "Cannot invalidate pinned page")
    set (table.erase frame)

/-- The loop of `invalidateFile`. A pinned page of the file ends it, after those that came before. -/
def invalidateKeys : List PageKey → FrameTableM Unit
  | [] => pure ()
  | key :: keys => do
    invalidateKey key
    invalidateKeys keys

/-- `BufferPool::invalidateFile`. -/
def invalidateFile (file : Path) : FrameTableM Unit := do
  let table ← get
  invalidateKeys (table.keys.filter (·.file = file))

/-- `BufferPool::unpin`. -/
def unpin (node : Nat) : FrameTableM Unit := do
  let table ← get
  match table.frameAt? node with
  | none => throw (lit "Invalid page guard")
  | some frame =>
    if frame.pins == 0 then
      throw (lit "Buffer pool pin underflow")
    set (table.update node fun frame ↦ { frame with pins := frame.pins - 1 })

end FrameTable

/-- What the code around a buffer pool does with it. Guards are numbered as they are handed out. -/
inductive PoolOp where
  | fetch (key : PageKey) (create : Bool)
  /-- `PageGuard::bytes`. -/
  | read (guard : Nat)
  /-- New bytes through `PageGuard::bytes`, and `PageGuard::markDirty`. -/
  | write (guard : Nat) (bytes : PageBytes)
  /-- `PageGuard::release`. -/
  | release (guard : Nat)
  | flushAll
  | flushFile (file : Path)
  | invalidateFile (file : Path)
  | discardAll

/-- A buffer pool in use. The guards point at frames, a released one at none. `written` is not part of the
program: it tells the bytes that a page has last got through the pool, unless its frame was thrown away
since. -/
structure PoolSession where
  table : FrameTable
  guards : List (Option Nat) := []
  written : PageKey → Option PageBytes := fun _ ↦ none

namespace PoolSession

/-- A buffer pool that has not been used. -/
def start (disk : Disk) (capacityPages : Nat) (iteration : IterationOrder) : PoolSession :=
  { table := .new disk capacityPages iteration }

/-- The frame of a guard. -/
def guardFrame? (s : PoolSession) (guard : Nat) : Option TableFrame :=
  s.guards[guard]?.join.bind s.table.frameAt?

/-- What is left of `written` when the frames that `table` lacks were thrown away. -/
def writtenIn (s : PoolSession) (table : FrameTable) : PageKey → Option PageBytes := fun key ↦
  if (s.table.find? key).isSome && !(table.find? key).isSome then none else s.written key

/-- An operation that throws frames away. -/
def throwAway (s : PoolSession) (use : FrameTableM Unit) : Except Error (Option PageBytes) × PoolSession :=
  match use s.table with
  | .ok () table => (.ok none, { s with table, written := s.writtenIn table })
  | .error error table => (.error error, { s with table, written := s.writtenIn table })

/-- An operation: its answer, with the bytes that it gives access to, and the pool after it. -/
def step : PoolOp → PoolSession → Except Error (Option PageBytes) × PoolSession
  | .fetch key create, s =>
    match FrameTable.fetch key create s.table with
    | .ok node table =>
      (.ok ((table.frameAt? node).map (·.bytes)), { s with table, guards := s.guards ++ [some node] })
    | .error error table => (.error error, { s with table })
  | .read guard, s =>
    match s.guardFrame? guard with
    | none => (.error (lit "Invalid page guard"), s)
    | some frame => (.ok (some frame.bytes), s)
  | .write guard bytes, s =>
    match s.guardFrame? guard with
    | none => (.error (lit "Invalid page guard"), s)
    | some frame =>
      (.ok none,
        { s with
          table := s.table.update frame.lru fun frame ↦ { frame with bytes, dirty := true }
          written := fun key ↦ if key = frame.key then some bytes else s.written key })
  | .release guard, s =>
    match s.guards[guard]?.join with
    | none => (.ok none, s)
    | some node =>
      match FrameTable.unpin node s.table with
      | .ok () table => (.ok none, { s with table, guards := s.guards.set guard none })
      | .error error table => (.error error, { s with table })
  | .flushAll, s => (.ok none, { s with table := s.table.flushAll })
  | .flushFile file, s => (.ok none, { s with table := s.table.flushFile file })
  | .invalidateFile file, s => s.throwAway (FrameTable.invalidateFile file)
  | .discardAll, s => s.throwAway FrameTable.discardAll

end PoolSession

end SkibidiQL
