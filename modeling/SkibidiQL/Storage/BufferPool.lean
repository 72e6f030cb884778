import SkibidiQL.Storage.Disk
import SkibidiQL.Storage.SlottedPage

/-!
# The buffer pool

`BufferPool` keeps pages of heap files in frames and writes dirty frames back when they are flushed or
evicted. The source has a table of frames and a list of their keys, most recently used first; here the
frames are one list in that order. Loops over the hash table run in an order of its own
(`IterationOrder`).
-/

namespace SkibidiQL

/-- `struct PageKey`. -/
structure PageKey where
  file : Path
  page : Nat
deriving DecidableEq

/-- The order in which a `std::unordered_map` lists its keys. -/
structure IterationOrder where
  order : List PageKey → List PageKey
  perm : ∀ keys, (order keys).Perm keys

/-- `struct Frame`. -/
structure Frame where
  key : PageKey
  bytes : PageBytes
  dirty : Bool := false
  pins : Nat := 0

/-- `class BufferPool`, the frames most recently used first. -/
structure BufferPool where
  capacityPages : Nat
  frames : List Frame := []
  iteration : IterationOrder := ⟨id, List.Perm.refl⟩

/-- The constructor of `BufferPool`. -/
def BufferPool.new (capacityPages : Nat) (iteration : IterationOrder) : BufferPool :=
  { capacityPages := max 1 capacityPages, iteration }

/-- The disk and the buffer pool over it. -/
structure Storage where
  disk : Disk := {}
  pool : BufferPool

/-- Computations on the storage that may throw. -/
abbrev StorageM := EStateM Error Storage

/-- What a `PageGuard` gives access to. -/
structure Guard where
  bytes : PageBytes
  dirty : Bool

/-- Computations under a `PageGuard` that may throw. -/
abbrev GuardM := EStateM Error Guard

/-- A computation on the bytes of the page. -/
def onPage {α : Type} (use : PageM α) : GuardM α := fun guard ↦
  match use guard.bytes with
  | .ok a bytes => .ok a { guard with bytes }
  | .error error bytes => .error error { guard with bytes }

/-- `PageGuard::markDirty`. -/
def markDirty : GuardM Unit :=
  modify fun guard ↦ { guard with dirty := true }

/-- The 4096 bytes of a file from a page on, zeros behind its end. -/
def pageOfFile (file : Bytes) (page : Nat) : PageBytes :=
  PageBytes.zero.write 0 (file.slice (page * pageSize) pageSize)

namespace Storage

/-- The frame of a page. -/
def find? (storage : Storage) (key : PageKey) : Option Frame :=
  storage.pool.frames.find? fun frame ↦ frame.key == key

/-- The frames but the one of a page. -/
def others (storage : Storage) (key : PageKey) : List Frame :=
  storage.pool.frames.filter fun frame ↦ frame.key != key

/-- The storage with other frames. -/
def withFrames (storage : Storage) (frames : List Frame) : Storage :=
  { storage with pool := { storage.pool with frames } }

/-- A change of one frame in its place. -/
def updateFrame (storage : Storage) (key : PageKey) (f : Frame → Frame) : Storage :=
  storage.withFrames (storage.pool.frames.map fun frame ↦ if frame.key = key then f frame else frame)

/-- `BufferPool::writePage`. -/
def writePage (disk : Disk) (key : PageKey) (bytes : PageBytes) : Disk :=
  let disk := if disk.contains key.file then disk else disk.perform (.truncate key.file)
  disk.perform (.write key.file (key.page * pageSize) bytes.bytes)

/-- The disk after `BufferPool::flush` of a frame. -/
def flushed (disk : Disk) (frame : Frame) : Disk :=
  if frame.dirty then writePage disk frame.key frame.bytes else disk

/-- `BufferPool::flush`, on the frame of a page. -/
def flushKey (storage : Storage) (key : PageKey) : Storage :=
  match storage.find? key with
  | none => storage
  | some frame =>
    { storage.updateFrame key ({ · with dirty := false }) with disk := flushed storage.disk frame }

/-- The keys of the frames, as a loop over `frames_` lists them. -/
def keys (storage : Storage) : List PageKey :=
  storage.pool.iteration.order (storage.pool.frames.map (·.key))

/-- `BufferPool::flushAll`. -/
def flushAll (storage : Storage) : Storage :=
  storage.keys.foldl flushKey storage

/-- `BufferPool::flushFile`. -/
def flushFile (storage : Storage) (file : Path) : Storage :=
  (storage.keys.filter (·.file = file)).foldl flushKey storage

/-- `BufferPool::discardAll`. -/
def discardAll : StorageM Unit := do
  let storage ← get
  if storage.pool.frames.any fun frame ↦ frame.pins != 0 then
    throw (lit "Cannot discard buffer pool with pinned pages")
  set (storage.withFrames [])

/-- `BufferPool::invalidateFile`. The source has erased some frames of the file when it meets a pinned
one; no caller holds a page at that time. -/
def invalidateFile (file : Path) : StorageM Unit := do
  let storage ← get
  if storage.pool.frames.any fun frame ↦ frame.key.file = file && frame.pins != 0 then
    throw (lit "Cannot invalidate pinned page")
  set (storage.withFrames (storage.pool.frames.filter fun frame ↦ frame.key.file ≠ file))

/-- `BufferPool::evictOne`: the least recently used frame that is not pinned goes. -/
def evictOne : StorageM Unit := do
  let storage ← get
  match storage.pool.frames.reverse.find? fun frame ↦ frame.pins == 0 with
  | none => throw (lit "All buffer pool pages are pinned")
  | some frame =>
    set { storage.withFrames (storage.others frame.key) with disk := flushed storage.disk frame }

/-- The loop in `fetch` that makes room. Every round evicts a frame or throws, so it ends within as many
rounds as there are frames. -/
def makeRoom : Nat → StorageM Unit
  | 0 => pure ()
  | rounds + 1 => do
    let storage ← get
    if storage.pool.frames.length ≥ storage.pool.capacityPages then
      evictOne
      makeRoom rounds

/-- `BufferPool::readPage`. -/
def readPage (disk : Disk) (key : PageKey) (create : Bool) : Except Error PageBytes :=
  if disk.contains key.file then
    let count := ((disk.read key.file).slice (key.page * pageSize) pageSize).length
    if count ≠ 0 && count ≠ pageSize then
      throw (lit "Partial page in heap file: " ++ disk.absolute key.file)
    else pure (pageOfFile (disk.read key.file) key.page)
  else if create then pure PageBytes.zero
  else throw (lit "Cannot open heap file: " ++ disk.absolute key.file)

/-- `BufferPool::fetch`: the page is in a pinned frame, the most recently used one. -/
def fetch (key : PageKey) (create : Bool) : StorageM Unit := do
  let storage ← get
  match storage.find? key with
  | some frame =>
    set (storage.withFrames ({ frame with pins := frame.pins + 1 } :: storage.others key))
  | none =>
    makeRoom storage.pool.frames.length
    let storage ← get
    match readPage storage.disk key create with
    | .error error => throw error
    | .ok bytes => set (storage.withFrames ({ key, bytes, pins := 1 } :: storage.pool.frames))

/-- The end of a guard's life: its changes are in the frame, which is unpinned. -/
def release (storage : Storage) (key : PageKey) (guard : Guard) : Storage :=
  storage.updateFrame key fun frame ↦
    { frame with bytes := guard.bytes, dirty := guard.dirty, pins := frame.pins - 1 }

/-- A use of a page under a `PageGuard`. -/
def withPage {α : Type} (key : PageKey) (create : Bool) (use : GuardM α) : StorageM α := do
  fetch key create
  let storage ← get
  match storage.find? key with
  | none => throw (lit "Invalid page guard")
  | some frame =>
    match use ⟨frame.bytes, frame.dirty⟩ with
    | .ok a guard =>
      set (storage.release key guard)
      pure a
    | .error error guard =>
      set (storage.release key guard)
      throw error

end Storage

end SkibidiQL
