import SkibidiQL.Storage.HeapFileSpec

/-!
# Heap files on disk

Between two statements nothing of a table waits in the buffer pool (`Flushed`), so that the file itself has
the rows that the pool shows. A statement that fails drops the frames of the file and writes back the bytes
that it had before (`rollBack`), which brings back its rows (`rollBack_spec`).
-/

namespace SkibidiQL

open SlottedPage

variable {heaps : Path → Prop} {s s' : Storage} {path : Path} {rows : HeapMap}

/-- No page of the file waits in a dirty frame. -/
def Flushed (s : Storage) (path : Path) : Prop :=
  ∀ frame ∈ s.pool.frames, frame.key.file = path → ¬frame.dirty

theorem Flushed.poolStep (h : Flushed s path) (hstep : PoolStep heaps s s') : Flushed s' path :=
  fun frame hmem hfile hdirty ↦ h frame (hstep.dirty frame hmem hdirty) hfile hdirty

/-! ### Flushing -/

/-- A frame still dirty after a flush is of another page. -/
theorem flushKey_dirty {key : PageKey} {frame : Frame} (hmem : frame ∈ (s.flushKey key).pool.frames)
    (hdirty : frame.dirty) : frame.key ≠ key ∧ frame ∈ s.pool.frames := by
  unfold Storage.flushKey at hmem
  cases hfind : s.find? key with
  | none =>
    rw [hfind] at hmem
    exact ⟨find?_eq_none hfind frame hmem, hmem⟩
  | some found =>
    rw [hfind] at hmem
    obtain ⟨g, hg, rfl⟩ := List.mem_map.1 hmem
    by_cases hkey : g.key = key
    · rw [if_pos hkey] at hdirty
      cases hdirty
    · rw [if_neg hkey]
      exact ⟨hkey, hg⟩

/-- A frame still dirty after several flushes is of none of their pages. -/
theorem flushKeys_dirty {keys : List PageKey} {frame : Frame}
    (hmem : frame ∈ (keys.foldl Storage.flushKey s).pool.frames) (hdirty : frame.dirty) :
    frame.key ∉ keys ∧ frame ∈ s.pool.frames := by
  induction keys generalizing s with
  | nil => exact ⟨List.not_mem_nil, hmem⟩
  | cons key keys ih =>
    obtain ⟨hkeys, hmid⟩ := ih hmem
    obtain ⟨hkey, hfirst⟩ := flushKey_dirty hmid hdirty
    exact ⟨fun hin ↦ (List.mem_cons.1 hin).elim hkey hkeys, hfirst⟩

/-- `BufferPool::flushFile` leaves no dirty page of the file. -/
theorem flushed_flushFile (s : Storage) (path : Path) : Flushed (s.flushFile path) path := by
  intro frame hmem hfile hdirty
  obtain ⟨hkeys, hfirst⟩ := flushKeys_dirty hmem hdirty
  refine hkeys (List.mem_filter.2 ⟨?_, decide_eq_true hfile⟩)
  rw [Storage.keys, (s.pool.iteration.perm _).mem_iff]
  exact List.mem_map.2 ⟨frame, hfirst, rfl⟩

/-- The rows on disk are those that the pool shows. -/
theorem Flushed.rows_eq (h : Flushed s path) (hok : StorageOK heaps s) (hheap : heaps path) (page : Nat) :
    rowAt (diskPage s.disk.files ⟨path, page⟩) = rowAt (s.page ⟨path, page⟩) := by
  by_cases hin : ∃ frame ∈ s.pool.frames, frame.key = ⟨path, page⟩
  · obtain ⟨frame, hmem, hkey⟩ := hin
    have hclean : ¬frame.dirty := h frame hmem (by rw [hkey])
    have hsize : pageSize ∣ (s.disk.files.getD frame.key.file []).length := hok.files.size _ (by rwa [hkey])
    rw [← hkey, page_of_mem hok.nodup hmem, (hok.frames frame hmem).rows_eq hsize hclean]
  · rw [page_of_not_mem fun frame hmem hkey ↦ hin ⟨frame, hmem, hkey⟩]

/-! ### Going back -/

/-- The disk after `NativeEngine::restoreFile`. -/
def restored (disk : Disk) (path : Path) : Option Bytes → Disk
  | none => if disk.contains path then disk.perform (.remove path) else disk
  | some bytes => (disk.perform (.truncate path)).perform (.write path 0 bytes)

/-- `NativeEngine::restoreFile`. -/
def restoreFile (path : Path) (bytes : Option Bytes) : StorageM Unit := do
  Storage.invalidateFile path
  modify fun s ↦ { s with disk := restored s.disk path bytes }

/-- What a statement that fails does before it passes the exception on. -/
def rollBack (path : Path) (before : Option Bytes) : StorageM Unit := do
  Storage.invalidateFile path
  restoreFile path before

/-- The storage without the frames of a file. -/
def Storage.without (s : Storage) (path : Path) : Storage :=
  s.withFrames (s.pool.frames.filter fun frame ↦ frame.key.file ≠ path)

/-- Invalidating a file takes its frames away. -/
theorem StorageOK.invalidateFile (h : StorageOK heaps s) (path : Path) :
    Storage.invalidateFile path s = .ok () (s.without path) := by
  have hpins : (s.pool.frames.any fun frame ↦ frame.key.file = path && frame.pins != 0) = false := by
    rw [List.any_eq_false]
    intro frame hmem
    simp [h.unpinned frame hmem]
  simp only [Storage.invalidateFile, bind, EStateM.bind, get, getThe, MonadStateOf.get, EStateM.get, hpins]
  rfl

theorem mem_without {frame : Frame} :
    frame ∈ (s.without path).pool.frames ↔ frame ∈ s.pool.frames ∧ frame.key.file ≠ path := by
  simp only [Storage.without, Storage.withFrames, List.mem_filter, decide_eq_true_eq]

theorem without_without : (s.without path).without path = s.without path := by
  simp only [Storage.without, Storage.withFrames, List.filter_filter, Bool.and_self]

/-- The storage stays well formed without the frames of a file. -/
theorem StorageOK.without (h : StorageOK heaps s) (path : Path) : StorageOK heaps (s.without path) where
  capacity := h.capacity
  room := Nat.le_trans (List.length_filter_le _ _) h.room
  nodup := h.nodup.sublist (List.filter_sublist.map _)
  unpinned frame hmem := h.unpinned frame (mem_without.1 hmem).1
  heap frame hmem := h.heap frame (mem_without.1 hmem).1
  frames frame hmem := h.frames frame (mem_without.1 hmem).1
  files := h.files

/-- Rolling a file back takes its frames away and restores its content. -/
theorem StorageOK.rollBack_eq (h : StorageOK heaps s) (path : Path) (before : Option Bytes) :
    rollBack path before s =
      .ok () { s.without path with disk := restored s.disk path before } := by
  rw [rollBack, EStateM.bind_of_ok (h.invalidateFile path), restoreFile,
    EStateM.bind_of_ok ((h.without path).invalidateFile path), without_without]
  rfl

/-- A restored file has the content, and the others are left. -/
theorem restored_getElem? (disk : Disk) (path : Path) (content : Option Bytes) (other : Path) :
    (restored disk path content).files[other]? = if other = path then content else disk.files[other]? := by
  have hcompare : compare path other = .eq ↔ other = path :=
    Std.LawfulEqOrd.compare_eq_iff_eq.trans eq_comm
  rcases content with _ | bytes
  · rw [restored]
    split
    · show (disk.files.erase path)[other]? = _
      rw [Std.ExtTreeMap.getElem?_erase]
      simp only [hcompare]
    · next hcontains =>
      split
      · next hother =>
        subst hother
        rw [Std.ExtTreeMap.getElem?_eq_none fun hmem ↦ hcontains (Std.ExtTreeMap.contains_iff_mem.2 hmem)]
      · rfl
  · have hwrite : overwrite [] 0 bytes = bytes := by
      unfold overwrite
      cases bytes <;> simp
    show ((disk.files.insert path []).insert path (overwrite ((disk.files.insert path []).getD path []) 0
      bytes))[other]? = _
    rw [Std.ExtTreeMap.getElem?_insert, Std.ExtTreeMap.getElem?_insert, Std.ExtTreeMap.getD_insert]
    simp only [hcompare, Std.ReflCmp.compare_self, if_true, hwrite]
    split <;> rfl

/-- The same of the bytes of a file. -/
theorem restored_getD (disk : Disk) (path : Path) (content : Option Bytes) (other : Path) :
    (restored disk path content).files.getD other [] =
      if other = path then content.getD [] else disk.files.getD other [] := by
  rw [Std.ExtTreeMap.getD_eq_getD_getElem?, restored_getElem?, apply_ite (Option.getD · []),
    ← Std.ExtTreeMap.getD_eq_getD_getElem?]

theorem mem_restored_self {disk : Disk} {path : Path} {content : Option Bytes} :
    path ∈ (restored disk path content).files ↔ content.isSome = true := by
  rw [← Std.ExtTreeMap.isSome_getElem?_iff_mem, restored_getElem?, if_pos rfl]

theorem mem_restored {disk : Disk} {path other : Path} (content : Option Bytes) (hother : other ≠ path) :
    other ∈ (restored disk path content).files ↔ other ∈ disk.files := by
  rw [← Std.ExtTreeMap.isSome_getElem?_iff_mem, restored_getElem?, if_neg hother,
    Std.ExtTreeMap.isSome_getElem?_iff_mem]

/-- The storage with another content of one file, and none of its pages in the pool. -/
def Storage.backTo (s : Storage) (path : Path) (content : Option Bytes) : Storage :=
  { s.without path with disk := restored s.disk path content }

/-- The content of a file is a sequence of well-formed pages. -/
structure PagesOK (content : Bytes) : Prop where
  size : pageSize ∣ content.length
  pages : ∀ page < content.length / pageSize, PageOK (pageOfFile content page)

theorem HeapFilesOK.pagesOK {files : Files} (h : HeapFilesOK heaps files) (hheap : heaps path) :
    PagesOK (files.getD path []) :=
  ⟨h.size path hheap, fun page hpage ↦ h.pages ⟨path, page⟩ hheap hpage⟩

theorem pagesOK_nil : PagesOK [] :=
  ⟨Nat.dvd_zero _, fun _ hpage ↦ absurd hpage (Nat.not_lt_zero _)⟩

section BackTo

variable {content : Option Bytes}

/-- The other files have the same pages. -/
theorem pagesOf_backTo {other : Path} (hother : other ≠ path) :
    pagesOf (s.backTo path content).disk.files other = pagesOf s.disk.files other := by
  unfold pagesOf
  show ((restored s.disk path content).files.getD other []).length / pageSize = _
  rw [restored_getD, if_neg hother]

/-- The other files have the same bytes on their pages. -/
theorem diskPage_backTo {key : PageKey} (hkey : key.file ≠ path) :
    diskPage (s.backTo path content).disk.files key = diskPage s.disk.files key := by
  unfold diskPage
  show pageOfFile ((restored s.disk path content).files.getD key.file []) key.page = _
  rw [restored_getD, if_neg hkey]

/-- The storage is well formed when what was restored is. -/
theorem StorageOK.backTo (h : StorageOK heaps s) (hcontent : heaps path → PagesOK (content.getD [])) :
    StorageOK heaps (s.backTo path content) := by
  have hwithout := h.without path
  have hself : (s.backTo path content).disk.files.getD path [] = content.getD [] := by
    show (restored s.disk path content).files.getD path [] = _
    rw [restored_getD, if_pos rfl]
  refine ⟨hwithout.capacity, hwithout.room, hwithout.nodup, hwithout.unpinned, hwithout.heap,
    fun frame hmem ↦ ?_, fun other hother ↦ ?_, fun key hkey hlt ↦ ?_⟩
  · obtain ⟨hold, hne⟩ := mem_without.1 hmem
    have hframe := h.frames frame hold
    refine ⟨(mem_restored content hne).2 hframe.exists_file, ?_, ?_, ?_⟩
    · rw [pagesOf_backTo hne]
      exact hframe.dirty_ok
    · rw [pagesOf_backTo hne, diskPage_backTo hne]
      exact hframe.clean_in
    · rw [pagesOf_backTo hne]
      exact hframe.clean_out
  · by_cases hpath : other = path
    · subst hpath
      rw [hself]
      exact (hcontent hother).size
    · show pageSize ∣ ((restored s.disk path content).files.getD other []).length
      rw [restored_getD, if_neg hpath]
      exact h.files.size other hother
  · by_cases hpath : key.file = path
    · unfold pagesOf at hlt
      unfold diskPage
      rw [hpath, hself] at hlt ⊢
      exact (hcontent (hpath ▸ hkey)).pages key.page hlt
    · rw [pagesOf_backTo hpath] at hlt
      rw [diskPage_backTo hpath]
      exact h.files.pages key hkey hlt

/-- Nothing is pinned where nothing was. -/
theorem Settled.backTo (h : Settled s) (path : Path) (content : Option Bytes) :
    Settled (s.backTo path content) := by
  intro frame hmem hdirty
  obtain ⟨hold, hne⟩ := mem_without.1 hmem
  rw [pagesOf_backTo hne]
  exact h frame hold hdirty

/-- The file has the rows of its new content. -/
theorem rowsAt_backTo (s : Storage) (path : Path) (content : Option Bytes) (id : RowId) :
    (s.backTo path content).rowsAt path id = rowAt (pageOfFile (content.getD []) id.page) id.slot := by
  have hpage : (s.backTo path content).page ⟨path, id.page⟩ = pageOfFile (content.getD []) id.page := by
    rw [page_of_not_mem (s := s.backTo path content) fun frame hmem hkey ↦
      (mem_without.1 hmem).2 (by rw [hkey])]
    unfold diskPage
    show pageOfFile ((restored s.disk path content).files.getD path []) id.page = _
    rw [restored_getD, if_pos rfl]
  rw [Storage.rowsAt, hpage]

end BackTo

/-- The storage with the bytes of one file back, and none of its pages in the pool. -/
def Storage.restoredTo (s : Storage) (path : Path) (bytes : Bytes) : Storage :=
  { s.without path with disk := restored s.disk path (some bytes) }

/-- A table between two statements: its file exists, holds these rows, and has them on disk. -/
structure TableOK (heaps : Path → Prop) (path : Path) (rows : HeapMap) (s : Storage) : Prop where
  ok : StorageOK heaps s
  settled : Settled s
  heap : heaps path
  stored : path ∈ s.disk.files
  holds : Holds s path rows
  flushed : Flushed s path

/-- A step of the pool keeps a table. -/
theorem TableOK.poolStep (h : TableOK heaps path rows s) (hstep : PoolStep heaps s s') :
    TableOK heaps path rows s' where
  ok := hstep.ok
  settled := (hstep.settled h.settled).1
  heap := h.heap
  stored := (hstep.mem path).2 h.stored
  holds := h.holds.poolStep hstep
  flushed := h.flushed.poolStep hstep

/-- The row that the file has on disk under a row id. -/
theorem TableOK.rowAt_disk (h : TableOK heaps path rows s) (id : RowId) :
    rowAt (diskPage s.disk.files ⟨path, id.page⟩) id.slot = s.rowsAt path id :=
  congrFun (h.flushed.rows_eq h.ok h.heap id.page) id.slot

/-- Rolling back brings back the rows of the bytes that are written. -/
theorem rollBack_spec (h : TableOK heaps path rows s) (hok : StorageOK heaps s') (hsettled : Settled s') :
    ∃ s'', rollBack path (some (s.disk.read path)) s' = .ok () s'' ∧ TableOK heaps path rows s'' := by
  have hbytes : s.disk.files.getD path [] = s.disk.read path := rfl
  refine ⟨s'.restoredTo path (s.disk.read path), hok.rollBack_eq path _,
    hok.backTo fun hheap ↦ h.ok.files.pagesOK hheap, hsettled.backTo path _, h.heap,
    mem_restored_self.2 rfl, fun id ↦ ?_,
    fun frame hmem hfile ↦ absurd hfile (mem_without.1 hmem).2⟩
  have hrow : (s'.restoredTo path (s.disk.read path)).rowsAt path id = s.rowsAt path id := by
    rw [← h.rowAt_disk]
    exact rowsAt_backTo s' path (some (s.disk.read path)) id
  rw [hrow]
  exact h.holds id

end SkibidiQL
