import SkibidiQL.Base.StateError
import SkibidiQL.Storage.BufferPool
import SkibidiQL.Storage.SlottedPageInsert

/-!
# What the buffer pool keeps

The content of a page is that of its frame, and that of the file when it has none (`Storage.page`). Under
the invariant `StorageOK` no operation of the pool changes the rows of a page: a clean frame has the rows
of its page on disk, and a dirty frame is written before it goes.
-/

namespace SkibidiQL

/-! ### Pages of files -/

/-- The number of pages of a file. -/
def pagesOf (files : Files) (path : Path) : Nat :=
  (files.getD path []).length / pageSize

/-- A page as it is on disk. -/
def diskPage (files : Files) (key : PageKey) : PageBytes :=
  pageOfFile (files.getD key.file []) key.page

/-- The bytes of a file that is overwritten in part. -/
theorem getElem?_overwrite {file data : Bytes} {offset : Nat} (h : offset ≤ file.length) (i : Nat) :
    (overwrite file offset data)[i]? =
      if i < offset then file[i]?
      else if i < offset + data.length then data[i - offset]? else file[i]? := by
  unfold overwrite
  cases data with
  | nil =>
    rw [List.isEmpty_nil, if_pos rfl, List.length_nil, Nat.add_zero]
    split_ifs <;> rfl
  | cons b data =>
    rw [List.isEmpty_cons, if_neg Bool.false_ne_true, Nat.sub_eq_zero_of_le h, List.replicate_zero,
      List.append_nil]
    have hlength : (file.take offset).length = offset := by
      rw [List.length_take]
      omega
    split_ifs with hlow hmid
    · rw [List.getElem?_append_left (by rw [List.length_append, hlength]; omega),
        List.getElem?_append_left (by rw [hlength]; exact hlow), List.getElem?_take, if_pos hlow]
    · rw [List.getElem?_append_left (by rw [List.length_append, hlength]; omega),
        List.getElem?_append_right (by rw [hlength]; omega), hlength]
    · rw [List.getElem?_append_right (by rw [List.length_append, hlength]; omega), List.length_append,
        hlength, List.getElem?_drop]
      congr 1
      omega

/-- Overwriting never shortens a file. -/
theorem length_overwrite {file data : Bytes} {offset : Nat} (h : offset ≤ file.length) :
    (overwrite file offset data).length = max file.length (offset + data.length) := by
  unfold overwrite
  cases data with
  | nil =>
    simp only [List.isEmpty_nil, if_true, List.length_nil]
    omega
  | cons b data =>
    simp only [List.isEmpty_cons, Bool.false_eq_true, if_false, List.length_append, List.length_take,
      List.length_replicate, List.length_drop, List.length_cons]
    omega

/-- What was written is read back. -/
theorem slice_overwrite_self {file : Bytes} (data : Bytes) {offset : Nat} (h : offset ≤ file.length) :
    (overwrite file offset data).slice offset data.length = data := by
  apply List.ext_getElem?
  intro i
  rw [List.getElem?_slice]
  by_cases hi : i < data.length
  · rw [if_pos hi, getElem?_overwrite h, if_neg (by omega), if_pos (by omega)]
    congr 1
    omega
  · rw [if_neg hi, List.getElem?_eq_none (by omega)]

/-- What stands beside the write is left. -/
theorem slice_overwrite_disjoint {file data : Bytes} {offset start size : Nat}
    (h : offset ≤ file.length) (hdisjoint : start + size ≤ offset ∨ offset + data.length ≤ start) :
    (overwrite file offset data).slice start size = file.slice start size := by
  apply List.ext_getElem?
  intro i
  rw [List.getElem?_slice, List.getElem?_slice]
  split_ifs with hi
  · rw [getElem?_overwrite h]
    split_ifs with hlow hmid
    · rfl
    · omega
    · rfl
  · rfl

/-- A page that is all in the file. -/
theorem pageOfFile_eq {file : Bytes} {page : Nat} {bytes : PageBytes}
    (h : file.slice (page * pageSize) pageSize = bytes.bytes) : pageOfFile file page = bytes := by
  apply PageBytes.bytes_injective
  have hfull := @PageBytes.slice_write_self PageBytes.zero 0 bytes.bytes
    (by rw [bytes.size_eq]; exact Nat.le_of_eq (Nat.zero_add _))
  unfold pageOfFile
  rw [h]
  have hall : ∀ p : PageBytes, p.bytes.slice 0 bytes.bytes.length = p.bytes := by
    intro p
    rw [List.slice, List.drop_zero, List.take_of_length_le (by rw [p.size_eq, bytes.size_eq])]
  rwa [hall] at hfull

/-- Behind the end of the file a page is empty. -/
theorem pageOfFile_beyond {file : Bytes} {page : Nat} (h : file.length ≤ page * pageSize) :
    pageOfFile file page = PageBytes.zero := by
  have hnil : file.slice (page * pageSize) pageSize = [] := by
    rw [List.slice, List.drop_eq_nil_of_le h, List.take_nil]
  apply PageBytes.bytes_injective
  unfold pageOfFile PageBytes.write
  rw [hnil]
  simp only [List.patch, List.take_zero, List.take_nil, List.append_nil, List.nil_append,
    List.length_nil, Nat.add_zero, List.drop_zero]

/-! ### Writing a page -/

section WritePage

variable {disk : Disk} {key : PageKey} {bytes : PageBytes}
  (hexists : disk.contains key.file)

include hexists

/-- Writing a page overwrites its part of its file. -/
theorem writePage_files : (Storage.writePage disk key bytes).files =
    disk.files.insert key.file (overwrite (disk.files.getD key.file []) (key.page * pageSize)
      bytes.bytes) := by
  unfold Storage.writePage
  rw [if_pos hexists]
  rfl

/-- Writing a page changes its file only. -/
theorem writePage_getD (path : Path) : (Storage.writePage disk key bytes).files.getD path [] =
    if path = key.file then
      overwrite (disk.files.getD key.file []) (key.page * pageSize) bytes.bytes
    else disk.files.getD path [] := by
  rw [writePage_files hexists, Std.ExtTreeMap.getD_insert]
  by_cases h : path = key.file
  · simp [h]
  · rw [if_neg h, if_neg (by simpa using Ne.symm h)]

/-- Writing a page creates no file. -/
theorem mem_writePage (path : Path) :
    path ∈ (Storage.writePage disk key bytes).files ↔ path ∈ disk.files := by
  rw [writePage_files hexists, Std.ExtTreeMap.mem_insert]
  constructor
  · rintro (heq | hmem)
    · rw [Std.LawfulEqOrd.eq_of_compare heq] at hexists
      exact Std.ExtTreeMap.contains_iff_mem.1 hexists
    · exact hmem
  · exact .inr

variable (hpage : key.page ≤ pagesOf disk.files key.file)

include hpage

omit hexists in
theorem offset_le : key.page * pageSize ≤ (disk.files.getD key.file []).length :=
  Nat.le_trans (Nat.mul_le_mul_right _ hpage) (Nat.div_mul_le_self _ _)

/-- A page that was written is read back. -/
theorem diskPage_writePage_self :
    diskPage (Storage.writePage disk key bytes).files key = bytes := by
  apply pageOfFile_eq
  rw [writePage_getD hexists, if_pos rfl]
  have hself := slice_overwrite_self bytes.bytes (offset_le hpage)
  rwa [bytes.size_eq] at hself

/-- The other pages are left. -/
theorem diskPage_writePage_ne {other : PageKey} (hne : other ≠ key) :
    diskPage (Storage.writePage disk key bytes).files other = diskPage disk.files other := by
  unfold diskPage pageOfFile
  rw [writePage_getD hexists]
  split
  · rename_i hfile
    have hpages : other.page ≠ key.page := by
      intro hp
      exact hne (by cases other; cases key; simp_all)
    rw [slice_overwrite_disjoint (offset_le hpage), hfile]
    rw [bytes.size_eq, show pageSize = 4096 from rfl]
    omega
  · rfl

/-- Writing a page grows its file up to the page. -/
theorem pagesOf_writePage (hsize : pageSize ∣ (disk.files.getD key.file []).length) (path : Path) :
    pagesOf (Storage.writePage disk key bytes).files path =
      if path = key.file then max (pagesOf disk.files path) (key.page + 1)
      else pagesOf disk.files path := by
  unfold pagesOf
  rw [writePage_getD hexists]
  split
  · rename_i hpath
    rw [length_overwrite (offset_le hpage), bytes.size_eq, hpath]
    rw [show pageSize = 4096 from rfl] at hsize ⊢
    omega
  · rfl

/-- Files stay whole pages long. -/
theorem dvd_writePage (hsize : pageSize ∣ (disk.files.getD key.file []).length) :
    pageSize ∣ ((Storage.writePage disk key bytes).files.getD key.file []).length := by
  rw [writePage_getD hexists, if_pos rfl, length_overwrite (offset_le hpage), bytes.size_eq]
  rw [show pageSize = 4096 from rfl] at hsize ⊢
  omega

end WritePage

/-! ### The invariant -/

open SlottedPage

/-- A dirty frame has a well-formed page of the file or the one behind its end; a clean frame has the rows
of its page on disk. -/
structure FrameOK (files : Files) (frame : Frame) : Prop where
  exists_file : frame.key.file ∈ files
  dirty_ok : frame.dirty → PageOK frame.bytes ∧ frame.key.page ≤ pagesOf files frame.key.file
  clean_in : ¬frame.dirty → frame.key.page < pagesOf files frame.key.file →
    PageOK frame.bytes ∧ rowAt frame.bytes = rowAt (diskPage files frame.key)
  clean_out : ¬frame.dirty → pagesOf files frame.key.file ≤ frame.key.page →
    frame.bytes = PageBytes.zero

/-- The heap files consist of well-formed pages. -/
structure HeapFilesOK (heaps : Path → Prop) (files : Files) : Prop where
  size : ∀ path, heaps path → pageSize ∣ (files.getD path []).length
  pages : ∀ key : PageKey, heaps key.file → key.page < pagesOf files key.file →
    PageOK (diskPage files key)

/-- The invariant of the disk and the pool between operations; `heaps` tells the heap files. -/
structure StorageOK (heaps : Path → Prop) (s : Storage) : Prop where
  capacity : 1 ≤ s.pool.capacityPages
  room : s.pool.frames.length ≤ s.pool.capacityPages
  nodup : (s.pool.frames.map (·.key)).Nodup
  unpinned : ∀ frame ∈ s.pool.frames, frame.pins = 0
  heap : ∀ frame ∈ s.pool.frames, heaps frame.key.file
  frames : ∀ frame ∈ s.pool.frames, FrameOK s.disk.files frame
  files : HeapFilesOK heaps s.disk.files

/-- The content of a page. -/
def Storage.page (s : Storage) (key : PageKey) : PageBytes :=
  match s.find? key with
  | some frame => frame.bytes
  | none => diskPage s.disk.files key

/-- No dirty page lies behind the end of its file. -/
def Settled (s : Storage) : Prop :=
  ∀ frame ∈ s.pool.frames, frame.dirty → frame.key.page < pagesOf s.disk.files frame.key.file

/-- `s'` comes from `s` by work of the pool, which changes no row. -/
structure PoolStep (heaps : Path → Prop) (s s' : Storage) : Prop where
  ok : StorageOK heaps s'
  rows : ∀ key, rowAt (s'.page key) = rowAt (s.page key)
  mem : ∀ path, path ∈ s'.disk.files ↔ path ∈ s.disk.files
  other : ∀ path, ¬heaps path → s'.disk.files[path]? = s.disk.files[path]?
  settled : Settled s → Settled s' ∧ ∀ path, pagesOf s'.disk.files path = pagesOf s.disk.files path
  dirty : ∀ frame ∈ s'.pool.frames, frame.dirty → frame ∈ s.pool.frames
  root : s'.disk.root = s.disk.root

variable {heaps : Path → Prop} {s s' s'' : Storage}

theorem PoolStep.refl (h : StorageOK heaps s) : PoolStep heaps s s :=
  ⟨h, fun _ ↦ rfl, fun _ ↦ Iff.rfl, fun _ _ ↦ rfl, fun hs ↦ ⟨hs, fun _ ↦ rfl⟩, fun _ hmem _ ↦ hmem, rfl⟩

/-- Steps of the pool compose. -/
theorem PoolStep.trans (h : PoolStep heaps s s') (h' : PoolStep heaps s' s'') :
    PoolStep heaps s s'' where
  ok := h'.ok
  rows key := (h'.rows key).trans (h.rows key)
  mem path := (h'.mem path).trans (h.mem path)
  other path hpath := (h'.other path hpath).trans (h.other path hpath)
  settled hs := by
    obtain ⟨hs', hpages⟩ := h.settled hs
    obtain ⟨hs'', hpages'⟩ := h'.settled hs'
    exact ⟨hs'', fun path ↦ (hpages' path).trans (hpages path)⟩
  dirty frame hmem hdirty := h.dirty frame (h'.dirty frame hmem hdirty) hdirty
  root := h'.root.trans h.root

/-! ### Finding frames -/

/-- A frame that is found is in the pool and has the key. -/
theorem find?_eq_some {key : PageKey} {frame : Frame} (h : s.find? key = some frame) :
    frame ∈ s.pool.frames ∧ frame.key = key :=
  ⟨List.mem_of_find?_eq_some h, by simpa using List.find?_some h⟩

/-- A frame is found by its key. -/
theorem find?_of_mem (hnodup : (s.pool.frames.map (·.key)).Nodup) {frame : Frame}
    (hmem : frame ∈ s.pool.frames) : s.find? frame.key = some frame := by
  have hsome : (s.find? frame.key).isSome := by
    rw [Storage.find?, List.find?_isSome]
    exact ⟨frame, hmem, beq_self_eq_true _⟩
  obtain ⟨frame', hframe'⟩ := Option.isSome_iff_exists.1 hsome
  obtain ⟨hmem', hkey'⟩ := find?_eq_some hframe'
  rw [hframe', List.inj_on_of_nodup_map hnodup hmem' hmem hkey']

/-- No frame is found for a key that no frame has. -/
theorem find?_eq_none {key : PageKey} (h : s.find? key = none) :
    ∀ frame ∈ s.pool.frames, frame.key ≠ key := by
  intro frame hmem hkey
  have := List.find?_eq_none.1 h frame hmem
  simp [hkey] at this

theorem page_of_mem (hnodup : (s.pool.frames.map (·.key)).Nodup) {frame : Frame}
    (hmem : frame ∈ s.pool.frames) : s.page frame.key = frame.bytes := by
  rw [Storage.page, find?_of_mem hnodup hmem]

/-- A page without a frame is the page on disk. -/
theorem page_of_not_mem {key : PageKey} (h : ∀ frame ∈ s.pool.frames, frame.key ≠ key) :
    s.page key = diskPage s.disk.files key := by
  have hnone : s.find? key = none := by
    rw [Storage.find?, List.find?_eq_none]
    exact fun frame hmem ↦ by simpa using h frame hmem
  rw [Storage.page, hnone]

/-- Behind the pages of a file the disk holds empty pages. -/
theorem diskPage_beyond {files : Files} {key : PageKey}
    (hsize : pageSize ∣ (files.getD key.file []).length) (h : pagesOf files key.file ≤ key.page) :
    diskPage files key = PageBytes.zero := by
  apply pageOfFile_beyond
  rw [← Nat.div_mul_cancel hsize]
  exact Nat.mul_le_mul_right _ h

/-- The rows of a clean frame are those on disk. -/
theorem FrameOK.rows_eq {files : Files} {frame : Frame} (h : FrameOK files frame)
    (hsize : pageSize ∣ (files.getD frame.key.file []).length) (hclean : ¬frame.dirty) :
    rowAt frame.bytes = rowAt (diskPage files frame.key) := by
  by_cases hin : frame.key.page < pagesOf files frame.key.file
  · exact (h.clean_in hclean hin).2
  · have hout := Nat.le_of_not_lt hin
    rw [h.clean_out hclean hout, diskPage_beyond hsize hout]

/-! ### Writing a frame back -/

/-- What is true of the files after a frame has been flushed. -/
structure FlushOK (heaps : Path → Prop) (s : Storage) (frame : Frame) (files : Files) : Prop where
  mem : ∀ path, path ∈ files ↔ path ∈ s.disk.files
  other : ∀ path, ¬heaps path → files[path]? = s.disk.files[path]?
  heapFiles : HeapFilesOK heaps files
  others : ∀ g ∈ s.pool.frames, g.key ≠ frame.key → FrameOK files g
  self : FrameOK files { frame with dirty := false }
  disk : ∀ key, key ≠ frame.key → diskPage files key = diskPage s.disk.files key
  rows : rowAt (diskPage files frame.key) = rowAt frame.bytes
  pages_le : ∀ path, pagesOf s.disk.files path ≤ pagesOf files path
  pages_eq : (frame.dirty → frame.key.page < pagesOf s.disk.files frame.key.file) →
    ∀ path, pagesOf files path = pagesOf s.disk.files path

section Write

variable {frame : Frame} (h : StorageOK heaps s) (hframe : frame ∈ s.pool.frames) (hdirty : frame.dirty)

include h hframe hdirty

/-- The file of a dirty frame is there, and the page is at most the one behind its end. -/
theorem StorageOK.writable : s.disk.contains frame.key.file ∧
    frame.key.page ≤ pagesOf s.disk.files frame.key.file ∧ pageSize ∣ (s.disk.files.getD frame.key.file []).length :=
  ⟨Std.ExtTreeMap.contains_iff_mem.2 (h.frames frame hframe).exists_file,
    ((h.frames frame hframe).dirty_ok hdirty).2, h.files.size _ (h.heap frame hframe)⟩

/-- Only the file of the frame grows, and by one page at most. -/
theorem StorageOK.pagesOf_write (path : Path) :
    pagesOf (Storage.writePage s.disk frame.key frame.bytes).files path =
      if path = frame.key.file then max (pagesOf s.disk.files path) (frame.key.page + 1)
      else pagesOf s.disk.files path := by
  obtain ⟨hcontains, hle, hsize⟩ := h.writable hframe hdirty
  exact pagesOf_writePage hcontains hle hsize path

/-- A page of the longer file that is not the written one was there before. -/
theorem StorageOK.lt_pagesOf_of_write {key : PageKey} (hkey : key ≠ frame.key)
    (hlt : key.page < pagesOf (Storage.writePage s.disk frame.key frame.bytes).files key.file) :
    key.page < pagesOf s.disk.files key.file := by
  obtain ⟨-, hle, -⟩ := h.writable hframe hdirty
  rw [h.pagesOf_write hframe hdirty] at hlt
  split at hlt
  · rename_i hfile
    have hdiffer : key.page ≠ frame.key.page := fun heq ↦
      hkey (by cases key; cases hk : frame.key; simp_all)
    rw [hfile] at hlt ⊢
    omega
  · exact hlt

/-- The heap files stay whole: the page that is written is one of rows. -/
theorem StorageOK.heapFiles_write : HeapFilesOK heaps (Storage.writePage s.disk frame.key frame.bytes).files := by
  obtain ⟨hcontains, hle, hsize⟩ := h.writable hframe hdirty
  refine ⟨fun path hpath ↦ ?_, fun key hkey hlt ↦ ?_⟩
  · by_cases hfile : path = frame.key.file
    · rw [hfile]
      exact dvd_writePage hcontains hle hsize
    · rw [writePage_getD hcontains, if_neg hfile]
      exact h.files.size path hpath
  · by_cases heq : key = frame.key
    · rw [heq, diskPage_writePage_self hcontains hle]
      exact ((h.frames frame hframe).dirty_ok hdirty).1
    · rw [diskPage_writePage_ne hcontains hle heq]
      exact h.files.pages key hkey (h.lt_pagesOf_of_write hframe hdirty heq hlt)

/-- The frames of the other pages stand to the longer file as they did to the old one. -/
theorem StorageOK.frameOK_write {g : Frame} (hg : g ∈ s.pool.frames) (hgkey : g.key ≠ frame.key) :
    FrameOK (Storage.writePage s.disk frame.key frame.bytes).files g := by
  obtain ⟨hcontains, hle, -⟩ := h.writable hframe hdirty
  have hgok := h.frames g hg
  refine ⟨(mem_writePage hcontains _).2 hgok.exists_file, fun hgdirty ↦ ?_, fun hgclean hlt ↦ ?_,
    fun hgclean hge ↦ ?_⟩
  · obtain ⟨hgpage, hgle⟩ := hgok.dirty_ok hgdirty
    refine ⟨hgpage, ?_⟩
    rw [h.pagesOf_write hframe hdirty]
    split <;> omega
  · rw [diskPage_writePage_ne hcontains hle hgkey]
    exact hgok.clean_in hgclean (h.lt_pagesOf_of_write hframe hdirty hgkey hlt)
  · refine hgok.clean_out hgclean ?_
    rw [h.pagesOf_write hframe hdirty] at hge
    split at hge <;> omega

/-- Flushing a dirty frame writes its page. -/
theorem StorageOK.flushed_dirty : FlushOK heaps s frame (Storage.flushed s.disk frame).files := by
  have hok := h.frames frame hframe
  obtain ⟨hcontains, hle, -⟩ := h.writable hframe hdirty
  have hself : diskPage (Storage.writePage s.disk frame.key frame.bytes).files frame.key = frame.bytes :=
    diskPage_writePage_self hcontains hle
  have hpage := (hok.dirty_ok hdirty).1
  rw [Storage.flushed, if_pos hdirty]
  constructor
  case mem => exact mem_writePage hcontains
  case other =>
    intro path hpath
    have hdiffer : frame.key.file ≠ path := fun heq ↦ hpath (heq ▸ h.heap frame hframe)
    rw [writePage_files hcontains, Std.ExtTreeMap.getElem?_insert]
    simp [hdiffer]
  case heapFiles => exact h.heapFiles_write hframe hdirty
  case others => exact fun g hg hgkey ↦ h.frameOK_write hframe hdirty hg hgkey
  case self =>
    refine ⟨(mem_writePage hcontains _).2 hok.exists_file, nofun, fun _ _ ↦ ⟨hpage, by rw [hself]⟩,
      fun _ hge ↦ ?_⟩
    have hge' : pagesOf (Storage.writePage s.disk frame.key frame.bytes).files frame.key.file ≤ frame.key.page :=
      hge
    -- The page is on disk now, so it is not behind the end of its file.
    rw [h.pagesOf_write hframe hdirty, if_pos rfl] at hge'
    omega
  case disk => exact fun key hkey ↦ diskPage_writePage_ne hcontains hle hkey
  case rows => rw [hself]
  case pages_le =>
    intro path
    rw [h.pagesOf_write hframe hdirty]
    split <;> omega
  case pages_eq =>
    intro hsettled path
    have hlt := hsettled hdirty
    rw [h.pagesOf_write hframe hdirty]
    split
    · rename_i hfile
      rw [hfile]
      omega
    · rfl

end Write

/-- Flushing a clean frame writes nothing. -/
theorem StorageOK.flushed_clean (h : StorageOK heaps s) {frame : Frame} (hframe : frame ∈ s.pool.frames)
    (hclean : ¬frame.dirty) : FlushOK heaps s frame (Storage.flushed s.disk frame).files := by
  have hok := h.frames frame hframe
  rw [Storage.flushed, if_neg hclean]
  refine ⟨fun _ ↦ Iff.rfl, fun _ _ ↦ rfl, h.files, fun g hg _ ↦ h.frames g hg, ?_, fun _ _ ↦ rfl,
    (hok.rows_eq (h.files.size _ (h.heap frame hframe)) hclean).symm, fun _ ↦ Nat.le_refl _, fun _ _ ↦ rfl⟩
  exact ⟨hok.exists_file, nofun, fun _ ↦ hok.clean_in hclean, fun _ ↦ hok.clean_out hclean⟩

/-- Flushing a frame brings its rows to the file and leaves every other page as it is. -/
theorem StorageOK.flushed_spec (h : StorageOK heaps s) {frame : Frame} (hframe : frame ∈ s.pool.frames) :
    FlushOK heaps s frame (Storage.flushed s.disk frame).files := by
  by_cases hdirty : frame.dirty
  · exact h.flushed_dirty hframe hdirty
  · exact h.flushed_clean hframe hdirty

/-- Flushing leaves the root directory. -/
theorem flushed_root (disk : Disk) (frame : Frame) : (Storage.flushed disk frame).root = disk.root := by
  unfold Storage.flushed Storage.writePage
  split
  · split <;> rfl
  · rfl

/-- The storage after a frame was written back and its place changed. -/
theorem StorageOK.afterFlush (h : StorageOK heaps s) {frame : Frame}
    (hframe : frame ∈ s.pool.frames) {frames : List Frame}
    (hnodup : (frames.map (·.key)).Nodup) (hlength : frames.length ≤ s.pool.frames.length)
    (hfrom : ∀ g ∈ frames, (g ∈ s.pool.frames ∧ g.key ≠ frame.key) ∨ g = { frame with dirty := false })
    (hrest : ∀ g ∈ s.pool.frames, g.key ≠ frame.key → g ∈ frames) :
    PoolStep heaps s
      { s.withFrames frames with disk := Storage.flushed s.disk frame } := by
  have hflush := h.flushed_spec hframe
  set s' : Storage := { s.withFrames frames with disk := Storage.flushed s.disk frame } with hs'
  have hok : StorageOK heaps s' := by
    refine ⟨h.capacity, Nat.le_trans hlength h.room, hnodup, ?_, ?_, ?_, hflush.heapFiles⟩
    · intro g hg
      rcases hfrom g hg with ⟨hmem, -⟩ | rfl
      · exact h.unpinned g hmem
      · exact h.unpinned frame hframe
    · intro g hg
      rcases hfrom g hg with ⟨hmem, -⟩ | rfl
      · exact h.heap g hmem
      · exact h.heap frame hframe
    · intro g hg
      rcases hfrom g hg with ⟨hmem, hne⟩ | rfl
      · exact hflush.others g hmem hne
      · exact hflush.self
  -- A page reads as before: from its frame, when it still has one, and else from the disk.
  refine ⟨hok, ?_, hflush.mem, hflush.other, ?_, fun g hg hdirty ↦ ?_, flushed_root _ _⟩
  · intro key
    by_cases hkey : key = frame.key
    · subst hkey
      rw [page_of_mem h.nodup hframe]
      by_cases hin : ∃ g ∈ frames, g.key = frame.key
      · obtain ⟨g, hg, hgkey⟩ := hin
        rcases hfrom g hg with ⟨-, hne⟩ | rfl
        · exact absurd hgkey hne
        · have hpage := page_of_mem (s := s') hok.nodup hg
          exact congrArg rowAt hpage
      · rw [page_of_not_mem (s := s') fun g hg hgkey ↦ hin ⟨g, hg, hgkey⟩]
        exact hflush.rows
    · by_cases hin : ∃ g ∈ s.pool.frames, g.key = key
      · obtain ⟨g, hg, rfl⟩ := hin
        rw [page_of_mem h.nodup hg, page_of_mem hok.nodup (hrest g hg hkey)]
      · have hout : ∀ g ∈ frames, g.key ≠ key := by
          intro g hg hgkey
          rcases hfrom g hg with ⟨hmem, -⟩ | rfl
          · exact hin ⟨g, hmem, hgkey⟩
          · exact hkey hgkey.symm
        rw [page_of_not_mem (s := s') hout, page_of_not_mem fun g hg hgkey ↦ hin ⟨g, hg, hgkey⟩]
        exact congrArg rowAt (hflush.disk key hkey)
  · intro hsettled
    have hpages := hflush.pages_eq (hsettled frame hframe)
    refine ⟨fun g hg hdirty ↦ ?_, hpages⟩
    show g.key.page < pagesOf (Storage.flushed s.disk frame).files g.key.file
    rw [hpages]
    rcases hfrom g hg with ⟨hmem, -⟩ | rfl
    · exact hsettled g hmem hdirty
    · cases hdirty
  · rcases hfrom g hg with ⟨hmem, -⟩ | rfl
    · exact hmem
    · cases hdirty

/-! ### Operations of the pool -/

/-- Flushing a page is a step of the pool. -/
theorem StorageOK.flushKey (h : StorageOK heaps s) (key : PageKey) :
    PoolStep heaps s (s.flushKey key) := by
  unfold Storage.flushKey
  cases hfind : s.find? key with
  | none => exact .refl h
  | some frame =>
    obtain ⟨hmem, rfl⟩ := find?_eq_some hfind
    have hkeys : ∀ g : Frame, (if g.key = frame.key then { g with dirty := false } else g).key =
        g.key := by
      intro g
      split <;> rfl
    refine h.afterFlush hmem ?_ ?_ ?_ ?_
    · have hmap : (s.pool.frames.map fun g ↦
          if g.key = frame.key then { g with dirty := false } else g).map (·.key) =
          s.pool.frames.map (·.key) := by
        rw [List.map_map]
        exact List.map_congr_left fun g _ ↦ hkeys g
      rw [hmap]
      exact h.nodup
    · rw [List.length_map]
    · intro g hg
      obtain ⟨g', hg', rfl⟩ := List.mem_map.1 hg
      by_cases hkey : g'.key = frame.key
      · rw [List.inj_on_of_nodup_map h.nodup hg' hmem hkey, if_pos rfl]
        exact .inr rfl
      · rw [if_neg hkey]
        exact .inl ⟨hg', hkey⟩
    · intro g hg hkey
      exact List.mem_map.2 ⟨g, hg, if_neg hkey⟩

/-- Flushing several pages is a step of the pool. -/
theorem StorageOK.flushKeys (h : StorageOK heaps s) (keys : List PageKey) :
    PoolStep heaps s (keys.foldl Storage.flushKey s) := by
  induction keys generalizing s with
  | nil => exact .refl h
  | cons key keys ih =>
    have hstep := h.flushKey key
    exact hstep.trans (ih hstep.ok)

theorem StorageOK.flushAll (h : StorageOK heaps s) : PoolStep heaps s s.flushAll :=
  h.flushKeys _

theorem StorageOK.flushFile (h : StorageOK heaps s) (file : Path) :
    PoolStep heaps s (s.flushFile file) :=
  h.flushKeys _

/-- Evicting one frame. -/
def Storage.evicted (s : Storage) (frame : Frame) : Storage :=
  { s.withFrames (s.others frame.key) with disk := Storage.flushed s.disk frame }

/-- Evicting a frame flushes it first and is a step of the pool. -/
theorem StorageOK.evicted (h : StorageOK heaps s) {frame : Frame} (hmem : frame ∈ s.pool.frames) :
    PoolStep heaps s (s.evicted frame) := by
  have hothers : ∀ g, g ∈ s.others frame.key ↔ g ∈ s.pool.frames ∧ g.key ≠ frame.key := by
    intro g
    rw [Storage.others, List.mem_filter, bne_iff_ne]
  refine h.afterFlush hmem ?_ (List.length_filter_le _ _) ?_ ?_
  · exact h.nodup.sublist (List.filter_sublist.map _)
  · exact fun g hg ↦ .inl ((hothers g).1 hg)
  · exact fun g hg hkey ↦ (hothers g).2 ⟨hg, hkey⟩

/-- Taking a frame out makes the pool smaller. -/
theorem length_others_lt {frame : Frame} (hmem : frame ∈ s.pool.frames) :
    (s.others frame.key).length < s.pool.frames.length := by
  refine List.length_filter_lt_length_iff_exists.2 ⟨frame, hmem, ?_⟩
  simp

/-- A full pool without pinned pages can evict one. -/
theorem StorageOK.evictOne (h : StorageOK heaps s) (hfull : s.pool.frames ≠ []) :
    ∃ frame ∈ s.pool.frames, Storage.evictOne s = .ok () (s.evicted frame) := by
  have hsome : (s.pool.frames.reverse.find? fun frame ↦ frame.pins == 0).isSome := by
    obtain ⟨frame, hmem⟩ := List.exists_mem_of_ne_nil _ hfull
    rw [List.find?_isSome]
    exact ⟨frame, List.mem_reverse.2 hmem, by rw [h.unpinned frame hmem]; rfl⟩
  obtain ⟨frame, hframe⟩ := Option.isSome_iff_exists.1 hsome
  refine ⟨frame, List.mem_reverse.1 (List.mem_of_find?_eq_some hframe), ?_⟩
  simp only [Storage.evictOne, bind, EStateM.bind, get, getThe, MonadStateOf.get, EStateM.get, hframe]
  rfl

/-- Enough rounds make room, and no page reads otherwise after it. -/
theorem StorageOK.makeRoom (h : StorageOK heaps s) {rounds : Nat}
    (hrounds : s.pool.frames.length ≤ rounds) :
    ∃ s', Storage.makeRoom rounds s = .ok () s' ∧ PoolStep heaps s s' ∧
      s'.pool.frames.length < s'.pool.capacityPages ∧
      (∀ frame ∈ s'.pool.frames, frame ∈ s.pool.frames) ∧
      ∀ key, (∀ frame ∈ s.pool.frames, frame.key ≠ key) →
        diskPage s'.disk.files key = diskPage s.disk.files key := by
  induction rounds generalizing s with
  | zero =>
    have hcapacity := h.capacity
    exact ⟨s, rfl, .refl h, by omega, fun _ hf ↦ hf, fun _ _ ↦ rfl⟩
  | succ rounds ih =>
    simp only [Storage.makeRoom, bind, EStateM.bind, get, getThe, MonadStateOf.get, EStateM.get]
    by_cases hfull : s.pool.frames.length ≥ s.pool.capacityPages
    · have hcapacity := h.capacity
      have hne : s.pool.frames ≠ [] := by
        intro hnil
        rw [hnil, List.length_nil] at hfull
        omega
      -- No frame is pinned between operations, so there is always one to evict.
      obtain ⟨frame, hmem, hevict⟩ := h.evictOne hne
      have hstep := h.evicted hmem
      have hlt := length_others_lt hmem
      obtain ⟨s', hrun, hstep', hroom, hsub, hdisk⟩ := ih hstep.ok (by
        show (s.others frame.key).length ≤ rounds
        omega)
      refine ⟨s', ?_, hstep.trans hstep', hroom, fun g hg ↦ (List.mem_filter.1 (hsub g hg)).1,
        fun key hkey ↦ ?_⟩
      · rw [if_pos hfull]
        exact (EStateM.bind_of_ok hevict).trans hrun
      · rw [hdisk key fun g hg ↦ hkey g (List.mem_filter.1 hg).1]
        exact (h.flushed_spec hmem).disk key (hkey frame hmem).symm
    · refine ⟨s, ?_, .refl h, Nat.lt_of_not_le hfull, fun _ hf ↦ hf, fun _ _ ↦ rfl⟩
      rw [if_neg hfull]
      rfl

end SkibidiQL
