import SkibidiQL.Storage.FileGrowth
import SkibidiQL.Storage.HeapRestore

/-!
# The files that are written

The pool writes a file only to write a dirty page of it back, and a page gets dirty only by work on the heap
file that it belongs to. Work on some files between two operations therefore writes these files and no
others (`Confined`), whatever else is read and whatever is evicted for it.
-/

namespace SkibidiQL

/-- Between operations: no page is pinned, and the dirty ones belong to these files. -/
structure Idle (P : Path → Prop) (s : Storage) : Prop where
  unpinned : ∀ frame ∈ s.pool.frames, frame.pins = 0
  dirty : ∀ frame ∈ s.pool.frames, frame.dirty → P frame.key.file

/-- One disk comes from the other by writes to these files. -/
def WritesTo (P : Path → Prop) (disk disk' : Disk) : Prop :=
  ∃ writes : List Write, (∀ write ∈ writes, P write.path) ∧ disk' = writes.foldl Disk.perform disk

/-- The storage has been worked on, and only these files have been written. -/
def Confined (P : Path → Prop) (s s' : Storage) : Prop :=
  Idle P s → Idle P s' ∧ WritesTo P s.disk s'.disk

variable {P : Path → Prop} {s s' : Storage} {disk disk' disk'' : Disk}

theorem WritesTo.refl (disk : Disk) : WritesTo P disk disk :=
  ⟨[], List.forall_mem_nil _, rfl⟩

theorem WritesTo.trans (h : WritesTo P disk disk') (h' : WritesTo P disk' disk'') : WritesTo P disk disk'' := by
  obtain ⟨writes, hwrites, rfl⟩ := h
  obtain ⟨writes', hwrites', rfl⟩ := h'
  exact ⟨writes ++ writes', List.forall_mem_append.2 ⟨hwrites, hwrites'⟩, List.foldl_append.symm⟩

theorem writesTo_perform (disk : Disk) {write : Write} (h : P write.path) : WritesTo P disk (disk.perform write) :=
  ⟨[write], List.forall_mem_singleton.2 h, rfl⟩

instance (P : Path → Prop) : IsPreorder Storage (Confined P) where
  refl s h := ⟨h, .refl s.disk⟩
  trans _ _ _ h h' hidle := by
    obtain ⟨hidle', hwrites⟩ := h hidle
    obtain ⟨hidle'', hwrites'⟩ := h' hidle'
    exact ⟨hidle'', hwrites.trans hwrites'⟩

/-- Work on the frames only, which adds none that is pinned or dirty. -/
theorem Confined.of_frames (hdisk : s'.disk = s.disk)
    (hframes : ∀ frame' ∈ s'.pool.frames, ∃ frame ∈ s.pool.frames, frame.key = frame'.key ∧
      frame.pins = frame'.pins ∧ (frame'.dirty → frame.dirty)) : Confined P s s' := by
  refine fun hidle ↦ ⟨⟨fun frame' hmem' ↦ ?_, fun frame' hmem' hdirty' ↦ ?_⟩, hdisk ▸ .refl _⟩
  · obtain ⟨frame, hmem, -, hpins, -⟩ := hframes frame' hmem'
    exact hpins.symm.trans (hidle.unpinned frame hmem)
  · obtain ⟨frame, hmem, hkey, -, hdirty⟩ := hframes frame' hmem'
    rw [← hkey]
    exact hidle.dirty frame hmem (hdirty hdirty')

/-- Work on the disk only. -/
theorem Confined.of_disk (hpool : s'.pool = s.pool) (hwrites : WritesTo P s.disk s'.disk) : Confined P s s' :=
  fun hidle ↦ ⟨⟨hpool ▸ hidle.unpinned, hpool ▸ hidle.dirty⟩, hwrites⟩

/-! ### The pool -/

/-- Writing a page writes to its file. -/
theorem writesTo_writePage (disk : Disk) {key : PageKey} (bytes : PageBytes) (h : P key.file) :
    WritesTo P disk (Storage.writePage disk key bytes) := by
  unfold Storage.writePage
  dsimp only
  split
  · exact writesTo_perform _ h
  · exact (writesTo_perform _ h).trans (writesTo_perform _ h)

/-- A frame that is not dirty is not written. -/
theorem writesTo_flushed (disk : Disk) {frame : Frame} (h : frame.dirty → P frame.key.file) :
    WritesTo P disk (Storage.flushed disk frame) := by
  unfold Storage.flushed
  split
  · exact writesTo_writePage disk frame.bytes (h ‹_›)
  · exact .refl disk

/-- Flushing a page is confined to the files of the dirty frames. -/
theorem confined_flushKey (s : Storage) (key : PageKey) : Confined P s (s.flushKey key) := by
  unfold Storage.flushKey
  split
  · exact refl s
  · next frame hfind =>
    intro hidle
    have hframe := find?_eq_some hfind
    refine ⟨⟨fun frame' hmem' ↦ ?_, fun frame' hmem' hdirty' ↦ ?_⟩,
      writesTo_flushed s.disk (hidle.dirty frame hframe.1)⟩
    · obtain ⟨other, hother, rfl⟩ := List.mem_map.1 hmem'
      split <;> exact hidle.unpinned other hother
    · obtain ⟨other, hother, rfl⟩ := List.mem_map.1 hmem'
      by_cases hkey : other.key = key
      · rw [if_pos hkey] at hdirty'
        cases hdirty'
      · rw [if_neg hkey] at hdirty' ⊢
        exact hidle.dirty other hother hdirty'

/-- Flushing several pages is confined to the files of the dirty frames. -/
theorem confined_flushKeys (keys : List PageKey) (s : Storage) : Confined P s (keys.foldl Storage.flushKey s) := by
  induction keys generalizing s with
  | nil => exact refl s
  | cons key keys ih => exact IsTrans.trans _ _ _ (confined_flushKey s key) (ih _)

theorem confined_flushFile (s : Storage) (path : Path) : Confined P s (s.flushFile path) :=
  confined_flushKeys _ s

theorem confined_flushAll (s : Storage) : Confined P s s.flushAll :=
  confined_flushKeys _ s

/-- The frames of a file are thrown away; nothing is written. -/
theorem confined_invalidateFile (path : Path) : EStateM.Keeps (Confined P) (Storage.invalidateFile path) := by
  apply EStateM.Keeps.get_bind
  intro s
  split
  · exact refl s
  · exact .of_frames rfl fun frame hmem ↦ ⟨frame, List.mem_of_mem_filter hmem, rfl, rfl, id⟩

/-- Evicting a page is confined. -/
theorem confined_evictOne : EStateM.Keeps (Confined P) Storage.evictOne := by
  apply EStateM.Keeps.get_bind
  intro s
  split
  · exact refl s
  · next frame hfind =>
    intro hidle
    have hmem : frame ∈ s.pool.frames := List.mem_reverse.1 (List.mem_of_find?_eq_some hfind)
    exact ⟨⟨fun other hother ↦ hidle.unpinned other (List.mem_of_mem_filter hother),
      fun other hother ↦ hidle.dirty other (List.mem_of_mem_filter hother)⟩,
      writesTo_flushed s.disk (hidle.dirty frame hmem)⟩

/-- Making room is confined. -/
theorem confined_makeRoom (rounds : Nat) : EStateM.Keeps (Confined P) (Storage.makeRoom rounds) := by
  induction rounds with
  | zero => exact .pure ()
  | succ rounds ih =>
    apply EStateM.Keeps.get_bind
    intro s
    split
    · exact (confined_evictOne.bind fun _ ↦ ih) s
    · exact refl s

/-- What holds while one page is pinned, in the first frame. -/
structure Holding (P : Path → Prop) (key : PageKey) (s : Storage) (frame : Frame) (rest : List Frame) : Prop where
  frames : s.pool.frames = frame :: rest
  page : frame.key = key
  pins : frame.pins = 1
  dirty : frame.dirty → P frame.key.file
  others : ∀ other ∈ rest, other.key ≠ key ∧ other.pins = 0 ∧ (other.dirty → P other.key.file)

/-- No round of making room brings a page back. -/
theorem makeRoom_frames (rounds : Nat) : EStateM.Keeps (fun s s' : Storage ↦ ∀ frame ∈ s'.pool.frames,
    frame ∈ s.pool.frames) (Storage.makeRoom rounds) := by
  have hpre : IsPreorder Storage fun s s' ↦ ∀ frame ∈ s'.pool.frames, frame ∈ s.pool.frames :=
    { refl := fun _ _ hmem ↦ hmem, trans := fun _ _ _ h h' frame hmem ↦ h frame (h' frame hmem) }
  induction rounds with
  | zero => exact .pure ()
  | succ rounds ih =>
    apply EStateM.Keeps.get_bind
    intro s
    split
    · refine EStateM.Keeps.bind (EStateM.Keeps.get_bind fun s ↦ ?_) (fun _ ↦ ih) s
      split
      · exact fun _ hmem ↦ hmem
      · exact fun _ hmem ↦ List.mem_of_mem_filter hmem
    · exact fun _ hmem ↦ hmem

/-- A page that cannot be fetched has only made room. -/
theorem Idle.fetch (h : Idle P s) (key : PageKey) (create : Bool) :
    (∃ error s', Storage.fetch key create s = .error error s' ∧ Confined P s s') ∨
      ∃ s' frame rest, Storage.fetch key create s = .ok () s' ∧ WritesTo P s.disk s'.disk ∧
        Holding P key s' frame rest := by
  cases hfind : s.find? key with
  | some frame =>
    right
    obtain ⟨hmem, hkey⟩ := find?_eq_some hfind
    have hrun : Storage.fetch key create s =
        .ok () (s.withFrames ({ frame with pins := frame.pins + 1 } :: s.others key)) := by
      simp only [Storage.fetch, bind, EStateM.bind, get, getThe, MonadStateOf.get, EStateM.get, hfind]
      rfl
    refine ⟨_, { frame with pins := frame.pins + 1 }, s.others key, hrun, .refl s.disk, rfl, hkey,
      congrArg (· + 1) (h.unpinned frame hmem), h.dirty frame hmem, fun other hother ↦ ?_⟩
    obtain ⟨hother, hne⟩ := List.mem_filter.1 hother
    exact ⟨by simpa using hne, h.unpinned other hother, h.dirty other hother⟩
  | none =>
    have hnone := find?_eq_none hfind
    have hroom := confined_makeRoom (P := P) s.pool.frames.length
    cases hmake : Storage.makeRoom s.pool.frames.length s with
    | error error s' =>
      refine .inl ⟨error, s', ?_, hroom.error hmake⟩
      simp only [Storage.fetch, bind, EStateM.bind, get, getThe, MonadStateOf.get, EStateM.get, hfind, hmake]
    | ok _ s' =>
      have hframes : ∀ frame ∈ s'.pool.frames, frame ∈ s.pool.frames := (makeRoom_frames _).ok hmake
      -- Making room only drops frames and writes dirty pages, which are allowed to be written.
      obtain ⟨hidle, hwrites⟩ := hroom.ok hmake h
      cases hread : Storage.readPage s'.disk key create with
      | error error =>
        refine .inl ⟨error, s', ?_, hroom.ok hmake⟩
        simp only [Storage.fetch, bind, EStateM.bind, get, getThe, MonadStateOf.get, EStateM.get, hfind, hmake,
          hread]
        rfl
      | ok bytes =>
        refine .inr ⟨s'.withFrames ({ key, bytes, pins := 1 } :: s'.pool.frames), { key, bytes, pins := 1 },
          s'.pool.frames, ?_, hwrites, rfl, rfl, rfl, Bool.noConfusion, fun other hother ↦
            ⟨hnone other (hframes other hother), hidle.unpinned other hother, hidle.dirty other hother⟩⟩
        simp only [Storage.fetch, bind, EStateM.bind, get, getThe, MonadStateOf.get, EStateM.get, hfind, hmake,
          hread]
        rfl

/-- The page is given back: it may have got dirty when it is one of a file that may be written. -/
theorem Holding.release {key : PageKey} {frame : Frame} {rest : List Frame} (h : Holding P key s frame rest)
    {guard : Guard} (hdirty : guard.dirty → frame.dirty ∨ P key.file) : Idle P (s.release key guard) := by
  have hsplit {frame' : Frame} (hmem : frame' ∈ (s.release key guard).pool.frames) :
      frame' = { frame with bytes := guard.bytes, dirty := guard.dirty, pins := frame.pins - 1 } ∨
        frame' ∈ rest := by
    obtain ⟨other, hother, rfl⟩ := List.mem_map.1 hmem
    rw [h.frames] at hother
    rcases List.mem_cons.1 hother with rfl | hother
    · exact .inl (if_pos h.page)
    · rw [if_neg (h.others other hother).1]
      exact .inr hother
  refine ⟨fun frame' hmem ↦ ?_, fun frame' hmem hdirty' ↦ ?_⟩
  · rcases hsplit hmem with rfl | hmem
    · rw [h.pins]
    · exact (h.others frame' hmem).2.1
  · rcases hsplit hmem with rfl | hmem
    · rcases hdirty hdirty' with hframe | hfile
      · exact h.dirty hframe
      · rwa [← h.page] at hfile
    · exact (h.others frame' hmem).2.2 hdirty'

/-- A use of a page that makes it dirty only when its file may be written. -/
theorem confined_withPage {α : Type} (key : PageKey) (create : Bool) {use : GuardM α}
    (huse : ∀ guard, (use.final guard).dirty → guard.dirty ∨ P key.file) :
    EStateM.Keeps (Confined P) (Storage.withPage key create use) := by
  intro s hidle
  rcases hidle.fetch key create with ⟨error, s', hfetch, hconfined⟩ | ⟨s', frame, rest, hfetch, hwrites, hholding⟩
  · rw [EStateM.final_of_error (show Storage.withPage key create use s = _ from EStateM.bind_of_error hfetch)]
    exact hconfined hidle
  · have hfind : s'.find? key = some frame := by
      rw [Storage.find?, hholding.frames, List.find?_cons_of_pos]
      rw [hholding.page]
      exact beq_self_eq_true key
    have hguard := huse ⟨frame.bytes, frame.dirty⟩
    rw [EStateM.final] at hguard ⊢
    simp only [Storage.withPage, bind, EStateM.bind, hfetch, get, getThe, MonadStateOf.get, EStateM.get, hfind]
    rcases hresult : use ⟨frame.bytes, frame.dirty⟩ with ⟨a, guard⟩ | ⟨error, guard⟩
    · rw [hresult] at hguard
      exact ⟨hholding.release hguard, hwrites⟩
    · rw [hresult] at hguard
      exact ⟨hholding.release hguard, hwrites⟩

/-- A page that is looked at. -/
theorem confined_viewPage {α : Type} (key : PageKey) (create : Bool) {use : GuardM α}
    (huse : EStateM.Keeps Eq use) : EStateM.Keeps (Confined P) (Storage.withPage key create use) :=
  confined_withPage key create fun guard hdirty ↦ .inl (by rwa [← huse guard] at hdirty)

/-- Restoring a file is confined to it. -/
theorem confined_restoreFile {path : Path} (h : P path) (bytes : Option Bytes) :
    EStateM.Keeps (Confined P) (restoreFile path bytes) := by
  refine (confined_invalidateFile path).bind fun _ s ↦ .of_disk rfl ?_
  show WritesTo P s.disk (restored s.disk path bytes)
  cases bytes with
  | none =>
    rw [restored]
    split
    · exact writesTo_perform _ h
    · exact .refl _
  | some bytes => exact (writesTo_perform _ h).trans (writesTo_perform _ h)

theorem confined_rollBack {path : Path} (h : P path) (before : Option Bytes) :
    EStateM.Keeps (Confined P) (rollBack path before) :=
  (confined_invalidateFile path).bind fun _ ↦ confined_restoreFile h before

/-! ### Heap files -/

namespace HeapFile

/-- The same file, and work that writes only the files `P`. -/
def Looks (P : Path → Prop) (state state' : HeapState) : Prop :=
  state'.file.path = state.file.path ∧ Confined P state.storage state'.storage

/-- The same file, and work that writes only the files `P` when it is one of them. -/
def Works (P : Path → Prop) (state state' : HeapState) : Prop :=
  state'.file.path = state.file.path ∧ (P state.file.path → Confined P state.storage state'.storage)

instance (P : Path → Prop) : IsPreorder HeapState (Looks P) where
  refl state := ⟨rfl, refl state.storage⟩
  trans _ _ _ h h' := ⟨h'.1.trans h.1, IsTrans.trans _ _ _ h.2 h'.2⟩

instance (P : Path → Prop) : IsPreorder HeapState (Works P) where
  refl state := ⟨rfl, fun _ ↦ refl state.storage⟩
  trans state state' state'' h h' := by
    refine ⟨h'.1.trans h.1, fun hfile ↦ ?_⟩
    exact IsTrans.trans _ _ _ (h.2 hfile) (h'.2 (h.1 ▸ hfile))

theorem Looks.works {state state' : HeapState} (h : Looks P state state') : Works P state state' :=
  ⟨h.1, fun _ ↦ h.2⟩

/-- Confined work on the storage only looks. -/
theorem looks_onStorage {α : Type} {use : StorageM α} (h : EStateM.Keeps (Confined P) use) :
    EStateM.Keeps (Looks P) (onStorage use) := by
  intro state
  rcases hrun : use state.storage with ⟨a, s⟩ | ⟨error, s⟩
  · rw [EStateM.final, onStorage, hrun]
    exact ⟨rfl, h.ok hrun⟩
  · rw [EStateM.final, onStorage, hrun]
    exact ⟨rfl, h.error hrun⟩

theorem works_onStorage {α : Type} {use : StorageM α} (h : EStateM.Keeps (Confined P) use) :
    EStateM.Keeps (Works P) (onStorage use) :=
  (looks_onStorage h).mono fun _ _ ↦ Looks.works

/-- A page of the file that is looked at. -/
theorem looks_withPage {α : Type} (page : Nat) {use : GuardM α} (huse : EStateM.Keeps Eq use) :
    EStateM.Keeps (Looks P) (withPage page false use) :=
  EStateM.Keeps.get_bind fun state ↦ looks_onStorage (confined_viewPage ⟨state.file.path, page⟩ false huse) state

/-- A page of the file that may be changed. -/
theorem works_withPage {α : Type} (page : Nat) (create : Bool) (use : GuardM α) :
    EStateM.Keeps (Works P) (withPage page create use) := by
  apply EStateM.Keeps.get_bind
  intro state
  rcases hrun : Storage.withPage ⟨state.file.path, page⟩ create use state.storage with ⟨a, s⟩ | ⟨error, s⟩
  · rw [EStateM.final, onStorage, hrun]
    exact ⟨rfl, fun hfile ↦ (confined_withPage ⟨state.file.path, page⟩ create fun _ _ ↦ .inr hfile).ok hrun⟩
  · rw [EStateM.final, onStorage, hrun]
    exact ⟨rfl, fun hfile ↦ (confined_withPage ⟨state.file.path, page⟩ create fun _ _ ↦ .inr hfile).error hrun⟩

/-- Counting the pages only looks. -/
theorem looks_pageCount : EStateM.Keeps (Looks P) pageCount := by
  apply EStateM.Keeps.get_bind
  intro state
  split
  · exact refl state
  · exact ⟨rfl, refl state.storage⟩

theorem works_pageCount : EStateM.Keeps (Works P) pageCount :=
  looks_pageCount.mono fun _ _ ↦ Looks.works

theorem works_flush : EStateM.Keeps (Works P) flush :=
  fun state ↦ ⟨rfl, fun _ ↦ confined_flushFile state.storage state.file.path⟩

theorem works_create : EStateM.Keeps (Works P) create := by
  refine .bind (.bind .get fun _ ↦ .pure _) fun exists' ↦ .ite (fun _ ↦ ?_) fun _ ↦ .pure _
  refine .get_bind fun state ↦ ?_
  exact ⟨rfl, fun hfile ↦ .of_disk rfl (writesTo_perform _ hfile)⟩

/-- Trying the pages in turn works. -/
theorem works_insertOnPages (encoded : Bytes) (pages : List Nat) :
    EStateM.Keeps (Works P) (insertOnPages encoded pages) := by
  induction pages with
  | nil => exact .pure none
  | cons page pages ih =>
    refine (works_withPage page false _).bind fun slot ↦ ?_
    rcases slot with - | slot
    · exact ih
    · exact .bind (fun state ↦ ⟨rfl, fun _ ↦ refl state.storage⟩) fun _ ↦ .pure _

/-- An insertion works. -/
theorem works_insert (tuple : Tuple) : EStateM.Keeps (Works P) (insert tuple) := by
  refine works_create.bind fun _ ↦ ?_
  split
  · exact .throw _
  · refine .ite (fun _ ↦ .throw _) fun _ ↦ ?_
    refine works_pageCount.bind fun pages ↦ .bind .get fun state ↦ (works_insertOnPages _ _).bind fun found ↦ ?_
    split
    · exact .pure _
    · exact (works_withPage _ true _).bind fun slot ↦ works_flush.bind fun _ ↦
        .bind (fun state ↦ ⟨rfl, fun _ ↦ refl state.storage⟩) fun _ ↦ .pure _

theorem works_erase (row : RowId) : EStateM.Keeps (Works P) (erase row) :=
  works_pageCount.bind fun _ ↦ .ite (fun _ ↦ .pure false) fun _ ↦ works_withPage _ false _

/-- An update works. -/
theorem works_update (row : RowId) (tuple : Tuple) : EStateM.Keeps (Works P) (update row tuple) := by
  rcases hencode : encodeTuple tuple with error | encoded
  · have hthrow : update row tuple = throw error := by
      unfold update
      rw [hencode]
    rw [hthrow]
    exact .throw error
  · rw [update_eq hencode]
    have htry : EStateM.Keeps (Works P) (updateInPlace row encoded) :=
      works_pageCount.bind fun _ ↦ .ite (fun _ ↦ works_withPage _ false _) fun _ ↦ .pure false
    have hmove : EStateM.Keeps (Works P) (move row tuple) :=
      (works_erase row).bind fun _ ↦ .ite (fun _ ↦ .throw _) fun _ ↦ works_insert tuple
    exact htry.bind fun _ ↦ .ite (fun _ ↦ .pure row) fun _ ↦ hmove

/-- Dropping a heap file works. -/
theorem works_drop : EStateM.Keeps (Works P) drop := by
  refine works_flush.bind fun _ ↦ .bind .get fun state ↦ (works_onStorage (confined_invalidateFile _)).bind fun _ ↦
    .bind (.modify fun state' ↦ ?_) fun _ ↦ .modify fun state' ↦ ⟨rfl, fun _ ↦ refl state'.storage⟩
  split
  · exact ⟨rfl, fun hfile ↦ .of_disk rfl (writesTo_perform _ hfile)⟩
  · exact refl state'

end HeapFile

end SkibidiQL
