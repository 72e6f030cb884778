import SkibidiQL.Storage.HeapPlacement
import SkibidiQL.Storage.PageOnDisk

/-!
# Files do not shrink

The pool writes whole pages and a heap file creates its file when there is none, so no file gets shorter by
work on the rows of a heap file.
-/

namespace SkibidiQL

/-- No file has got shorter. -/
def Grows (s s' : Storage) : Prop :=
  ∀ path, (s.disk.files.getD path []).length ≤ (s'.disk.files.getD path []).length

instance : IsPreorder Storage Grows where
  refl _ _ := Nat.le_refl _
  trans _ _ _ h h' path := (h path).trans (h' path)

/-- Where the disk is left no file shrinks. -/
theorem Grows.of_disk {s s' : Storage} (h : s'.disk = s.disk) : Grows s s' :=
  fun path ↦ by rw [h]

/-- A file that does not shrink has no fewer pages. -/
theorem Grows.pagesOf_le {s s' : Storage} (h : Grows s s') (path : Path) :
    pagesOf s.disk.files path ≤ pagesOf s'.disk.files path :=
  Nat.div_le_div_right (h path)

/-! ### The pool -/

/-- Flushing a frame shrinks no file. -/
theorem length_le_flushed (disk : Disk) (frame : Frame) (path : Path) :
    (disk.files.getD path []).length ≤ ((Storage.flushed disk frame).files.getD path []).length := by
  unfold Storage.flushed
  split
  · rw [getD_writePage]
    split
    · rename_i hpath
      rw [hpath]
      exact (le_length_overwrite ..).1
    · exact Nat.le_refl _
  · exact Nat.le_refl _

/-- Flushing a page shrinks no file. -/
theorem grows_flushKey (s : Storage) (key : PageKey) : Grows s (s.flushKey key) := by
  unfold Storage.flushKey
  split
  · exact refl s
  · exact length_le_flushed s.disk _

/-- Flushing several pages shrinks no file. -/
theorem grows_flushKeys (keys : List PageKey) (s : Storage) : Grows s (keys.foldl Storage.flushKey s) := by
  induction keys generalizing s with
  | nil => exact refl s
  | cons key keys ih => exact IsTrans.trans _ _ _ (grows_flushKey s key) (ih _)

/-- Flushing a file shrinks no file. -/
theorem grows_flushFile (s : Storage) (path : Path) : Grows s (s.flushFile path) :=
  grows_flushKeys _ s

/-- Evicting a page shrinks no file. -/
theorem keeps_evictOne : EStateM.Keeps Grows Storage.evictOne := by
  apply EStateM.Keeps.get_bind
  intro s
  split
  · exact refl s
  · exact length_le_flushed s.disk _

/-- Making room shrinks none. -/
theorem keeps_makeRoom (rounds : Nat) : EStateM.Keeps Grows (Storage.makeRoom rounds) := by
  induction rounds with
  | zero => exact .pure ()
  | succ rounds ih =>
    apply EStateM.Keeps.get_bind
    intro s
    split
    · exact (keeps_evictOne.bind fun _ ↦ ih) s
    · exact refl s

/-- Fetching a page shrinks none. -/
theorem keeps_fetch (key : PageKey) (create : Bool) : EStateM.Keeps Grows (Storage.fetch key create) := by
  apply EStateM.Keeps.get_bind
  intro s
  split
  · exact .of_disk rfl
  · refine ((keeps_makeRoom _).bind fun _ ↦ ?_) s
    apply EStateM.Keeps.get_bind
    intro s'
    split
    · exact .of_disk rfl
    · exact .of_disk rfl

/-- Work on a page shrinks no file. -/
theorem keeps_withPage {α : Type} (key : PageKey) (create : Bool) (use : GuardM α) :
    EStateM.Keeps Grows (Storage.withPage key create use) := by
  refine (keeps_fetch key create).bind fun _ ↦ EStateM.Keeps.get_bind fun s ↦ ?_
  split
  · exact .of_disk rfl
  · split
    · exact .of_disk rfl
    · exact .of_disk rfl

/-! ### Heap files -/

namespace HeapFile

/-- The storage under the file has grown, and it is still the same file. -/
def Grows (state state' : HeapState) : Prop :=
  SkibidiQL.Grows state.storage state'.storage

instance : IsPreorder HeapState Grows where
  refl state := refl state.storage
  trans _ _ _ h h' := IsTrans.trans (r := SkibidiQL.Grows) _ _ _ h h'

/-- Work on the storage that shrinks no file shrinks none under a heap file. -/
theorem keeps_onStorage {α : Type} {use : StorageM α} (h : EStateM.Keeps SkibidiQL.Grows use) :
    EStateM.Keeps Grows (onStorage use) := by
  intro state
  rcases hrun : use state.storage with ⟨a, s⟩ | ⟨error, s⟩
  · rw [EStateM.final, onStorage, hrun]
    exact h.ok hrun
  · rw [EStateM.final, onStorage, hrun]
    exact h.error hrun

theorem keeps_withPage {α : Type} (page : Nat) (create : Bool) (use : GuardM α) :
    EStateM.Keeps Grows (withPage page create use) :=
  EStateM.Keeps.get_bind fun state ↦
    keeps_onStorage (SkibidiQL.keeps_withPage ⟨state.file.path, page⟩ create use) state

/-- What a heap file keeps in memory is on no disk. -/
theorem keeps_modifyFile (f : HeapFile → HeapFile) : EStateM.Keeps Grows (modifyFile f) :=
  fun state ↦ refl state.storage

/-- Flushing a heap file shrinks no file. -/
theorem keeps_flush : EStateM.Keeps Grows flush :=
  fun state ↦ grows_flushFile state.storage state.file.path

/-- Counting its pages shrinks none. -/
theorem keeps_pageCount : EStateM.Keeps Grows pageCount := by
  apply EStateM.Keeps.get_bind
  intro state
  split
  · exact Grows.of_disk rfl
  · exact Grows.of_disk rfl

/-- Creating it shrinks none. -/
theorem keeps_create : EStateM.Keeps Grows create := by
  intro state
  rcases hexists : state.storage.disk.contains state.file.path with - | -
  · have hrun : create state = .ok ()
        ⟨{ state.storage with disk := state.storage.disk.perform (.truncate state.file.path) },
          { state.file with knownPageCount := some 0 }⟩ := by
      simp only [create, fileExists, bind, EStateM.bind, get, getThe, MonadStateOf.get, EStateM.get, pure,
        EStateM.pure, hexists]
      rfl
    rw [EStateM.final_of_ok hrun]
    intro path
    rw [getD_truncate_of_not_contains (by rw [hexists]; exact Bool.false_ne_true)]
  · have hmem := Std.ExtTreeMap.contains_iff_mem.1 hexists
    rw [EStateM.final_of_ok (create_exists hmem)]
    exact refl state

/-- Trying its pages in turn shrinks none. -/
theorem keeps_insertOnPages (encoded : Bytes) (pages : List Nat) :
    EStateM.Keeps Grows (insertOnPages encoded pages) := by
  induction pages with
  | nil => exact .pure none
  | cons page pages ih =>
    refine (keeps_withPage page false _).bind fun slot ↦ ?_
    rcases slot with - | slot
    · exact ih
    · exact (keeps_modifyFile _).bind fun _ ↦ .pure _

/-- Inserting a row shrinks none. -/
theorem keeps_insert (tuple : Tuple) : EStateM.Keeps Grows (insert tuple) := by
  refine keeps_create.bind fun _ ↦ ?_
  split
  · exact .throw _
  · refine .ite (fun _ ↦ .throw _) fun _ ↦ ?_
    refine keeps_pageCount.bind fun pages ↦ .bind .get fun state ↦ (keeps_insertOnPages _ _).bind fun found ↦ ?_
    split
    · exact .pure _
    · exact (keeps_withPage _ true _).bind fun slot ↦ keeps_flush.bind fun _ ↦ (keeps_modifyFile _).bind fun _ ↦
        .pure _

/-- Erasing a row shrinks none: its page stays. -/
theorem keeps_erase (row : RowId) : EStateM.Keeps Grows (erase row) :=
  keeps_pageCount.bind fun _ ↦ .ite (fun _ ↦ .pure false) fun _ ↦ keeps_withPage _ false _

/-- Scanning pages shrinks none. -/
theorem keeps_scanPages (decode : Bytes → Except Error Tuple) (pages : List Nat) :
    EStateM.Keeps Grows (scanPages decode pages) := by
  induction pages with
  | nil => exact .pure []
  | cons page pages ih => exact (keeps_withPage _ _ _).bind fun _ ↦ ih.bind fun _ ↦ .pure _

/-- Scanning the file shrinks none. -/
theorem keeps_scan (batchSize : Nat) : EStateM.Keeps Grows (scan batchSize) := by
  refine .bind (.ite (fun _ ↦ .throw _) fun _ ↦ .bind (.ite (fun _ ↦ .throw _) fun _ ↦ .pure ()) fun _ ↦ ?_)
    fun _ ↦ .pure _
  exact keeps_pageCount.bind fun _ ↦ (keeps_scanPages _ _).bind fun _ ↦ .pure _

/-- Updating a row shrinks none. -/
theorem keeps_update (row : RowId) (tuple : Tuple) : EStateM.Keeps Grows (update row tuple) := by
  rcases hencode : encodeTuple tuple with error | encoded
  · have hthrow : update row tuple = throw error := by
      unfold update
      rw [hencode]
    rw [hthrow]
    exact .throw error
  · rw [update_eq hencode]
    have htry : EStateM.Keeps Grows (updateInPlace row encoded) :=
      keeps_pageCount.bind fun _ ↦ .ite (fun _ ↦ keeps_withPage _ false _) fun _ ↦ .pure false
    have hmove : EStateM.Keeps Grows (move row tuple) :=
      (keeps_erase row).bind fun _ ↦ .ite (fun _ ↦ .throw _) fun _ ↦ keeps_insert tuple
    exact htry.bind fun _ ↦ .ite (fun _ ↦ .pure row) fun _ ↦ hmove

end HeapFile

end SkibidiQL
