import SkibidiQL.Storage.HeapFile
import SkibidiQL.Storage.PoolAccess

/-!
# Heap files hold tuples

The rows of a heap file, over all of its pages, are the encodings of the tuples of a map from row ids to
tuples (`Holds`). Each operation of `HeapFile` acts on this map as its name says, and leaves the other heap
files alone (`HeapStep`).
-/

namespace SkibidiQL

open SlottedPage

/-- The contents of a heap file. -/
abbrev HeapMap := RowId → Option Tuple

/-- The encoded rows of a heap file. -/
def Storage.rowsAt (s : Storage) (path : Path) (id : RowId) : Option Bytes :=
  rowAt (s.page ⟨path, id.page⟩) id.slot

/-- The heap file holds these tuples. -/
def Holds (s : Storage) (path : Path) (rows : HeapMap) : Prop :=
  ∀ id, (s.rowsAt path id).map .ok = (rows id).map HeapFile.encodeTuple

variable {heaps : Path → Prop} {s s' s'' : Storage} {path : Path} {rows : HeapMap}

/-- A row is missing on the pages exactly when it is missing in the map. -/
theorem Holds.none_iff (h : Holds s path rows) {id : RowId} :
    s.rowsAt path id = none ↔ rows id = none := by
  have hid := h id
  cases hrow : s.rowsAt path id <;> cases htuple : rows id <;> simp_all

/-- A stored row is shorter than four gigabytes. -/
theorem rowAt_length_lt {page : PageBytes} {slot : Nat} {row : Bytes}
    (h : rowAt page slot = some row) : row.length < 4294967296 := by
  have hlength : row.length ≤ pageSize := by
    unfold rowAt at h
    split at h
    · obtain rfl := Option.some.inj h
      refine Nat.le_trans (List.length_take_le' _ _) ?_
      rw [List.length_drop, page.size_eq]
      exact Nat.sub_le _ _
    · cases h
  rw [show pageSize = 4096 from rfl] at hlength
  omega

/-- A tuple that the file holds is what its row decodes to. -/
theorem Holds.some_iff (h : Holds s path rows) {id : RowId} {tuple : Tuple} :
    rows id = some tuple → ∃ row, s.rowsAt path id = some row ∧
      HeapFile.encodeTuple tuple = .ok row ∧ HeapFile.decodeTuple row = .ok tuple := by
  intro htuple
  have hid := h id
  rw [htuple] at hid
  obtain ⟨row, hrow, hencode⟩ := Option.map_eq_some_iff.1 hid
  exact ⟨row, hrow, hencode.symm, HeapFile.decodeTuple_encode hencode.symm (rowAt_length_lt hrow)⟩

/-- What a heap holds depends on the rows of its pages only. -/
theorem Holds.congr (h : Holds s path rows)
    (hrows : ∀ page, rowAt (s'.page ⟨path, page⟩) = rowAt (s.page ⟨path, page⟩)) :
    Holds s' path rows := by
  intro id
  rw [Storage.rowsAt, hrows]
  exact h id

/-- One slot of the file is bound anew. -/
theorem Holds.update (h : Holds s path rows) (id : RowId) {row : Option Bytes} {tuple : Option Tuple}
    (hrow : row.map .ok = tuple.map HeapFile.encodeTuple)
    (hpage : rowAt (s'.page ⟨path, id.page⟩) =
      Function.update (rowAt (s.page ⟨path, id.page⟩)) id.slot row)
    (hrows : ∀ page, page ≠ id.page → rowAt (s'.page ⟨path, page⟩) = rowAt (s.page ⟨path, page⟩)) :
    Holds s' path (Function.update rows id tuple) := by
  intro other
  by_cases hother : other = id
  · subst hother
    rw [Function.update_self, Storage.rowsAt, hpage, Function.update_self, hrow]
  · rw [Function.update_of_ne hother, ← h other, Storage.rowsAt, Storage.rowsAt]
    by_cases hsame : other.page = id.page
    · have hslot : other.slot ≠ id.slot := fun hslot ↦
        hother (by cases other; cases id; simp_all)
      rw [hsame, hpage, Function.update_of_ne hslot]
    · rw [hrows _ hsame]

/-! ### Steps of one heap file -/

/-- `s'` comes from `s` by work on one heap file. -/
structure HeapStep (heaps : Path → Prop) (path : Path) (s s' : Storage) : Prop where
  ok : StorageOK heaps s'
  settled : Settled s'
  rows : ∀ key : PageKey, key.file ≠ path → rowAt (s'.page key) = rowAt (s.page key)
  mem : ∀ other, other ≠ path → (other ∈ s'.disk.files ↔ other ∈ s.disk.files)
  stays : path ∈ s.disk.files → path ∈ s'.disk.files
  other : ∀ other, ¬heaps other → s'.disk.files[other]? = s.disk.files[other]?
  pages : ∀ other, other ≠ path → pagesOf s'.disk.files other = pagesOf s.disk.files other
  root : s'.disk.root = s.disk.root

/-- Heap steps compose. -/
theorem HeapStep.trans (h : HeapStep heaps path s s') (h' : HeapStep heaps path s' s'') :
    HeapStep heaps path s s'' where
  ok := h'.ok
  settled := h'.settled
  rows key hkey := (h'.rows key hkey).trans (h.rows key hkey)
  mem other hother := (h'.mem other hother).trans (h.mem other hother)
  stays := h'.stays ∘ h.stays
  other other hother := (h'.other other hother).trans (h.other other hother)
  pages other hother := (h'.pages other hother).trans (h.pages other hother)
  root := h'.root.trans h.root

/-- A step of the pool that changes no page is a heap step. -/
theorem PoolStep.toHeapStep (h : PoolStep heaps s s') (hsettled : Settled s) (path : Path) :
    HeapStep heaps path s s' where
  ok := h.ok
  settled := (h.settled hsettled).1
  rows key _ := h.rows key
  mem other _ := h.mem other
  stays := (h.mem path).2
  other := h.other
  pages other _ := (h.settled hsettled).2 other
  root := h.root

/-- A step on one page of a heap is a step of the heap. -/
theorem PageStep.toHeapStep {page : Nat} (h : PageStep heaps ⟨path, page⟩ s s') :
    HeapStep heaps path s s' where
  ok := h.ok
  settled := h.settled
  rows key hkey := h.rows key fun heq ↦ hkey (by rw [heq])
  mem other _ := h.mem other
  stays := (h.mem path).2
  other := h.other
  pages other _ := h.pages other
  root := h.root

theorem Holds.poolStep (h : Holds s path rows) (hstep : PoolStep heaps s s') : Holds s' path rows :=
  h.congr fun _ ↦ hstep.rows _

theorem Holds.heapStep {other : Path} (h : Holds s path rows) (hstep : HeapStep heaps other s s')
    (hne : path ≠ other) : Holds s' path rows :=
  h.congr fun _ ↦ hstep.rows _ hne

/-- What the operations of a `HeapFile` assume and keep: the number of pages it remembers is right. -/
structure HeapOK (heaps : Path → Prop) (s : Storage) (file : HeapFile) : Prop where
  ok : StorageOK heaps s
  settled : Settled s
  heap : heaps file.path
  known : ∀ pages ∈ file.knownPageCount, pages = pagesOf s.disk.files file.path

variable {file : HeapFile}

/-- A step of the pool keeps a heap file well formed. -/
theorem HeapOK.poolStep (h : HeapOK heaps s file) (hstep : PoolStep heaps s s') :
    HeapOK heaps s' file := by
  obtain ⟨hsettled, hpages⟩ := hstep.settled h.settled
  refine ⟨hstep.ok, hsettled, h.heap, ?_⟩
  rw [hpages]
  exact h.known

/-- A step on one of its pages keeps a heap file well formed. -/
theorem HeapOK.pageStep (h : HeapOK heaps s file) {page : Nat}
    (hstep : PageStep heaps ⟨file.path, page⟩ s s') : HeapOK heaps s' file := by
  refine ⟨hstep.ok, hstep.settled, h.heap, ?_⟩
  rw [hstep.pages]
  exact h.known

theorem pagesOf_missing {files : Files} (h : path ∉ files) : pagesOf files path = 0 := by
  rw [pagesOf, Std.ExtTreeMap.getD_eq_fallback h]
  rfl

theorem exists_of_page {files : Files} {page : Nat} (h : page < pagesOf files path) : path ∈ files := by
  by_contra hmissing
  rw [pagesOf_missing hmissing] at h
  exact Nat.not_lt_zero page h

/-- Rows lie within the file. -/
theorem HeapOK.page_lt (h : HeapOK heaps s file) (hrows : Holds s file.path rows) {id : RowId}
    {tuple : Tuple} (hid : rows id = some tuple) : id.page < pagesOf s.disk.files file.path := by
  by_contra hout
  have hnone := rowAt_beyond h.ok ⟨file.path, id.page⟩ h.settled h.heap
    (Nat.le_of_not_lt hout) id.slot
  have hdead := hrows.none_iff.1 hnone
  rw [hid] at hdead
  cases hdead

namespace HeapFile

/-! ### Counting pages and reading -/

/-- What succeeds on a page of the pool succeeds on the heap file. -/
theorem withPage_of_ok {α : Type} {page : Nat} {create : Bool} {use : GuardM α} {a : α}
    (h : Storage.withPage ⟨file.path, page⟩ create use s = .ok a s') :
    withPage page create use ⟨s, file⟩ = .ok a ⟨s', file⟩ := by
  show onStorage _ _ = _
  rw [onStorage, h]

/-- What fails on a page of the pool fails on the heap file. -/
theorem withPage_of_error {α : Type} {page : Nat} {create : Bool} {use : GuardM α} {error : Error}
    (h : Storage.withPage ⟨file.path, page⟩ create use s = .error error s') :
    withPage page create use ⟨s, file⟩ = .error error ⟨s', file⟩ := by
  show onStorage _ _ = _
  rw [onStorage, h]

/-- A heap file answers as the pool does. -/
theorem withPage_of_answer {α : Type} {page : Nat} {create : Bool} {use : GuardM α}
    {result : Except Error α}
    (h : Storage.withPage ⟨file.path, page⟩ create use s = EStateM.answer result s') :
    withPage page create use ⟨s, file⟩ = EStateM.answer result ⟨s', file⟩ := by
  cases result with
  | ok a => exact withPage_of_ok h
  | error error => exact withPage_of_error h

/-- The object after it has counted the pages. -/
def counted (s : Storage) (file : HeapFile) : HeapFile :=
  { file with knownPageCount := some (pagesOf s.disk.files file.path) }

theorem counted_ok (h : HeapOK heaps s file) : HeapOK heaps s (counted s file) :=
  ⟨h.ok, h.settled, h.heap, fun _ hpages ↦ (Option.some.inj hpages).symm⟩

/-- The pages counted are those of the file. -/
theorem pageCount_spec (h : HeapOK heaps s file) :
    pageCount ⟨s, file⟩ = .ok (pagesOf s.disk.files file.path) ⟨s, counted s file⟩ := by
  simp only [pageCount, bind, EStateM.bind, get, getThe, MonadStateOf.get, EStateM.get]
  cases hknown : file.knownPageCount with
  | some pages =>
    obtain rfl := h.known pages hknown
    show EStateM.Result.ok _ _ = EStateM.Result.ok _ _
    rw [counted, ← hknown]
  | none =>
    have hcount : (if s.disk.contains file.path then
        ((s.disk.read file.path).length + pageSize - 1) / pageSize else 0) =
        pagesOf s.disk.files file.path := by
      by_cases hfile : file.path ∈ s.disk.files
      · have hcontains : s.disk.contains file.path := Std.ExtTreeMap.contains_iff_mem.2 hfile
        have hsize : pageSize ∣ (s.disk.read file.path).length := h.ok.files.size _ h.heap
        rw [if_pos hcontains]
        show _ = (s.disk.read file.path).length / pageSize
        rw [show pageSize = 4096 from rfl] at hsize ⊢
        omega
      · have hcontains : ¬s.disk.contains file.path := fun hc ↦
          hfile (Std.ExtTreeMap.contains_iff_mem.1 hc)
        rw [if_neg hcontains, pagesOf_missing hfile]
    show EStateM.Result.ok _ _ = EStateM.Result.ok _ _
    rw [hcount]
    rfl

/-- What `read` finds in a slot. -/
def decodeSlot (row : Option Bytes) : Except Error (Option Tuple) :=
  match row with
  | none => .ok none
  | some row => match decodeTuple row with
    | .error error => .error error
    | .ok tuple => .ok (some tuple)

/-- Reading a slot gives the row there. -/
theorem read_eq_rowAt {page : PageBytes} (hpage : PageOK page ∨ page = PageBytes.zero) (slot : Nat) :
    SlottedPage.read page slot = .ok (rowAt page slot) := by
  rcases hpage with hok | rfl
  · exact hok.read_eq slot
  · rw [read_zero, rowAt_zero]

/-- Reading a slot answers with the decoded row. -/
theorem readSlot_eq {guard : Guard} (hpage : PageOK guard.bytes ∨ guard.bytes = PageBytes.zero)
    (slot : Nat) :
    readSlot slot guard = EStateM.answer (decodeSlot (rowAt guard.bytes slot)) guard := by
  simp only [readSlot, bind, EStateM.bind, get, getThe, MonadStateOf.get, EStateM.get,
    read_eq_rowAt hpage]
  cases rowAt guard.bytes slot with
  | none => rfl
  | some row =>
    simp only [decodeSlot]
    cases decodeTuple row <;> rfl

/-- Reading finds the tuple that the file holds. -/
theorem read_spec (h : HeapOK heaps s file) (hfile : file.path ∈ s.disk.files)
    (hrows : Holds s file.path rows) (id : RowId) :
    ∃ s', PoolStep heaps s s' ∧
      read id ⟨s, file⟩ = .ok ((rows id).map (⟨id, ·⟩)) ⟨s', file⟩ := by
  have hdecode : decodeSlot (s.rowsAt file.path id) = .ok (rows id) := by
    cases htuple : rows id with
    | none => rw [hrows.none_iff.2 htuple, decodeSlot]
    | some tuple =>
      obtain ⟨row, hrow, -, hdecode⟩ := hrows.some_iff htuple
      rw [hrow, decodeSlot, hdecode]
  obtain ⟨s', result, hstep, hrun, rfl⟩ :=
    h.ok.viewPage ⟨file.path, id.page⟩ false (readSlot id.slot) (· = .ok (rows id)) h.heap hfile
      fun guard hpage hrowAt ↦ ⟨_, readSlot_eq hpage id.slot, by rw [hrowAt]; exact hdecode⟩
  refine ⟨s', hstep, ?_⟩
  rw [read, EStateM.bind_of_ok (withPage_of_answer hrun)]
  rfl

/-- Reading from a file that does not exist. -/
theorem read_missing (h : HeapOK heaps s file) (hfile : file.path ∉ s.disk.files) (id : RowId) :
    ∃ s', PoolStep heaps s s' ∧ read id ⟨s, file⟩ =
      .error (lit "Cannot open heap file: " ++ s.disk.absolute file.path) ⟨s', file⟩ := by
  obtain ⟨s', hstep, hfetch⟩ := h.ok.fetch_missing ⟨file.path, id.page⟩ hfile
  refine ⟨s', hstep, ?_⟩
  rw [read]
  exact EStateM.bind_of_error (withPage_of_error (EStateM.bind_of_error hfetch))

/-! ### Erasing and updating in place -/

/-- Erasing a slot takes its row away and says whether there was one. -/
theorem eraseSlot_spec {guard : Guard} (h : PageOK guard.bytes) (slot : Nat) :
    ∃ guard', eraseSlot slot guard = .ok (rowAt guard.bytes slot).isSome guard' ∧
      PageOK guard'.bytes ∧ rowAt guard'.bytes = Function.update (rowAt guard.bytes) slot none ∧
      (guard'.dirty ∨ guard'.dirty = guard.dirty ∧ rowAt guard'.bytes = rowAt guard.bytes) := by
  cases hrow : rowAt guard.bytes slot with
  | none =>
    refine ⟨guard, ?_, h, ?_, .inr ⟨rfl, rfl⟩⟩
    · simp only [eraseSlot, bind, EStateM.bind, get, getThe, MonadStateOf.get, EStateM.get,
        h.erase_none hrow]
      rfl
    · rw [← hrow, Function.update_eq_self]
  | some row =>
    obtain ⟨q, herase, hok, -, hrows⟩ := h.erase_some hrow
    refine ⟨⟨q, true⟩, ?_, hok, hrows, .inl rfl⟩
    simp only [eraseSlot, bind, EStateM.bind, get, getThe, MonadStateOf.get, EStateM.get, herase]
    rfl

/-- An update in place stores the new bytes, or leaves the rows and says so. -/
theorem updateSlot_spec {guard : Guard} (h : PageOK guard.bytes) (slot : Nat) (encoded : Bytes) :
    ∃ done guard', updateSlot slot encoded guard = .ok done guard' ∧ PageOK guard'.bytes ∧
      (if done then (rowAt guard.bytes slot).isSome ∧
          rowAt guard'.bytes = Function.update (rowAt guard.bytes) slot (some encoded)
        else rowAt guard'.bytes = rowAt guard.bytes) ∧
      (guard'.dirty ∨ guard'.dirty = guard.dirty ∧ rowAt guard'.bytes = rowAt guard.bytes) := by
  by_cases hfits : ∃ old, rowAt guard.bytes slot = some old ∧ encoded.length ≤ old.length
  · obtain ⟨old, hold, hlength⟩ := hfits
    obtain ⟨q, hupdate, hok, -, hrows⟩ := h.update_some hold hlength
    refine ⟨true, ⟨q, true⟩, ?_, hok, ⟨by rw [hold]; rfl, hrows⟩, .inl rfl⟩
    simp only [updateSlot, bind, EStateM.bind, get, getThe, MonadStateOf.get, EStateM.get, hupdate]
    rfl
  · have hnone := h.update_none fun old hold ↦
      Nat.lt_of_not_le fun hle ↦ hfits ⟨old, hold, hle⟩
    refine ⟨false, guard, ?_, h, rfl, .inr ⟨rfl, rfl⟩⟩
    simp only [updateSlot, bind, EStateM.bind, get, getThe, MonadStateOf.get, EStateM.get, hnone]
    rfl

/-- The invariants and the contents after an operation on the file. -/
structure After (heaps : Path → Prop) (s : Storage) (path : Path) (rows : HeapMap)
    (state : HeapState) : Prop where
  step : HeapStep heaps path s state.storage
  ok : HeapOK heaps state.storage state.file
  path_eq : state.file.path = path
  holds : Holds state.storage path rows

theorem After.refl (h : HeapOK heaps s file) (hrows : Holds s file.path rows) :
    After heaps s file.path rows ⟨s, file⟩ :=
  ⟨(PoolStep.refl h.ok).toHeapStep h.settled _, h, rfl, hrows⟩

theorem After.trans {state : HeapState} {rows' : HeapMap} (h : After heaps s path rows ⟨s', file⟩)
    (h' : After heaps s' path rows' state) : After heaps s path rows' state :=
  ⟨h.step.trans h'.step, h'.ok, h'.path_eq, h'.holds⟩

/-- A page whose one slot has changed changes that row of the heap. -/
theorem after_pageStep (h : HeapOK heaps s file) (id : RowId) {row : Option Bytes}
    {tuple : Option Tuple} (hrows : Holds s file.path rows)
    (hstep : PageStep heaps ⟨file.path, id.page⟩ s s')
    (hpage : rowAt (s'.page ⟨file.path, id.page⟩) =
      Function.update (rowAt (s.page ⟨file.path, id.page⟩)) id.slot row)
    (hrow : row.map .ok = tuple.map encodeTuple) :
    After heaps s file.path (Function.update rows id tuple) ⟨s', file⟩ :=
  ⟨hstep.toHeapStep, h.pageStep hstep, rfl, hrows.update id hrow hpage fun _ hne ↦
    hstep.rows _ fun heq ↦ hne (congrArg PageKey.page heq)⟩

/-- Erasing a row. -/
theorem erase_spec (h : HeapOK heaps s file) (hrows : Holds s file.path rows) (id : RowId) :
    ∃ state, erase id ⟨s, file⟩ = .ok (rows id).isSome state ∧
      After heaps s file.path (Function.update rows id none) state ∧
      pagesOf state.storage.disk.files file.path = pagesOf s.disk.files file.path := by
  have hcount := pageCount_spec h
  have hok := counted_ok h
  by_cases hin : id.page < pagesOf s.disk.files file.path
  · obtain ⟨done, s', hrun, hstep, hdone, hpage⟩ :=
      h.ok.changePage ⟨file.path, id.page⟩ false (eraseSlot id.slot)
        (fun R done R' ↦ done = (R id.slot).isSome ∧ R' = Function.update R id.slot none)
        h.settled h.heap (exists_of_page hin) hin fun guard hguard _ ↦ by
          obtain ⟨guard', hrun, hok', hrows', hdirty⟩ := eraseSlot_spec hguard id.slot
          exact ⟨_, guard', hrun, hok', ⟨rfl, hrows'⟩, hdirty⟩
    have hlive : done = (rows id).isSome := by
      rw [hdone, Bool.eq_iff_iff, Option.isSome_iff_ne_none, Option.isSome_iff_ne_none, ne_eq, ne_eq,
        ← hrows.none_iff]
      rfl
    have hafter : After heaps s (counted s file).path (Function.update rows id none)
        ⟨s', counted s file⟩ := after_pageStep hok id hrows hstep hpage rfl
    refine ⟨⟨s', counted s file⟩, ?_, hafter, hstep.pages _⟩
    rw [erase, EStateM.bind_of_ok hcount]
    show (if id.page ≥ pagesOf s.disk.files file.path then _ else _ : HeapM Bool) _ = _
    rw [if_neg (Nat.not_le.2 hin), ← hlive]
    exact withPage_of_ok hrun
  -- Behind the last page there is nothing to erase, and only the pages have been counted.
  · have hdead : rows id = none := by
      cases hid : rows id with
      | none => rfl
      | some tuple => exact absurd (h.page_lt hrows hid) hin
    refine ⟨⟨s, counted s file⟩, ?_,
      ⟨(PoolStep.refl h.ok).toHeapStep h.settled _, hok, rfl, ?_⟩, rfl⟩
    · rw [erase, EStateM.bind_of_ok hcount]
      show (if id.page ≥ pagesOf s.disk.files file.path then _ else _ : HeapM Bool) _ = _
      rw [if_pos (Nat.le_of_not_lt hin), hdead]
      rfl
    · rw [← hdead, Function.update_eq_self]
      exact hrows

/-! ### Inserting -/

/-- An empty file is created when there is none. -/
theorem create_spec (h : HeapOK heaps s file) (hrows : Holds s file.path rows) :
    ∃ state, create ⟨s, file⟩ = .ok () state ∧ After heaps s file.path rows state ∧
      file.path ∈ state.storage.disk.files ∧
      pagesOf state.storage.disk.files file.path = pagesOf s.disk.files file.path := by
  by_cases hfile : file.path ∈ s.disk.files
  · have hcontains : s.disk.contains file.path = true := Std.ExtTreeMap.contains_iff_mem.2 hfile
    refine ⟨⟨s, file⟩, ?_, ⟨(PoolStep.refl h.ok).toHeapStep h.settled _, h, rfl, hrows⟩, hfile, rfl⟩
    simp only [create, fileExists, bind, EStateM.bind, get, getThe, MonadStateOf.get, EStateM.get, pure,
      EStateM.pure, hcontains, Bool.not_true, Bool.false_eq_true, if_false]
  · have hcontains : s.disk.contains file.path = false := by
      rw [Disk.contains, ← Bool.not_eq_true, Std.ExtTreeMap.contains_iff_mem]
      exact hfile
    set s' : Storage := { s with disk := s.disk.perform (.truncate file.path) } with hs'
    -- The empty file that is created has the bytes that the missing one read as, so no page changes.
    have hgetD : ∀ path, s'.disk.files.getD path [] = s.disk.files.getD path [] := by
      intro path
      show (s.disk.files.insert file.path []).getD path [] = _
      rw [Std.ExtTreeMap.getD_insert]
      split
      · rename_i heq
        rw [← Std.LawfulEqOrd.eq_of_compare heq, Std.ExtTreeMap.getD_eq_fallback hfile]
      · rfl
    have hmem : ∀ path, path ∈ s'.disk.files ↔ path = file.path ∨ path ∈ s.disk.files := by
      intro path
      show path ∈ s.disk.files.insert file.path [] ↔ _
      rw [Std.ExtTreeMap.mem_insert, Std.LawfulEqOrd.compare_eq_iff_eq, eq_comm]
    have hdisk : ∀ key, diskPage s'.disk.files key = diskPage s.disk.files key := by
      intro key
      rw [diskPage, hgetD]
      rfl
    have hpages : ∀ path, pagesOf s'.disk.files path = pagesOf s.disk.files path := by
      intro path
      rw [pagesOf, hgetD]
      rfl
    have hok : StorageOK heaps s' := by
      refine ⟨h.ok.capacity, h.ok.room, h.ok.nodup, h.ok.unpinned, h.ok.heap, fun g hg ↦ ?_, ?_, ?_⟩
      · have hg' := h.ok.frames g hg
        refine ⟨(hmem _).2 (.inr hg'.exists_file), ?_, ?_, ?_⟩
        · rw [hpages]
          exact hg'.dirty_ok
        · rw [hpages, hdisk]
          exact hg'.clean_in
        · rw [hpages]
          exact hg'.clean_out
      · intro path hpath
        rw [hgetD]
        exact h.ok.files.size path hpath
      · intro key hkey
        rw [hpages, hdisk]
        exact h.ok.files.pages key hkey
    have hpage : ∀ key, s'.page key = s.page key := by
      intro key
      rw [Storage.page, hdisk]
      rfl
    have hsettled : Settled s' := by
      intro g hg hdirty
      rw [hpages]
      exact h.settled g hg hdirty
    refine ⟨⟨s', { file with knownPageCount := some 0 }⟩, ?_, ⟨⟨hok, hsettled, ?_, ?_, ?_, ?_, ?_, rfl⟩,
      ⟨hok, hsettled, h.heap, ?_⟩, rfl, ?_⟩, (hmem _).2 (.inl rfl), hpages _⟩
    · simp only [create, fileExists, bind, EStateM.bind, get, getThe, MonadStateOf.get, EStateM.get,
        pure, EStateM.pure, hcontains, Bool.not_false, if_true]
      rfl
    · exact fun key _ ↦ by rw [hpage]
    · exact fun other hother ↦ (hmem other).trans (or_iff_right hother)
    · exact fun _ ↦ (hmem _).2 (.inl rfl)
    · intro other hother
      have hne : file.path ≠ other := fun heq ↦ hother (heq ▸ h.heap)
      show (s.disk.files.insert file.path [])[other]? = _
      rw [Std.ExtTreeMap.getElem?_insert]
      simp [hne]
    · exact fun other _ ↦ hpages other
    · intro pages hknown
      rw [hpages, pagesOf_missing hfile]
      exact (Option.some.inj hknown).symm
    · exact hrows.congr fun page ↦ by rw [hpage]

/-- Inserting on a page is the page's own insertion, made dirty. -/
theorem insertOnPage_eq {guard : Guard} (h : PageOK guard.bytes) (encoded : Bytes) :
    insertOnPage encoded guard = match SlottedPage.insert encoded guard.bytes with
      | .ok slot bytes => .ok slot ⟨bytes, guard.dirty || slot.isSome⟩
      | .error error bytes => .error error ⟨bytes, guard.dirty⟩ := by
  simp only [insertOnPage, bind, EStateM.bind, get, getThe, MonadStateOf.get, EStateM.get, h.valid,
    Bool.not_true, Bool.false_eq_true, if_false, pure, onPage]
  cases SlottedPage.insert encoded guard.bytes with
  | ok slot bytes => cases slot <;> simp <;> rfl
  | error error bytes => rfl

/-- An insertion on a page stores the row in a free slot, or leaves the rows. -/
theorem insertOnPage_spec {guard : Guard} (h : PageOK guard.bytes) {encoded : Bytes}
    (hlength : encoded.length ≤ 65535) :
    ∃ slot guard', insertOnPage encoded guard = .ok slot guard' ∧ PageOK guard'.bytes ∧
      (match slot with
        | some slot => rowAt guard.bytes slot = none ∧
          rowAt guard'.bytes = Function.update (rowAt guard.bytes) slot (some encoded)
        | none => rowAt guard'.bytes = rowAt guard.bytes) ∧
      (guard'.dirty ∨ guard'.dirty = guard.dirty ∧ rowAt guard'.bytes = rowAt guard.bytes) := by
  by_cases hroom : HasRoom guard.bytes encoded
  · obtain ⟨q, hinsert, hplaced⟩ := h.insert_of_room hlength hroom
    refine ⟨some (nextSlot guard.bytes), ⟨q, true⟩, ?_, hplaced.ok, ⟨hplaced.free, hplaced.rowAt_eq⟩,
      .inl rfl⟩
    rw [insertOnPage_eq h, hinsert]
    simp
  · obtain ⟨q, hinsert, hok, -, hrows⟩ := h.insert_of_full hlength hroom
    refine ⟨none, ⟨q, guard.dirty⟩, ?_, hok, hrows, .inr ⟨rfl, hrows⟩⟩
    rw [insertOnPage_eq h, hinsert]
    simp

/-- Trying existing pages. -/
theorem insertOnPages_spec (h : HeapOK heaps s file) (hrows : Holds s file.path rows) {tuple : Tuple}
    {encoded : Bytes} (hencode : encodeTuple tuple = .ok encoded) (hlength : encoded.length ≤ 65535)
    {pages : List Nat} (hpages : ∀ page ∈ pages, page < pagesOf s.disk.files file.path) :
    ∃ found state, insertOnPages encoded pages ⟨s, file⟩ = .ok found state ∧
      pagesOf state.storage.disk.files file.path = pagesOf s.disk.files file.path ∧
      match found with
      | some id => rows id = none ∧
        After heaps s file.path (Function.update rows id (some tuple)) state
      | none => After heaps s file.path rows state := by
  induction pages generalizing s with
  | nil => exact ⟨none, ⟨s, file⟩, rfl, rfl, (PoolStep.refl h.ok).toHeapStep h.settled _, h, rfl, hrows⟩
  | cons page pages ih =>
    have hin := hpages page List.mem_cons_self
    obtain ⟨slot, s', hrun, hstep, hpost⟩ :=
      h.ok.changePage ⟨file.path, page⟩ false (insertOnPage encoded)
        (fun R slot R' ↦ match slot with
          | some slot => R slot = none ∧ R' = Function.update R slot (some encoded)
          | none => R' = R)
        h.settled h.heap (exists_of_page hin) hin fun guard hguard _ ↦ insertOnPage_spec hguard hlength
    have hrun' : insertOnPages encoded (page :: pages) ⟨s, file⟩ = (match slot with
        | some slot => do
          modifyFile ({ · with insertPageHint := some page })
          pure (some ⟨page, slot⟩)
        | none => insertOnPages encoded pages : HeapM (Option RowId)) ⟨s', file⟩ := by
      rw [insertOnPages, EStateM.bind_of_ok (withPage_of_ok hrun)]
      cases slot <;> rfl
    -- The row is placed and becomes the hint, or the page is as it was and the next one is tried.
    cases slot with
    | some slot =>
      obtain ⟨hfree, hpage⟩ := hpost
      have hafter : After heaps s file.path (Function.update rows ⟨page, slot⟩ (some tuple))
          ⟨s', file⟩ := after_pageStep h ⟨page, slot⟩ hrows hstep hpage
            (congrArg some hencode.symm)
      refine ⟨some ⟨page, slot⟩, ⟨s', { file with insertPageHint := some page }⟩, hrun'.trans rfl,
        hstep.pages _, hrows.none_iff.1 hfree, hafter.step, ?_, rfl, hafter.holds⟩
      exact ⟨hafter.ok.ok, hafter.ok.settled, hafter.ok.heap, hafter.ok.known⟩
    | none =>
      have hholds : Holds s' file.path rows := hrows.congr fun other ↦ by
        by_cases hother : other = page
        · rw [hother]
          exact hpost
        · exact hstep.rows _ fun heq ↦ hother (congrArg PageKey.page heq)
      obtain ⟨found, state, hfound, hcount, hpost'⟩ := ih (h.pageStep hstep) hholds fun other hother ↦ by
        rw [hstep.pages]
        exact hpages other (List.mem_cons_of_mem _ hother)
      refine ⟨found, state, hrun'.trans hfound, hcount.trans (hstep.pages _), ?_⟩
      cases found with
      | some id =>
        obtain ⟨hid, hafter⟩ := hpost'
        exact ⟨hid, hstep.toHeapStep.trans hafter.step, hafter.ok, hafter.path_eq, hafter.holds⟩
      | none => exact ⟨hstep.toHeapStep.trans hpost'.step, hpost'.ok, hpost'.path_eq, hpost'.holds⟩

/-- A row that fits into an empty page takes slot 0 of a new one. -/
theorem insertOnNewPage_spec (guard : Guard) {encoded : Bytes}
    (hlength : encoded.length + 22 ≤ pageSize) :
    ∃ q, insertOnNewPage encoded guard = .ok 0 ⟨q, true⟩ ∧ Placed formatted encoded 0 q := by
  obtain ⟨q, hinsert, hplaced⟩ := insert_formatted hlength
  refine ⟨q, ?_, hplaced⟩
  have hrun : onPage (SlottedPage.insert encoded) ⟨formatted, guard.dirty⟩ =
      .ok (some 0) ⟨q, guard.dirty⟩ := by
    rw [onPage, hinsert]
  have hset : onPage (set formatted) guard = .ok ⟨⟩ ⟨formatted, guard.dirty⟩ := rfl
  rw [insertOnNewPage, EStateM.bind_of_ok hset, EStateM.bind_of_ok hrun]
  rfl

/-- Inserting on a new page behind the end of the file. -/
theorem newPage_spec (h : HeapOK heaps s file) (hfile : file.path ∈ s.disk.files)
    (hrows : Holds s file.path rows) {tuple : Tuple} {encoded : Bytes}
    (hencode : encodeTuple tuple = .ok encoded) (hlength : encoded.length + 22 ≤ pageSize) :
    ∃ s₁, withPage (pagesOf s.disk.files file.path) true (insertOnNewPage encoded) ⟨s, file⟩ =
        .ok 0 ⟨s₁, file⟩ ∧
      rows ⟨pagesOf s.disk.files file.path, 0⟩ = none ∧
      HeapStep heaps file.path s (s₁.flushFile file.path) ∧
      pagesOf (s₁.flushFile file.path).disk.files file.path = pagesOf s.disk.files file.path + 1 ∧
      Holds (s₁.flushFile file.path) file.path
        (Function.update rows ⟨pagesOf s.disk.files file.path, 0⟩ (some tuple)) := by
  set key : PageKey := ⟨file.path, pagesOf s.disk.files file.path⟩ with hkey
  have hbeyond : ∀ slot, rowAt (s.page key) slot = none :=
    rowAt_beyond h.ok key h.settled h.heap (Nat.le_refl _)
  obtain ⟨s', guard, hstep, hfirst, -, hrun⟩ :=
    h.ok.withPage key true (insertOnNewPage encoded) h.heap hfile
  obtain ⟨hsettled, hpages⟩ := hstep.settled h.settled
  obtain ⟨q, hinsert, hplaced⟩ := insertOnNewPage_spec guard hlength
  rw [hinsert] at hrun
  -- The new page is the one behind the last on disk, so its frame has to be dirty and is flushed below.
  have hframe : FrameOK s'.disk.files { key, bytes := q, dirty := true } :=
    ⟨(hstep.mem _).2 hfile, fun _ ↦ ⟨hplaced.ok, by rw [hpages]⟩, fun hclean ↦ absurd rfl hclean,
      fun hclean ↦ absurd rfl hclean⟩
  obtain ⟨hok, hself, hothers⟩ := hstep.ok.setFirst hfirst ⟨q, true⟩ hframe
  obtain ⟨frame, rest, hframes, hframeKey, -, -⟩ := hfirst
  have hset : s'.setFirst ⟨q, true⟩ = s'.withFrames ({ frame with bytes := q, dirty := true } :: rest) := by
    rw [Storage.setFirst, hframes]
  set s₁ := s'.setFirst ⟨q, true⟩ with hs₁
  have hdisk : s₁.disk = s'.disk := by
    rw [hset]
    rfl
  have hmem : { frame with bytes := q, dirty := true } ∈ s₁.pool.frames := by
    rw [hset]
    exact List.mem_cons_self
  obtain ⟨hsettled₁, hpages₁⟩ := hok.flushFile_new hmem rfl
    (by show frame.key.page = pagesOf s₁.disk.files frame.key.file
        rw [hframeKey, hdisk, hpages])
    (by intro g hg hdirty hne
        rw [hset] at hg
        rcases List.mem_cons.1 hg with rfl | hg
        · exact absurd rfl hne
        · rw [hdisk]
          exact hsettled g (hframes ▸ List.mem_cons_of_mem _ hg) hdirty)
  simp only [hframeKey] at hsettled₁ hpages₁
  have hflush := hok.flushFile file.path
  -- Behind the end of the file the page read as empty, and a formatted page reads as empty too.
  have hpageAt : rowAt ((s₁.flushFile file.path).page key) =
      Function.update (rowAt (s.page key)) 0 (some encoded) := by
    have hempty : rowAt (s.page key) = rowAt formatted :=
      funext fun slot ↦ (hbeyond slot).trans (formatted_ok.2 slot).symm
    rw [hflush.rows, hself, hplaced.rowAt_eq, hempty]
  have hother : ∀ other, other ≠ key →
      rowAt ((s₁.flushFile file.path).page other) = rowAt (s.page other) := fun other hne ↦ by
    rw [hflush.rows, hothers other hne, hstep.rows]
  refine ⟨s₁, withPage_of_ok hrun, hrows.none_iff.1 (hbeyond 0), ?_, ?_, ?_⟩
  · refine ⟨hflush.ok, hsettled₁, ?_, ?_, ?_, ?_, ?_, ?_⟩
    · exact fun other hne ↦ hother other fun heq ↦ hne (by rw [heq])
    · intro other _
      rw [hflush.mem, hdisk, hstep.mem]
    · intro hin
      rw [hflush.mem, hdisk, hstep.mem]
      exact hin
    · intro other hne
      rw [hflush.other other hne, hdisk, hstep.other other hne]
    · intro other hne
      rw [hpages₁, if_neg hne, hdisk, hpages]
    · rw [hflush.root, hdisk, hstep.root]
  · rw [hpages₁, if_pos rfl, hdisk, hpages]
  · have hrow : (some encoded).map Except.ok = (some tuple).map encodeTuple :=
      congrArg some hencode.symm
    exact hrows.update ⟨pagesOf s.disk.files file.path, 0⟩ hrow hpageAt fun page hne ↦
      hother _ fun heq ↦ hne (congrArg PageKey.page heq)

/-- The encoded tuple fits on a page of its own. -/
def Storable (tuple : Tuple) : Prop :=
  ∃ encoded, encodeTuple tuple = .ok encoded ∧ encoded.length + 22 ≤ pageSize

/-- The search begins within the file. -/
theorem firstPage_le (file : HeapFile) (pages : Nat) : firstPage file pages ≤ pages := by
  unfold firstPage toUInt32
  split
  · split_ifs <;> omega
  · split_ifs <;> omega

/-- The end of an insertion when no page had room. -/
theorem insert_newPage (h : HeapOK heaps s file) (hfile : file.path ∈ s.disk.files)
    (hrows : Holds s file.path rows) {tuple : Tuple} {encoded : Bytes}
    (hencode : encodeTuple tuple = .ok encoded) (hlength : encoded.length + 22 ≤ pageSize)
    {pages : Nat} (hpages : pages = pagesOf s.disk.files file.path) (hsmall : pages < 4294967296) :
    ∃ id state, (do
        let page := toUInt32 pages
        let slot ← withPage page true (insertOnNewPage encoded)
        flush
        modifyFile ({ · with insertPageHint := some page, knownPageCount := some (pages + 1) })
        pure ⟨page, slot⟩ : HeapM RowId) ⟨s, file⟩ = .ok id state ∧ rows id = none ∧
      After heaps s file.path (Function.update rows id (some tuple)) state := by
  obtain ⟨s₁, hrun, hfree, hstep, hcount, hholds⟩ := newPage_spec h hfile hrows hencode hlength
  have hpage : toUInt32 pages = pagesOf s.disk.files file.path := by
    rw [toUInt32, Nat.mod_eq_of_lt hsmall, hpages]
  rw [hpage, EStateM.bind_of_ok hrun]
  refine ⟨_, _, rfl, hfree, hstep, ⟨hstep.ok, hstep.settled, h.heap, fun _ hknown ↦ ?_⟩, rfl, hholds⟩
  rw [← Option.some.inj hknown, hpages]
  exact hcount.symm

/-- Inserting a tuple that fits binds a row id that was free. -/
theorem insert_spec (h : HeapOK heaps s file) (hrows : Holds s file.path rows)
    (hsmall : pagesOf s.disk.files file.path < 4294967296) {tuple : Tuple} (hfits : Storable tuple) :
    ∃ id state, insert tuple ⟨s, file⟩ = .ok id state ∧ rows id = none ∧
      After heaps s file.path (Function.update rows id (some tuple)) state ∧
      file.path ∈ state.storage.disk.files := by
  obtain ⟨encoded, hencode, hlength⟩ := hfits
  have hpage : pageSize = 4096 := rfl
  obtain ⟨⟨s₀, file₀⟩, hcreate, hafter, hfile, hcount⟩ := create_spec h hrows
  obtain ⟨hstep, hok, hpath, hrows₀⟩ := hafter
  simp only at hfile hcount hstep hok hpath hrows₀
  rw [← hpath] at hrows hsmall hfile hcount hstep hrows₀ ⊢
  set n := pagesOf s₀.disk.files file₀.path with hn
  have hok₁ : HeapOK heaps s₀ (counted s₀ file₀) := counted_ok hok
  have hafter₁ : After heaps s file₀.path rows ⟨s₀, counted s₀ file₀⟩ := ⟨hstep, hok₁, rfl, hrows₀⟩
  set todo := List.range' (firstPage (counted s₀ file₀) n) (n - firstPage (counted s₀ file₀) n)
    with htodo
  -- After the file is created and counted, the row is tried on the pages of `todo`, and then on a new one.
  have hstart : insert tuple ⟨s, file⟩ = (insertOnPages encoded todo >>= fun found ↦
      match found with
      | some id => pure id
      | none => do
        let page := toUInt32 n
        let slot ← withPage page true (insertOnNewPage encoded)
        flush
        modifyFile ({ · with insertPageHint := some page, knownPageCount := some (n + 1) })
        pure ⟨page, slot⟩ : HeapM RowId) ⟨s₀, counted s₀ file₀⟩ := by
    rw [insert, EStateM.bind_of_ok hcreate]
    simp only [hencode, if_neg (show ¬encoded.length + 22 > pageSize by omega)]
    rw [EStateM.bind_of_ok (pageCount_spec hok)]
    rfl
  have hle := firstPage_le (counted s₀ file₀) n
  obtain ⟨found, ⟨s₂, file₂⟩, htry, hcount₂, hpost⟩ := insertOnPages_spec hok₁ hrows₀ hencode
    (by omega) (show ∀ page ∈ todo, page < n from fun page hmem ↦ by
      have hlt := (List.mem_range'_1.1 hmem).2
      omega)
  rw [EStateM.bind_of_ok htry] at hstart
  rw [hstart]
  cases found with
  | some id =>
    obtain ⟨hfree, hafter₂⟩ := hpost
    exact ⟨id, ⟨s₂, file₂⟩, rfl, hfree, hafter₁.trans hafter₂, hafter₂.step.stays hfile⟩
  | none =>
    have hpath₂ : file₂.path = file₀.path := hpost.path_eq
    have hholds₂ : Holds s₂ file₂.path rows := by
      rw [hpath₂]
      exact hpost.holds
    have hfile₂ : file₂.path ∈ s₂.disk.files := by
      rw [hpath₂]
      exact hpost.step.stays hfile
    have hcount₂' : n = pagesOf s₂.disk.files file₂.path := by
      rw [hpath₂]
      exact hcount₂.symm
    obtain ⟨id, state, hend, hfree, hafter₃⟩ := insert_newPage hpost.ok hfile₂ hholds₂ hencode hlength
      hcount₂' (hcount ▸ hsmall)
    rw [hpath₂] at hafter₃
    exact ⟨id, state, hend, hfree, (hafter₁.trans hpost).trans hafter₃,
      hafter₃.step.stays (hpath₂ ▸ hfile₂)⟩

/-- Inserting a tuple that does not fit leaves an empty file at most. -/
theorem insert_error (h : HeapOK heaps s file) (hrows : Holds s file.path rows) {tuple : Tuple}
    (hfits : ¬Storable tuple) :
    ∃ error state, insert tuple ⟨s, file⟩ = .error error state ∧ After heaps s file.path rows state ∧
      file.path ∈ state.storage.disk.files := by
  obtain ⟨state, hcreate, hafter, hfile, -⟩ := create_spec h hrows
  rw [insert, EStateM.bind_of_ok hcreate]
  cases hencode : encodeTuple tuple with
  | error error => exact ⟨error, state, rfl, hafter, hfile⟩
  | ok encoded =>
    have hlarge : encoded.length + 22 > pageSize :=
      Nat.lt_of_not_le fun hle ↦ hfits ⟨encoded, hencode, hle⟩
    refine ⟨lit "Tuple exceeds page size", state, ?_, hafter, hfile⟩
    simp only [if_pos hlarge]
    rfl

/-! ### Updating -/

/-- What `update` does when the row cannot be changed in place. -/
def move (id : RowId) (tuple : Tuple) : HeapM RowId := do
  if !(← erase id) then throw (lit "Row no longer exists")
  insert tuple

/-- The result of an update: the new tuple is in place of the old one, under the same row id or one that
was free; an update that fails touches no other row. -/
def Updated (heaps : Path → Prop) (s : Storage) (path : Path) (rows : HeapMap) (id : RowId)
    (tuple : Tuple) : EStateM.Result Error HeapState RowId → Prop
  | .ok new state => (rows id).isSome ∧ (new = id ∨ rows new = none) ∧
      After heaps s path (Function.update (Function.update rows id none) new (some tuple)) state
  | .error _ state => (rows id = none ∨ ¬Storable tuple) ∧
      (After heaps s path rows state ∨ After heaps s path (Function.update rows id none) state)

/-- An update after an operation that keeps the rows. -/
theorem Updated.of_after {id : RowId} {tuple : Tuple} {result : EStateM.Result Error HeapState RowId}
    (hafter : After heaps s path rows ⟨s', file⟩) (h : Updated heaps s' path rows id tuple result) :
    Updated heaps s path rows id tuple result := by
  cases result with
  | ok new state => exact ⟨h.1, h.2.1, hafter.trans h.2.2⟩
  | error error state => exact ⟨h.1, h.2.imp hafter.trans hafter.trans⟩

/-- Moving a row erases it and inserts the new one. -/
theorem move_spec (h : HeapOK heaps s file) (hrows : Holds s file.path rows)
    (hsmall : pagesOf s.disk.files file.path < 4294967296) (id : RowId) (tuple : Tuple) :
    Updated heaps s file.path rows id tuple (move id tuple ⟨s, file⟩) := by
  obtain ⟨⟨s₁, file₁⟩, herase, hafter, hcount⟩ := erase_spec h hrows id
  rw [move, EStateM.bind_of_ok herase]
  have hpath : file₁.path = file.path := hafter.path_eq
  have hholds : Holds s₁ file₁.path (Function.update rows id none) := by
    rw [hpath]
    exact hafter.holds
  cases hid : rows id with
  | none => exact ⟨.inl hid, .inr hafter⟩
  | some old =>
    show Updated _ _ _ _ _ _ (insert tuple ⟨s₁, file₁⟩)
    by_cases hfits : Storable tuple
    · obtain ⟨new, state, hinsert, hfree, hafter', -⟩ := insert_spec hafter.ok hholds
        (by rw [hpath]; exact hcount ▸ hsmall) hfits
      rw [hpath] at hafter'
      rw [hinsert]
      refine ⟨by rw [hid]; rfl, ?_, hafter.trans hafter'⟩
      by_cases hnew : new = id
      · exact .inl hnew
      · rw [Function.update_of_ne hnew] at hfree
        exact .inr hfree
    · obtain ⟨error, state, hinsert, hafter', -⟩ := insert_error hafter.ok hholds hfits
      rw [hpath] at hafter'
      rw [hinsert]
      exact ⟨.inr hfits, .inr (hafter.trans hafter')⟩

/-- Updating a row. -/
theorem update_spec (h : HeapOK heaps s file) (hrows : Holds s file.path rows)
    (hsmall : pagesOf s.disk.files file.path < 4294967296) (id : RowId) (tuple : Tuple) :
    Updated heaps s file.path rows id tuple (update id tuple ⟨s, file⟩) := by
  cases hencode : encodeTuple tuple with
  | error error =>
    have hrun : update id tuple ⟨s, file⟩ = .error error ⟨s, file⟩ := by
      simp only [update, hencode]
      rfl
    rw [hrun]
    refine ⟨.inr fun ⟨encoded, hok, _⟩ ↦ ?_, .inl (.refl h hrows)⟩
    rw [hencode] at hok
    cases hok
  | ok encoded =>
    have hok := counted_ok h
    by_cases hin : id.page < pagesOf s.disk.files file.path
    · obtain ⟨done, s', hrun, hstep, hdone⟩ :=
        h.ok.changePage ⟨file.path, id.page⟩ false (updateSlot id.slot encoded)
          (fun R done R' ↦ if done then (R id.slot).isSome ∧
              R' = Function.update R id.slot (some encoded) else R' = R)
          h.settled h.heap (exists_of_page hin) hin fun guard hguard _ ↦
            updateSlot_spec hguard id.slot encoded
      have hstart : update id tuple ⟨s, file⟩ = (if done then pure id else move id tuple : HeapM RowId)
          ⟨s', counted s file⟩ := by
        simp only [update, hencode]
        rw [EStateM.bind_of_ok (pageCount_spec h), if_pos hin]
        exact EStateM.bind_of_ok (withPage_of_ok hrun)
      rw [hstart]
      -- The row fits its slot, or the page is as it was and the row moves to another one.
      cases done with
      | true =>
        obtain ⟨hlive, hpage⟩ := hdone
        have hrow : (some encoded).map Except.ok = (some tuple).map encodeTuple :=
          congrArg some hencode.symm
        have hafter : After heaps s (counted s file).path (Function.update rows id (some tuple))
            ⟨s', counted s file⟩ := after_pageStep hok id hrows hstep hpage hrow
        refine ⟨?_, .inl rfl, ?_⟩
        · rw [Option.isSome_iff_ne_none, ne_eq, ← hrows.none_iff, ← ne_eq, ← Option.isSome_iff_ne_none]
          exact hlive
        · rw [Function.update_idem]
          exact hafter
      | false =>
        have hholds : Holds s' file.path rows := hrows.congr fun other ↦ by
          by_cases hother : other = id.page
          · rw [hother]
            exact hdone
          · exact hstep.rows _ fun heq ↦ hother (congrArg PageKey.page heq)
        have hafter : After heaps s file.path rows ⟨s', counted s file⟩ :=
          ⟨hstep.toHeapStep, hok.pageStep hstep, rfl, hholds⟩
        exact .of_after hafter (move_spec hafter.ok hholds ((hstep.pages _).symm ▸ hsmall) id tuple)
    -- A row id behind the pages of the file names no row, and `move` finds this out.
    · have hstart : update id tuple ⟨s, file⟩ = move id tuple ⟨s, counted s file⟩ := by
        simp only [update, hencode]
        rw [EStateM.bind_of_ok (pageCount_spec h), if_neg hin]
        rfl
      rw [hstart]
      exact move_spec hok hrows hsmall id tuple

/-! ### Files that do not exist -/

/-- Nothing is erased from a file that does not exist. -/
theorem erase_missing (h : HeapOK heaps s file) (hfile : file.path ∉ s.disk.files) (id : RowId) :
    erase id ⟨s, file⟩ = .ok false ⟨s, counted s file⟩ := by
  rw [erase, EStateM.bind_of_ok (pageCount_spec h), pagesOf_missing hfile, if_pos (Nat.zero_le _)]
  rfl

/-- An update in a file that does not exist fails. -/
theorem update_missing (h : HeapOK heaps s file) (hfile : file.path ∉ s.disk.files) (id : RowId)
    (tuple : Tuple) : ∃ error file', update id tuple ⟨s, file⟩ = .error error ⟨s, file'⟩ ∧
      (file' = file ∨ file' = counted s file) := by
  cases hencode : encodeTuple tuple with
  | error error =>
    refine ⟨error, file, ?_, .inl rfl⟩
    simp only [update, hencode]
    rfl
  | ok encoded =>
    refine ⟨lit "Row no longer exists", counted s file, ?_, .inr rfl⟩
    have herase := erase_missing (counted_ok h) hfile id
    simp only [update, hencode]
    rw [EStateM.bind_of_ok (pageCount_spec h), pagesOf_missing hfile, if_neg (Nat.not_lt_zero _)]
    exact EStateM.bind_of_ok herase

end HeapFile

end SkibidiQL
