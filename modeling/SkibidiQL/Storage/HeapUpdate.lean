import SkibidiQL.Storage.HeapPlacement
import SkibidiQL.Storage.HeapRefinement

/-!
# Updates that fail

`HeapFile::update` erases the row before `insert` looks at the size of its new version. An update that
throws leaves every row as it was (`HeapSession.Keeps`) unless the new tuple can be encoded and is larger
than a page (`update_keeps_iff`).
-/

namespace SkibidiQL

open SlottedPage

/-! ### Rows fit on a page -/

/-- The header and the directory entry of a row take 22 bytes of its page. -/
theorem SlottedPage.PageOK.row_fits {page : PageBytes} (h : PageOK page) {slot : Nat} {row : Bytes}
    (hrow : rowAt page slot = some row) : row.length + 22 ≤ pageSize := by
  obtain ⟨hslot, hflag, hlength, -⟩ := rowAt_eq_some h hrow
  have hrange := h.rows.range slot hslot hflag
  have hstart := h.start_eq
  have hle := h.start_le
  omega

variable {heaps : Path → Prop} {s : Storage}

/-- Pages of heap files are well-formed, or zeros. -/
theorem StorageOK.page_ok (h : StorageOK heaps s) {key : PageKey} (hheap : heaps key.file) :
    PageOK (s.page key) ∨ s.page key = PageBytes.zero := by
  by_cases hin : ∃ g ∈ s.pool.frames, g.key = key
  · obtain ⟨g, hg, rfl⟩ := hin
    rw [page_of_mem h.nodup hg]
    have hframe := h.frames g hg
    by_cases hdirty : g.dirty
    · exact .inl (hframe.dirty_ok hdirty).1
    · rcases Nat.lt_or_ge g.key.page (pagesOf s.disk.files g.key.file) with hlt | hge
      · exact .inl (hframe.clean_in hdirty hlt).1
      · exact .inr (hframe.clean_out hdirty hge)
  · rw [page_of_not_mem fun g hg hkey ↦ hin ⟨g, hg, hkey⟩]
    rcases Nat.lt_or_ge key.page (pagesOf s.disk.files key.file) with hlt | hge
    · exact .inl (h.files.pages key hheap hlt)
    · exact .inr (diskPage_beyond (h.files.size _ hheap) hge)

/-- A stored row fits a page. -/
theorem StorageOK.row_fits (h : StorageOK heaps s) {path : Path} (hheap : heaps path) {id : RowId}
    {row : Bytes} (hrow : s.rowsAt path id = some row) : row.length + 22 ≤ pageSize := by
  have hkey : heaps (PageKey.mk path id.page).file := hheap
  rcases h.page_ok hkey with hpage | hzero
  · exact hpage.row_fits hrow
  · rw [Storage.rowsAt, hzero, rowAt_zero] at hrow
    cases hrow

/-- What a heap file holds can be stored. -/
theorem HeapOK.storable {file : HeapFile} {rows : HeapMap} (h : HeapOK heaps s file)
    (hrows : Holds s file.path rows) {id : RowId} {tuple : Tuple} (hid : rows id = some tuple) :
    HeapFile.Storable tuple := by
  obtain ⟨row, hrow, hencode, -⟩ := hrows.some_iff hid
  exact ⟨row, hencode, h.ok.row_fits h.heap hrow⟩

namespace HeapFile

/-- The tuple can be encoded, and its encoding does not fit on a page. -/
def Oversized (tuple : Tuple) : Prop :=
  ∃ encoded, encodeTuple tuple = .ok encoded ∧ pageSize < encoded.length + 22

/-- What is oversized cannot be stored. -/
theorem Oversized.not_storable {tuple : Tuple} (h : Oversized tuple) : ¬Storable tuple := by
  rintro ⟨encoded', hencode', hle⟩
  obtain ⟨encoded, hencode, hlt⟩ := h
  obtain rfl := Except.ok.inj (hencode.symm.trans hencode')
  exact absurd hle (Nat.not_le.2 hlt)

variable {file : HeapFile} {rows : HeapMap}

/-- The new version of a row is too large for a page: the row is erased, and then the insertion throws. -/
theorem update_oversized (h : HeapOK heaps s file) (hrows : Holds s file.path rows) {id : RowId}
    (hlive : (rows id).isSome) {tuple : Tuple} (hlarge : Oversized tuple) :
    ∃ error state, update id tuple ⟨s, file⟩ = .error error state ∧
      After heaps s file.path (Function.update rows id none) state := by
  have hfits := hlarge.not_storable
  obtain ⟨encoded, hencode, -⟩ := hlarge
  obtain ⟨done, s₁, htry, -, -, hafter⟩ := updateInPlace_spec h hrows id hencode
  rcases done with _ | _
  · rw [if_neg Bool.false_ne_true] at hafter
    obtain ⟨⟨s₂, file₂⟩, herase, hafter₂, -⟩ := erase_spec hafter.ok hafter.holds id
    have hpath₂ : file₂.path = file.path := hafter₂.path_eq
    obtain ⟨error, state, hinsert, hafter₃, -⟩ := insert_error hafter₂.ok (hpath₂ ▸ hafter₂.holds) hfits
    refine ⟨error, state, ?_, (hafter.trans hafter₂).trans (hpath₂ ▸ hafter₃)⟩
    rw [show (rows id).isSome = true from hlive] at herase
    have hmove : move id tuple ⟨s₁, counted s file⟩ = .error error state :=
      (EStateM.bind_of_ok herase).trans hinsert
    rw [update_eq hencode, EStateM.bind_of_ok htry]
    exact hmove
  · -- a row that was changed in place would be larger than its page
    rw [if_pos rfl] at hafter
    exact absurd (hafter.ok.storable hafter.holds (Function.update_self id (some tuple) rows)) hfits

/-- A tuple that cannot be encoded is refused before anything is read. -/
theorem update_of_not_encoded {id : RowId} {tuple : Tuple} {error : Error}
    (hencode : encodeTuple tuple = .error error) (state : HeapState) :
    update id tuple state = .error error state := by
  simp only [update, hencode]
  rfl

end HeapFile

/-! ### Updates of reachable heap files -/

namespace HeapSession

/-- The session after a sequence of operations. -/
def reached (session : HeapSession) : List HeapOp → HeapSession
  | [] => session
  | op :: ops => (session.step op).2.reached ops

/-- What reading a row id of a file returns. -/
def reading (session : HeapSession) (path : Path) (id : RowId) : Except Error Outcome :=
  (session.step (.read path id)).1

/-- If the update throws, then every row id of the file reads as before. -/
def Keeps (session : HeapSession) (path : Path) (id : RowId) (tuple : Tuple) : Prop :=
  ∀ error, (session.step (.update path id tuple)).1 = .error error →
    ∀ other, (session.step (.update path id tuple)).2.reading path other = session.reading path other

/-- The files of a run with one operation more are small. -/
theorem smallFiles_append {session : HeapSession} {ops : List HeapOp} {op : HeapOp} :
    session.SmallFiles (ops ++ [op]) ↔ session.SmallFiles ops ∧
      ∀ path, pagesOf (session.reached ops).storage.disk.files path < 4294967296 := by
  induction ops generalizing session with
  | nil => exact ⟨fun h ↦ ⟨trivial, h.1⟩, fun h ↦ ⟨h.2, trivial⟩⟩
  | cons first ops ih =>
    show _ ∧ SmallFiles _ (ops ++ [op]) ↔ (_ ∧ SmallFiles _ ops) ∧ _
    rw [ih, and_assoc]
    rfl

end HeapSession

namespace Represents

variable {session : HeapSession} {m : HeapMaps} {path : Path} {id : RowId}

/-- Every reachable session holds maps. -/
theorem reached (h : Represents session m) {ops : List HeapOp} (hsmall : session.SmallFiles ops) :
    ∃ m', Represents (session.reached ops) m' := by
  induction ops generalizing session m with
  | nil => exact ⟨m, h⟩
  | cons op ops ih =>
    obtain ⟨m', -, hnext⟩ := simulates_step h hsmall.1 op
    exact ih hnext hsmall.2

/-- An insertion adds no page to another file. -/
theorem insert_pages (h : Represents session m) (hsmall : pagesOf session.storage.disk.files path < 4294967296)
    (tuple : Tuple) {other : Path} (hother : other ≠ path) :
    pagesOf (session.step (.insert path tuple)).2.storage.disk.files other =
      pagesOf session.storage.disk.files other := by
  have hok := h.heapOK path
  have hpath := h.path_eq path
  rw [← hpath] at hsmall hother
  by_cases hfits : HeapFile.Storable tuple
  · obtain ⟨new, state, hrun, -, hafter, -⟩ := HeapFile.insert_spec hok (h.holds_file path) hsmall hfits
    rw [HeapSession.step, HeapSession.onFile_of_ok hrun]
    exact hafter.step.pages other hother
  · obtain ⟨error, state, hrun, hafter, -⟩ := HeapFile.insert_error hok (h.holds_file path) hfits
    rw [HeapSession.step, HeapSession.onFile_of_error hrun]
    exact hafter.step.pages other hother

/-- Reading a place finds its row. -/
theorem reading_eq (h : Represents session m) {rows : HeapMap} (hrows : m path = some rows) (id : RowId) :
    session.reading path id = .ok (.found ((rows id).map (⟨id, ·⟩))) := by
  obtain ⟨_, ⟨rfl, hread⟩, -⟩ := simulates_read h path id
  rw [hrows] at hread
  exact hread

/-- A row that reads is a row of its map. -/
theorem live_of_reading (h : Represents session m) {row : StoredRow}
    (hread : session.reading path id = .ok (.found (some row))) :
    ∃ rows, m path = some rows ∧ (rows id).isSome := by
  cases hrows : m path with
  | none =>
    obtain ⟨_, ⟨rfl, hnone⟩, -⟩ := simulates_read h path id
    rw [hrows] at hnone
    obtain ⟨error, herror⟩ := hnone
    rw [HeapSession.reading, herror] at hread
    cases hread
  | some rows =>
    refine ⟨rows, rfl, ?_⟩
    rw [h.reading_eq hrows] at hread
    obtain ⟨tuple, htuple, -⟩ := Option.map_eq_some_iff.1 (Outcome.found.inj (Except.ok.inj hread))
    rw [htuple]
    rfl

/-- The update of a live row with a tuple larger than a page throws, and the row is gone. -/
theorem update_loses (h : Represents session m) {rows : HeapMap} (hrows : m path = some rows)
    (hlive : (rows id).isSome) {tuple : Tuple} (hlarge : HeapFile.Oversized tuple) :
    (∃ error, (session.step (.update path id tuple)).1 = .error error) ∧
      (session.step (.update path id tuple)).2.reading path id = .ok (.found none) := by
  have hfile : path ∈ session.storage.disk.files := (h.exist path).1 (by rw [hrows]; rfl)
  have hmap : m.rows path = rows := by rw [HeapMaps.rows, hrows, Option.getD_some]
  obtain ⟨error, state, hrun, hafter⟩ :=
    HeapFile.update_oversized (h.heapOK path) (h.holds_file path) (hmap.symm ▸ hlive) hlarge
  rw [h.path_eq, hmap] at hafter
  have hnext := h.after hafter (hafter.step.stays hfile)
  have hput : m.put path (Function.update rows id none) path = some (Function.update rows id none) :=
    Function.update_self _ _ _
  have hstep : session.step (.update path id tuple) =
      (.error error, ⟨state.storage, Function.update session.files path state.file⟩) :=
    HeapSession.onFile_of_error hrun
  rw [hstep]
  refine ⟨⟨error, rfl⟩, ?_⟩
  rw [hnext.reading_eq hput, Function.update_self]
  rfl

/-- The update of a live row throws without an effect, or for a tuple larger than a page. -/
theorem update_throws (h : Represents session m) {rows : HeapMap} (hrows : m path = some rows)
    (hlive : (rows id).isSome) (hsmall : pagesOf session.storage.disk.files path < 4294967296)
    {tuple : Tuple} {error : Error} (hthrows : (session.step (.update path id tuple)).1 = .error error) :
    (session.step (.update path id tuple)).2 = session ∨ HeapFile.Oversized tuple := by
  have hmap : m.rows path = rows := by rw [HeapMaps.rows, hrows, Option.getD_some]
  cases hencode : HeapFile.encodeTuple tuple with
  | error error' =>
    have hstep : session.step (.update path id tuple) = (.error error',
        ⟨session.storage, Function.update session.files path (session.files path)⟩) :=
      HeapSession.onFile_of_error (HeapFile.update_of_not_encoded hencode _)
    rw [hstep, Function.update_eq_self]
    exact .inl rfl
  | ok encoded =>
    refine .inr ⟨encoded, hencode, Nat.lt_of_not_le fun hle ↦ ?_⟩
    obtain ⟨m', ⟨new, hnew, -⟩ | ⟨-, hwhy, -⟩, -⟩ := simulates_update h path id tuple hsmall
    · rw [hnew] at hthrows
      cases hthrows
    · rcases hwhy with hdead | hfits
      · rw [hmap] at hdead
        rw [hdead] at hlive
        cases hlive
      · exact hfits ⟨encoded, hencode, hle⟩

/-- An update of a live row is kept when the row is not oversized. -/
theorem keeps_iff (h : Represents session m) {rows : HeapMap} (hrows : m path = some rows)
    (hlive : (rows id).isSome) (hsmall : pagesOf session.storage.disk.files path < 4294967296)
    (tuple : Tuple) : session.Keeps path id tuple ↔ ¬HeapFile.Oversized tuple := by
  constructor
  · intro hkeeps hlarge
    obtain ⟨⟨error, hthrows⟩, hgone⟩ := h.update_loses hrows hlive hlarge
    have hsame := hkeeps error hthrows id
    rw [hgone, h.reading_eq hrows] at hsame
    obtain ⟨old, hold⟩ := Option.isSome_iff_exists.1 hlive
    rw [hold] at hsame
    cases hsame
  · intro hfits error hthrows other
    rw [(h.update_throws hrows hlive hsmall hthrows).resolve_right hfits]

end Represents

/-- In every reachable session, an update of a live row that throws keeps all rows, unless the new tuple is
larger than a page. -/
theorem update_keeps_iff (root : Bytes) (capacityPages : Nat) (iteration : IterationOrder)
    (ops : List HeapOp) (path : Path) (id : RowId) (tuple : Tuple) (row : StoredRow)
    (hsmall : (HeapSession.new root capacityPages iteration).SmallFiles (ops ++ [.update path id tuple]))
    (hlive : ((HeapSession.new root capacityPages iteration).reached ops).reading path id =
      .ok (.found (some row))) :
    ((HeapSession.new root capacityPages iteration).reached ops).Keeps path id tuple ↔
      ¬HeapFile.Oversized tuple := by
  obtain ⟨hops, hlast⟩ := HeapSession.smallFiles_append.1 hsmall
  obtain ⟨m, h⟩ := (represents_new root capacityPages iteration).reached hops
  obtain ⟨rows, hrows, hid⟩ := h.live_of_reading hlive
  exact h.keeps_iff hrows hid (hlast path) tuple

/-- A heap file with one row. -/
def oneHeapRow : List HeapOp :=
  [.insert (lit "a") [.integer 7]]

/-- A heap of one row is small. -/
theorem oneHeapRow_smallFiles (id : RowId) (tuple : Tuple) :
    oneFrame.SmallFiles (oneHeapRow ++ [.update (lit "a") id tuple]) := by
  refine ⟨pagesOf_empty_lt, fun path ↦ ?_, trivial⟩
  have hnew : Represents oneFrame fun _ ↦ none := represents_new _ _ _
  by_cases hpath : path = lit "a"
  · subst hpath
    decide +kernel
  · rw [hnew.insert_pages (pagesOf_empty_lt _) _ hpath]
    exact pagesOf_empty_lt path

theorem update_keeps_iff_oneHeapRow :
    (oneFrame.reached oneHeapRow).Keeps (lit "a") ⟨0, 0⟩ [.null] ↔ ¬HeapFile.Oversized [.null] :=
  update_keeps_iff (lit "/db") 1 ⟨id, fun _ ↦ .rfl⟩ oneHeapRow (lit "a") ⟨0, 0⟩ [.null] ⟨⟨0, 0⟩, [.integer 7]⟩
    (oneHeapRow_smallFiles _ _) (by decide +kernel)

/-- A row is lost when its update to a text of 4096 letters throws. -/
theorem update_not_keeps :
    ¬∀ (root : Bytes) (capacityPages : Nat) (iteration : IterationOrder) (ops : List HeapOp) (path : Path)
      (id : RowId) (tuple : Tuple) (row : StoredRow),
      (HeapSession.new root capacityPages iteration).SmallFiles (ops ++ [.update path id tuple]) →
      ((HeapSession.new root capacityPages iteration).reached ops).reading path id =
        .ok (.found (some row)) →
      ((HeapSession.new root capacityPages iteration).reached ops).Keeps path id tuple := by
  intro h
  have hkeeps : (oneFrame.reached oneHeapRow).Keeps (lit "a") ⟨0, 0⟩ [.text (List.replicate 4096 97)] :=
    h (lit "/db") 1 ⟨id, fun _ ↦ .rfl⟩ oneHeapRow (lit "a") ⟨0, 0⟩ _ ⟨⟨0, 0⟩, [.integer 7]⟩
      (oneHeapRow_smallFiles _ _) (by decide +kernel)
  have hsame := hkeeps (lit "Tuple exceeds page size") (by decide +kernel) ⟨0, 0⟩
  exact absurd hsame (by decide +kernel)

end SkibidiQL
