import SkibidiQL.Storage.HeapFileSpec

/-!
# Where a heap file puts a row

`HeapFile::insert` looks at the last page of the file alone: the row goes to the lowest free slot of that
page if it has room for it (`insertPlace`), whoever had the slot before. An update that does not fit in
place goes where an insertion would go once the row is erased (`Moves`).
-/

namespace SkibidiQL

open SlottedPage

variable {heaps : Path → Prop} {s s' : Storage} {path : Path} {rows : HeapMap} {file file' : HeapFile}

/-- The row id that an insertion takes. -/
def insertPlace (s : Storage) (path : Path) (row : Bytes) : RowId :=
  let pages := pagesOf s.disk.files path
  let last := s.page ⟨path, pages - 1⟩
  if 0 < pages ∧ HasRoom last row then ⟨pages - 1, nextSlot last⟩ else ⟨pages, 0⟩

/-- The remembered page of the last insertion is the last page of the file. -/
def HintLast (state : HeapState) : Prop :=
  ∀ hint ∈ state.file.insertPageHint, hint + 1 = pagesOf state.storage.disk.files state.file.path

/-- The hint stays the last page where hint and pages are left. -/
theorem HintLast.congr {state state' : HeapState} (h : HintLast state) (hfile : state'.file.path = state.file.path)
    (hhint : state'.file.insertPageHint = state.file.insertPageHint)
    (hpages : pagesOf state'.storage.disk.files state.file.path =
      pagesOf state.storage.disk.files state.file.path) : HintLast state' := by
  intro hint hmem
  rw [hfile, hpages]
  exact h hint (hhint ▸ hmem)

namespace HeapFile

/-! ### Insertion -/

/-- Creating a file that exists does nothing. -/
theorem create_exists (hfile : file.path ∈ s.disk.files) : create ⟨s, file⟩ = .ok () ⟨s, file⟩ := by
  have hcontains : s.disk.contains file.path = true := Std.ExtTreeMap.contains_iff_mem.2 hfile
  simp only [create, fileExists, bind, EStateM.bind, get, getThe, MonadStateOf.get, EStateM.get, pure,
    EStateM.pure, hcontains, Bool.not_true, Bool.false_eq_true, if_false]

/-- With such a hint the search begins at the last page. -/
theorem firstPage_last (hhint : HintLast ⟨s, file⟩) (hsmall : pagesOf s.disk.files file.path < 4294967296) :
    firstPage file (pagesOf s.disk.files file.path) = pagesOf s.disk.files file.path - 1 := by
  have hlast : toUInt32 (pagesOf s.disk.files file.path - 1) = pagesOf s.disk.files file.path - 1 :=
    Nat.mod_eq_of_lt (by omega)
  unfold firstPage
  rw [hlast]
  cases hmem : file.insertPageHint with
  | none =>
    show (if _ then _ else _) = _
    split_ifs with hpos
    · rfl
    · omega
  | some hint =>
    have hpage : hint + 1 = pagesOf s.disk.files file.path := hhint hint hmem
    show (if _ then _ else _) = _
    rw [if_pos (by omega)]
    omega

/-- The attempt on the last page. -/
theorem insertOnPage_last (h : HeapOK heaps s file) (hrows : Holds s file.path rows) {encoded : Bytes}
    (hlength : encoded.length ≤ 65535) (hpos : 0 < pagesOf s.disk.files file.path) :
    ∃ s', Storage.withPage ⟨file.path, pagesOf s.disk.files file.path - 1⟩ false (insertOnPage encoded) s =
        .ok (if HasRoom (s.page ⟨file.path, pagesOf s.disk.files file.path - 1⟩) encoded then
          some (nextSlot (s.page ⟨file.path, pagesOf s.disk.files file.path - 1⟩)) else none) s' ∧
      PageStep heaps ⟨file.path, pagesOf s.disk.files file.path - 1⟩ s s' ∧
      (¬HasRoom (s.page ⟨file.path, pagesOf s.disk.files file.path - 1⟩) encoded →
        Holds s' file.path rows) := by
  set page := pagesOf s.disk.files file.path - 1 with hpage
  have hin : page < pagesOf s.disk.files file.path := by omega
  obtain ⟨slot, s', hrun, hstep, hslot, hsame⟩ :=
    h.ok.changePage ⟨file.path, page⟩ false (insertOnPage encoded)
      (fun R slot R' ↦ slot = (if HasRoom (s.page ⟨file.path, page⟩) encoded then
          some (nextSlot (s.page ⟨file.path, page⟩)) else none) ∧
        (¬HasRoom (s.page ⟨file.path, page⟩) encoded → R' = R))
      h.settled h.heap (exists_of_page hin) hin fun guard hguard hbytes ↦ by
        rw [← hbytes]
        by_cases hroom : HasRoom guard.bytes encoded
        · obtain ⟨q, hinsert, hplaced⟩ := hguard.insert_of_room hlength hroom
          refine ⟨some (nextSlot guard.bytes), ⟨q, true⟩, ?_, hplaced.ok,
            ⟨(if_pos hroom).symm, fun hfull ↦ absurd hroom hfull⟩, .inl rfl⟩
          rw [insertOnPage_eq hguard, hinsert]
          simp
        · obtain ⟨q, hinsert, hok, -, hkept⟩ := hguard.insert_of_full hlength hroom
          refine ⟨none, ⟨q, guard.dirty⟩, ?_, hok, ⟨(if_neg hroom).symm, fun _ ↦ hkept⟩, .inr ⟨rfl, hkept⟩⟩
          rw [insertOnPage_eq hguard, hinsert]
          simp
  refine ⟨s', hslot ▸ hrun, hstep, fun hfull ↦ hrows.congr fun other ↦ ?_⟩
  by_cases hother : other = page
  · rw [hother]
    exact hsame hfull
  · exact hstep.rows _ fun heq ↦ hother (congrArg PageKey.page heq)

/-- The end of an insertion when the last page had no room: the row starts a new page. -/
theorem insert_newPage_place (h : HeapOK heaps s file) (hfile : file.path ∈ s.disk.files)
    (hrows : Holds s file.path rows) {tuple : Tuple} {encoded : Bytes}
    (hencode : encodeTuple tuple = .ok encoded) (hlength : encoded.length + 22 ≤ pageSize)
    {pages : Nat} (hpages : pages = pagesOf s.disk.files file.path) (hsmall : pages < 4294967296) :
    ∃ state, (do
        let page := toUInt32 pages
        let slot ← withPage page true (insertOnNewPage encoded)
        flush
        modifyFile ({ · with insertPageHint := some page, knownPageCount := some (pages + 1) })
        pure ⟨page, slot⟩ : HeapM RowId) ⟨s, file⟩ = .ok ⟨pages, 0⟩ state ∧ HintLast state := by
  obtain ⟨s₁, hrun, -, -, hcount, -⟩ := newPage_spec h hfile hrows hencode hlength
  have hpage : toUInt32 pages = pagesOf s.disk.files file.path := by
    rw [toUInt32, Nat.mod_eq_of_lt hsmall, hpages]
  rw [hpage, EStateM.bind_of_ok hrun, hpages]
  exact ⟨_, rfl, fun hint hmem ↦ Option.some.inj hmem ▸ hcount.symm⟩

/-- An insertion into a table's file takes the row id that `insertPlace` tells. -/
theorem insert_place (h : HeapOK heaps s file) (hrows : Holds s file.path rows)
    (hfile : file.path ∈ s.disk.files) (hhint : HintLast ⟨s, file⟩)
    (hsmall : pagesOf s.disk.files file.path < 4294967296) {tuple : Tuple} {encoded : Bytes}
    (hencode : encodeTuple tuple = .ok encoded) (hlength : encoded.length + 22 ≤ pageSize) :
    ∃ state, insert tuple ⟨s, file⟩ = .ok (insertPlace s file.path encoded) state ∧ HintLast state := by
  have hpage : pageSize = 4096 := rfl
  have hok := counted_ok h
  set n := pagesOf s.disk.files file.path with hn
  have hfirst : firstPage (counted s file) n = n - 1 := firstPage_last hhint hsmall
  -- What follows the search for a page is kept as one continuation, the same with a page and without.
  obtain ⟨store, hstart, hfound, hnone⟩ : ∃ store : Option RowId → HeapM RowId,
      insert tuple ⟨s, file⟩ =
        (insertOnPages encoded (List.range' (n - 1) (n - (n - 1))) >>= store) ⟨s, counted s file⟩ ∧
      (∀ id, store (some id) = pure id) ∧
      store none = (do
        let page := toUInt32 n
        let slot ← withPage page true (insertOnNewPage encoded)
        flush
        modifyFile ({ · with insertPageHint := some page, knownPageCount := some (n + 1) })
        pure ⟨page, slot⟩) := by
    rw [insert, EStateM.bind_of_ok (create_exists hfile)]
    simp only [hencode, if_neg (show ¬encoded.length + 22 > pageSize by omega)]
    rw [EStateM.bind_of_ok (pageCount_spec h), ← hfirst]
    exact ⟨_, rfl, fun _ ↦ rfl, rfl⟩
  rw [hstart, insertPlace, ← hn]
  -- The hint makes the last page the only one tried; an empty file has none.
  by_cases hpos : 0 < n
  · have hrange : List.range' (n - 1) (n - (n - 1)) = [n - 1] := by
      rw [show n - (n - 1) = 1 by omega]
      rfl
    obtain ⟨s', hrun, hstep, hkept⟩ := insertOnPage_last h hrows (show encoded.length ≤ 65535 by omega) hpos
    have htry : insertOnPages encoded [n - 1] ⟨s, counted s file⟩ =
        ((if HasRoom (s.page ⟨file.path, n - 1⟩) encoded then
            some (nextSlot (s.page ⟨file.path, n - 1⟩)) else none).elim (pure none) fun slot ↦ do
          modifyFile ({ · with insertPageHint := some (n - 1) })
          pure (some ⟨n - 1, slot⟩) : HeapM (Option RowId)) ⟨s', counted s file⟩ := by
      have hpage : withPage (n - 1) false (insertOnPage encoded) ⟨s, counted s file⟩ =
          .ok _ ⟨s', counted s file⟩ := withPage_of_ok hrun
      rw [insertOnPages, EStateM.bind_of_ok hpage]
      split_ifs <;> rfl
    have hpages' : pagesOf s'.disk.files file.path = n := hstep.pages _
    rw [hrange]
    by_cases hroom : HasRoom (s.page ⟨file.path, n - 1⟩) encoded
    · rw [if_pos hroom] at htry
      rw [EStateM.bind_of_ok (htry.trans rfl), hfound, if_pos ⟨hpos, hroom⟩]
      refine ⟨_, rfl, fun hint hmem ↦ ?_⟩
      obtain rfl := Option.some.inj hmem
      show n - 1 + 1 = pagesOf s'.disk.files file.path
      omega
    · rw [if_neg hroom] at htry
      rw [EStateM.bind_of_ok (htry.trans rfl), hnone, if_neg fun hboth ↦ hroom hboth.2]
      exact insert_newPage_place (hok.pageStep hstep) ((hstep.mem _).2 hfile) (hkept hroom) hencode hlength
        hpages'.symm hsmall
  · obtain hzero : n = 0 := Nat.eq_zero_of_not_pos hpos
    have htry : insertOnPages encoded (List.range' (n - 1) (n - (n - 1))) ⟨s, counted s file⟩ =
        .ok none ⟨s, counted s file⟩ := by
      rw [hzero]
      rfl
    rw [EStateM.bind_of_ok htry, hnone, if_neg fun hboth ↦ hpos hboth.1]
    exact insert_newPage_place hok hfile hrows hencode hlength hn hsmall

/-- The page that took the row is the hint. -/
theorem insertOnPages_hint {encoded : Bytes} {pages : List Nat} {state state' : HeapState} {id : RowId}
    (h : insertOnPages encoded pages state = .ok (some id) state') :
    state'.file.insertPageHint = some id.page := by
  induction pages generalizing state with
  | nil => exact nomatch h
  | cons page pages ih =>
    obtain ⟨found, state₁, -, h⟩ := EStateM.exists_of_bind_eq_ok h
    rcases found with - | slot
    · exact ih h
    · obtain ⟨hid, rfl⟩ := EStateM.Result.ok.inj h
      obtain rfl := Option.some.inj hid
      rfl

/-- The page of the row that was inserted last is remembered. -/
theorem insert_hint {tuple : Tuple} {state state' : HeapState} {id : RowId}
    (h : insert tuple state = .ok id state') : state'.file.insertPageHint = some id.page := by
  rw [insert] at h
  obtain ⟨-, state₁, -, h⟩ := EStateM.exists_of_bind_eq_ok h
  rcases hencode : encodeTuple tuple with error | encoded
  · simp only [hencode] at h
    cases h
  · simp only [hencode] at h
    split at h
    next => cases h
    next =>
      obtain ⟨pages, state₂, -, h⟩ := EStateM.exists_of_bind_eq_ok h
      obtain ⟨state₃, _, -, h⟩ := EStateM.exists_of_bind_eq_ok h
      obtain ⟨found, state₄, hfound, h⟩ := EStateM.exists_of_bind_eq_ok h
      rcases found with - | found
      · -- no page had room: the row went to a new one
        obtain ⟨slot, state₅, -, h⟩ := EStateM.exists_of_bind_eq_ok h
        obtain ⟨-, state₆, -, h⟩ := EStateM.exists_of_bind_eq_ok h
        obtain ⟨_, state₇, hfile, h⟩ := EStateM.exists_of_bind_eq_ok h
        obtain ⟨rfl, rfl⟩ := EStateM.Result.ok.inj h
        obtain ⟨-, rfl⟩ := EStateM.Result.ok.inj hfile
        rfl
      · obtain ⟨rfl, rfl⟩ := EStateM.Result.ok.inj h
        exact insertOnPages_hint hfound

/-! ### A file in use -/

/-- A heap file object works on a file that exists and holds these rows. -/
structure InUse (heaps : Path → Prop) (path : Path) (rows : HeapMap) (state : HeapState) : Prop where
  ok : HeapOK heaps state.storage state.file
  path_eq : state.file.path = path
  holds : Holds state.storage path rows
  stored : path ∈ state.storage.disk.files
  hint : HintLast state

variable {state state' : HeapState}

/-- A file in use stays so under an operation that leaves the hint last. -/
theorem InUse.of_after (h : InUse heaps path rows state) {rows' : HeapMap}
    (hafter : After heaps state.storage path rows' state') (hhint : HintLast state') :
    InUse heaps path rows' state' :=
  ⟨hafter.ok, hafter.path_eq, hafter.holds, hafter.step.stays h.stored, hhint⟩

/-- Work of the pool between two operations. -/
theorem InUse.poolStep (h : InUse heaps path rows state) (hstep : PoolStep heaps state.storage s') :
    InUse heaps path rows { state with storage := s' } where
  ok := h.ok.poolStep hstep
  path_eq := h.path_eq
  holds := h.holds.poolStep hstep
  stored := (hstep.mem path).2 h.stored
  hint := h.hint.congr rfl rfl ((hstep.settled h.ok.settled).2 _)

/-- A row is inserted where `insertPlace` tells, under a row id that was free. -/
theorem InUse.insert (h : InUse heaps path rows state)
    (hsmall : pagesOf state.storage.disk.files path < 4294967296) {tuple : Tuple} {id : RowId}
    (hrun : HeapFile.insert tuple state = .ok id state') :
    ∃ encoded, encodeTuple tuple = .ok encoded ∧ id = insertPlace state.storage path encoded ∧
      rows id = none ∧ InUse heaps path (Function.update rows id (some tuple)) state' := by
  obtain ⟨hok, rfl, hholds, hstored, hhint⟩ := h
  obtain ⟨s, file⟩ := state
  by_cases hfits : Storable tuple
  · obtain ⟨_, _, hspec, hfree, hafter, -⟩ := insert_spec hok hholds hsmall hfits
    obtain ⟨encoded, hencode, hlength⟩ := hfits
    obtain ⟨_, hplace, hhint'⟩ := insert_place hok hholds hstored hhint hsmall hencode hlength
    rw [hrun] at hspec hplace
    obtain ⟨rfl, rfl⟩ := EStateM.Result.ok.inj hspec
    obtain ⟨hid, rfl⟩ := EStateM.Result.ok.inj hplace
    exact ⟨encoded, hencode, hid, hfree, .of_after ⟨hok, rfl, hholds, hstored, hhint⟩ hafter hhint'⟩
  · obtain ⟨_, _, herror, -, -⟩ := insert_error hok hholds hfits
    rw [hrun] at herror
    cases herror

/-- An insertion adds at most one page to the file. -/
theorem InUse.insert_pages (h : InUse heaps path rows state)
    (hsmall : pagesOf state.storage.disk.files path < 4294967296) {tuple : Tuple} {id : RowId}
    (hrun : HeapFile.insert tuple state = .ok id state') :
    pagesOf state'.storage.disk.files path ≤ pagesOf state.storage.disk.files path + 1 := by
  obtain ⟨encoded, -, hid, -, huse⟩ := h.insert hsmall hrun
  have hlast := huse.hint id.page (insert_hint hrun)
  rw [huse.path_eq] at hlast
  rw [← hlast, hid, insertPlace]
  split
  · exact Nat.add_le_add_right (Nat.sub_le _ _) 1
  · exact Nat.le_refl _

/-! ### Erasing -/

/-- Work on a page leaves what the file keeps in memory. -/
theorem withPage_file {α : Type} {page : Nat} {create : Bool} {use : GuardM α} {a : α}
    (h : withPage page create use state = .ok a state') : state'.file = state.file := by
  have hrun : onStorage (Storage.withPage ⟨state.file.path, page⟩ create use) state = .ok a state' := h
  rw [onStorage] at hrun
  split at hrun
  · obtain ⟨-, rfl⟩ := EStateM.Result.ok.inj hrun
    rfl
  · cases hrun

/-- A deletion leaves the hint. -/
theorem erase_hint (h : HeapOK heaps s file) {id : RowId} {done : Bool}
    (hrun : erase id ⟨s, file⟩ = .ok done state') :
    state'.file.insertPageHint = file.insertPageHint := by
  rw [erase, EStateM.bind_of_ok (pageCount_spec h)] at hrun
  split at hrun
  · exact congrArg (·.file.insertPageHint) (EStateM.Result.ok.inj hrun).2.symm
  · exact (congrArg HeapFile.insertPageHint (withPage_file hrun)).trans rfl

/-- A row is erased. -/
theorem InUse.erase (h : InUse heaps path rows state) {id : RowId} {done : Bool}
    (hrun : HeapFile.erase id state = .ok done state') :
    done = (rows id).isSome ∧ InUse heaps path (Function.update rows id none) state' ∧
      pagesOf state'.storage.disk.files path = pagesOf state.storage.disk.files path := by
  obtain ⟨hok, rfl, hholds, hstored, hhint⟩ := h
  obtain ⟨s, file⟩ := state
  obtain ⟨_, hspec, hafter, hpages⟩ := erase_spec hok hholds id
  rw [hrun] at hspec
  obtain ⟨rfl, rfl⟩ := EStateM.Result.ok.inj hspec
  exact ⟨rfl, .of_after ⟨hok, rfl, hholds, hstored, hhint⟩ hafter
    (hhint.congr hafter.path_eq (erase_hint hok hrun) hpages), hpages⟩

/-! ### Updates -/

/-- The attempt of `HeapFile::update` to write the row in place. -/
def updateInPlace (row : RowId) (encoded : Bytes) : HeapM Bool := do
  if row.page < (← pageCount) then withPage row.page false (updateSlot row.slot encoded)
  else pure false

/-- An update writes in place or moves the row. -/
theorem update_eq {row : RowId} {tuple : Tuple} {encoded : Bytes} (hencode : encodeTuple tuple = .ok encoded) :
    update row tuple = (do
      let inPlace ← updateInPlace row encoded
      if inPlace then pure row else move row tuple) := by
  simp only [update, hencode, updateInPlace, bind_assoc]
  congr 1
  funext pages
  split <;> rfl

/-- An update of a row reaches the insertion of its new version, in the second state. -/
def Moves (row : RowId) (tuple : Tuple) (state state' : HeapState) : Prop :=
  ∃ encoded before, encodeTuple tuple = .ok encoded ∧
    updateInPlace row encoded state = .ok false before ∧ erase row before = .ok true state'

/-- An update in place stores the row, or leaves it and says so. -/
theorem updateInPlace_spec (h : HeapOK heaps s file) (hrows : Holds s file.path rows) (row : RowId)
    {tuple : Tuple} {encoded : Bytes} (hencode : encodeTuple tuple = .ok encoded) :
    ∃ done s', updateInPlace row encoded ⟨s, file⟩ = .ok done ⟨s', counted s file⟩ ∧
      (done → (rows row).isSome) ∧
      pagesOf s'.disk.files file.path = pagesOf s.disk.files file.path ∧
      After heaps s file.path (if done then Function.update rows row (some tuple) else rows)
        ⟨s', counted s file⟩ := by
  have hok := counted_ok h
  by_cases hin : row.page < pagesOf s.disk.files file.path
  · obtain ⟨done, s', hrun, hstep, hdone⟩ :=
      h.ok.changePage ⟨file.path, row.page⟩ false (updateSlot row.slot encoded)
        (fun R done R' ↦ if done then (R row.slot).isSome ∧
            R' = Function.update R row.slot (some encoded) else R' = R)
        h.settled h.heap (exists_of_page hin) hin fun guard hguard _ ↦
          updateSlot_spec hguard row.slot encoded
    refine ⟨done, s', ?_, ?_, hstep.pages _, ?_⟩
    · rw [updateInPlace, EStateM.bind_of_ok (pageCount_spec h), if_pos hin]
      exact withPage_of_ok hrun
    · rintro rfl
      rw [Option.isSome_iff_ne_none, ne_eq, ← hrows.none_iff, ← ne_eq, ← Option.isSome_iff_ne_none]
      exact hdone.1
    -- The row fits its slot, or the page is as it was.
    · cases done with
      | true => exact after_pageStep hok row hrows hstep hdone.2 (congrArg some hencode.symm)
      | false =>
        refine ⟨hstep.toHeapStep, hok.pageStep hstep, rfl, hrows.congr fun other ↦ ?_⟩
        by_cases hother : other = row.page
        · rw [hother]
          exact hdone
        · exact hstep.rows _ fun heq ↦ hother (congrArg PageKey.page heq)
  · refine ⟨false, s, ?_, nofun, rfl, (PoolStep.refl h.ok).toHeapStep h.settled _, hok, rfl, hrows⟩
    rw [updateInPlace, EStateM.bind_of_ok (pageCount_spec h), if_neg hin]
    rfl

/-- A row is updated in place, or erased and inserted anew. -/
theorem InUse.update (h : InUse heaps path rows state)
    (hsmall : pagesOf state.storage.disk.files path < 4294967296) {id new : RowId} {tuple : Tuple}
    (hrun : HeapFile.update id tuple state = .ok new state') :
    (rows id).isSome ∧
      InUse heaps path (Function.update (Function.update rows id none) new (some tuple)) state' ∧
      (new = id ∨ rows new = none ∧ ∃ before encoded, Moves id tuple state before ∧
        before.file.path = path ∧ encodeTuple tuple = .ok encoded ∧
        new = insertPlace before.storage path encoded) := by
  obtain ⟨hok, rfl, hholds, hstored, hhint⟩ := h
  obtain ⟨s, file⟩ := state
  cases hencode : encodeTuple tuple with
  | error error =>
    simp only [HeapFile.update, hencode] at hrun
    cases hrun
  | ok encoded =>
    obtain ⟨done, s', htry, hlive, hpages, hafter⟩ := updateInPlace_spec hok hholds id hencode
    have huse : InUse heaps file.path (if done then Function.update rows id (some tuple) else rows)
        ⟨s', counted s file⟩ :=
      .of_after ⟨hok, rfl, hholds, hstored, hhint⟩ hafter (hhint.congr rfl rfl hpages)
    rw [update_eq hencode, EStateM.bind_of_ok htry] at hrun
    -- A row that outgrows its slot is erased first, so the place it leaves is free for the insertion.
    cases done with
    | true =>
      obtain ⟨rfl, rfl⟩ := EStateM.Result.ok.inj hrun
      refine ⟨hlive rfl, ?_, .inl rfl⟩
      rw [Function.update_idem]
      exact huse
    | false =>
      rw [if_neg Bool.false_ne_true] at huse
      obtain ⟨⟨s₁, file₁⟩, herase, -, -⟩ := erase_spec huse.ok huse.holds id
      obtain ⟨-, huse₁, hpages₁⟩ := huse.erase herase
      have hmove : move id tuple ⟨s', counted s file⟩ = .ok new state' := hrun
      rw [move, EStateM.bind_of_ok herase] at hmove
      cases hid : rows id with
      | none =>
        rw [hid] at hmove
        cases hmove
      | some old =>
        rw [hid] at hmove herase
        have hinsert : HeapFile.insert tuple ⟨s₁, file₁⟩ = .ok new state' := hmove
        obtain ⟨encoded', hencode', hplace, hfree, huse'⟩ := huse₁.insert (by
          rw [hpages₁, hpages]
          exact hsmall) hinsert
        refine ⟨rfl, huse', ?_⟩
        by_cases hnew : new = id
        · exact .inl hnew
        · refine .inr ⟨?_, ⟨s₁, file₁⟩, encoded', ⟨encoded, _, hencode, htry, herase⟩, huse₁.path_eq,
            hencode.symm.trans hencode', hplace⟩
          rwa [Function.update_of_ne hnew] at hfree

end HeapFile

end SkibidiQL
