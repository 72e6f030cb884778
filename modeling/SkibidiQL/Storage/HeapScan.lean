import SkibidiQL.Storage.HeapFileSpec

/-!
# Scans of heap files

A scan finds each row of the file once, in the order of the row ids (`IsScan`), decodes it, and hands the
rows out in batches.
-/

namespace SkibidiQL

open SlottedPage

/-- The order of row ids: by page, then by slot. -/
def RowId.Before (a b : RowId) : Prop :=
  a.page < b.page ∨ a.page = b.page ∧ a.slot < b.slot

/-- The rows on these pages in order. -/
structure RowsOf (rows : HeapMap) (pages : List Nat) (found : List StoredRow) : Prop where
  sorted : found.Pairwise fun a b ↦ a.id.Before b.id
  mem : ∀ row, row ∈ found ↔ row.id.page ∈ pages ∧ rows row.id = some row.values

/-- All rows of the file, each once, in order. -/
structure IsScan (rows : HeapMap) (found : List StoredRow) : Prop where
  sorted : found.Pairwise fun a b ↦ a.id.Before b.id
  mem : ∀ row, row ∈ found ↔ rows row.id = some row.values

variable {heaps : Path → Prop} {s s' : Storage} {rows : HeapMap} {file : HeapFile}

/-- The rows of a page and of later pages are the rows of all of them. -/
theorem RowsOf.append {page : Nat} {pages : List Nat} {found found' : List StoredRow}
    (h : RowsOf rows [page] found) (h' : RowsOf rows pages found') (hlt : ∀ other ∈ pages, page < other) :
    RowsOf rows (page :: pages) (found ++ found') where
  sorted := by
    refine List.pairwise_append.2 ⟨h.sorted, h'.sorted, fun a ha b hb ↦ .inl ?_⟩
    rw [List.mem_singleton.1 ((h.mem a).1 ha).1]
    exact hlt _ ((h'.mem b).1 hb).1
  mem row := by
    rw [List.mem_append, h.mem, h'.mem, ← or_and_right, List.mem_cons, List.mem_cons]
    simp only [List.not_mem_nil, or_false]

/-! ### Batches -/

/-- A row is added behind those of the batches. -/
theorem addToBatch_flatten (batchSize : Nat) (state : List (List StoredRow) × List StoredRow)
    (row : StoredRow) :
    (addToBatch batchSize state row).1.flatten ++ (addToBatch batchSize state row).2 =
      state.1.flatten ++ state.2 ++ [row] := by
  unfold addToBatch
  dsimp only
  split
  · rw [List.flatten_append, List.flatten_singleton, List.append_nil, List.append_assoc]
  · rw [List.append_assoc]

/-- The batches of a scan that have been handed out are full, and the next one is not. -/
structure BatchesOK (batchSize : Nat) (state : List (List StoredRow) × List StoredRow) : Prop where
  full : ∀ batch ∈ state.1, batch.length = batchSize
  rest : state.2.length < batchSize

/-- A further row keeps the batches in shape. -/
theorem BatchesOK.step {batchSize : Nat} {state : List (List StoredRow) × List StoredRow}
    (h : BatchesOK batchSize state) (row : StoredRow) :
    BatchesOK batchSize (addToBatch batchSize state row) := by
  have hrest := h.rest
  have hlength : (state.2 ++ [row]).length = state.2.length + 1 := List.length_append
  unfold addToBatch
  dsimp only
  split
  · rename_i hfull
    refine ⟨fun batch hbatch ↦ ?_, by rw [List.length_nil]; omega⟩
    rcases List.mem_append.1 hbatch with hmem | hmem
    · exact h.full batch hmem
    · rw [List.mem_singleton.1 hmem, hfull]
  · exact ⟨h.full, by dsimp only; omega⟩

/-- Adding several rows keeps the batches in shape. -/
theorem foldl_addToBatch {batchSize : Nat} (found : List StoredRow)
    {state : List (List StoredRow) × List StoredRow} (h : BatchesOK batchSize state) :
    BatchesOK batchSize (found.foldl (addToBatch batchSize) state) ∧
      (found.foldl (addToBatch batchSize) state).1.flatten ++
        (found.foldl (addToBatch batchSize) state).2 = state.1.flatten ++ state.2 ++ found := by
  induction found generalizing state with
  | nil => exact ⟨h, (List.append_nil _).symm⟩
  | cons row found ih =>
    obtain ⟨hok, hflatten⟩ := ih (h.step row)
    refine ⟨hok, ?_⟩
    rw [List.foldl_cons, hflatten, addToBatch_flatten, List.append_assoc, List.singleton_append]

/-- The batches are the rows in order; all but the last one are full, and none is empty. -/
theorem batches_spec {batchSize : Nat} (hpos : 0 < batchSize) (found : List StoredRow) :
    (batches batchSize found).flatten = found ∧
      (∀ batch ∈ batches batchSize found, batch ≠ []) ∧
      ∀ batch ∈ (batches batchSize found).dropLast, batch.length = batchSize := by
  have hinit : BatchesOK batchSize ([], []) := ⟨nofun, hpos⟩
  obtain ⟨hok, hflatten⟩ := foldl_addToBatch found hinit
  unfold batches
  set state := found.foldl (addToBatch batchSize) ([], []) with hstate
  have hfull : ∀ batch ∈ state.1, batch ≠ [] := by
    rintro batch hbatch rfl
    have := hok.full [] hbatch
    rw [List.length_nil] at this
    omega
  rw [List.flatten_nil, List.nil_append, List.nil_append] at hflatten
  show (if state.2.isEmpty then state.1 else state.1 ++ [state.2]).flatten = found ∧
    (∀ batch ∈ if state.2.isEmpty then state.1 else state.1 ++ [state.2], batch ≠ []) ∧
    ∀ batch ∈ (if state.2.isEmpty then state.1 else state.1 ++ [state.2]).dropLast, _
  split_ifs with hempty
  · rw [List.isEmpty_iff.1 hempty, List.append_nil] at hflatten
    exact ⟨hflatten, hfull, fun batch hbatch ↦ hok.full batch (List.mem_of_mem_dropLast hbatch)⟩
  · refine ⟨?_, fun batch hbatch ↦ ?_, fun batch hbatch ↦ ?_⟩
    · rw [List.flatten_append, List.flatten_singleton, hflatten]
    · rcases List.mem_append.1 hbatch with hmem | hmem
      · exact hfull batch hmem
      · rw [List.mem_singleton.1 hmem]
        exact fun hnil ↦ hempty (List.isEmpty_iff.2 hnil)
    · rw [List.dropLast_concat] at hbatch
      exact hok.full batch hbatch

/-! ### Decoding pages -/

namespace HeapFile

/-- A decoder of rows reads what `f` makes of the tuple. -/
def Decodes (decode : Bytes → Except Error Tuple) (f : Tuple → Except Error Tuple) : Prop :=
  ∀ tuple encoded, encodeTuple tuple = .ok encoded → encoded.length < 4294967296 →
    decode encoded = f tuple

/-- What a scan makes of a row. -/
def decodeRow (f : Tuple → Except Error Tuple) (row : StoredRow) : Except Error StoredRow := do
  pure ⟨row.id, ← f row.values⟩

/-- The rows in these slots of a page. -/
def rowsIn (rows : HeapMap) (page : Nat) (slots : List Nat) : List StoredRow :=
  slots.filterMap fun slot ↦ (rows ⟨page, slot⟩).map (StoredRow.mk ⟨page, slot⟩)

/-- The rows of a page's slots. -/
theorem mem_rowsIn {page : Nat} {slots : List Nat} {row : StoredRow} :
    row ∈ rowsIn rows page slots ↔
      row.id.page = page ∧ row.id.slot ∈ slots ∧ rows row.id = some row.values := by
  rw [rowsIn, List.mem_filterMap]
  constructor
  · rintro ⟨slot, hslot, hmap⟩
    obtain ⟨tuple, htuple, rfl⟩ := Option.map_eq_some_iff.1 hmap
    exact ⟨rfl, hslot, htuple⟩
  · rintro ⟨hpage, hslot, htuple⟩
    have hid : (⟨page, row.id.slot⟩ : RowId) = row.id := by
      rw [← hpage]
    exact ⟨row.id.slot, hslot, by rw [hid, htuple]; rfl⟩

/-- All slots of a page list its rows. -/
theorem rowsIn_rowsOf {page count : Nat} (hcount : ∀ slot, count ≤ slot → rows ⟨page, slot⟩ = none) :
    RowsOf rows [page] (rowsIn rows page (List.range count)) where
  sorted := by
    refine List.pairwise_filterMap.2 (List.pairwise_lt_range.imp fun {slot slot'} hlt row hrow row' hrow' ↦ ?_)
    obtain ⟨tuple, -, rfl⟩ := Option.map_eq_some_iff.1 hrow
    obtain ⟨tuple', -, rfl⟩ := Option.map_eq_some_iff.1 hrow'
    exact .inr ⟨rfl, hlt⟩
  mem row := by
    rw [mem_rowsIn, List.mem_singleton]
    refine and_congr_right fun hpage ↦ and_iff_right_of_imp fun hrow ↦ List.mem_range.2 ?_
    by_contra hge
    have hnone := hcount row.id.slot (Nat.le_of_not_lt hge)
    rw [← hpage] at hnone
    rw [hnone] at hrow
    cases hrow

/-- Decoding the slots of a page decodes its rows. -/
theorem filterMapM_eq {decode : Bytes → Except Error Tuple} {f : Tuple → Except Error Tuple}
    (hdecode : Decodes decode f) {bytes : PageBytes} (hbytes : PageOK bytes ∨ bytes = PageBytes.zero)
    {page : Nat} (hrows : ∀ slot, (rowAt bytes slot).map .ok = (rows ⟨page, slot⟩).map encodeTuple)
    (slots : List Nat) :
    slots.filterMapM (scanSlot decode page bytes) = (rowsIn rows page slots).mapM (decodeRow f) := by
  induction slots with
  | nil => rfl
  | cons slot slots ih =>
    rw [List.filterMapM_cons, ih, scanSlot, read_eq_rowAt hbytes]
    have hslot := hrows slot
    cases htuple : rows ⟨page, slot⟩ with
    | none =>
      rw [htuple, Option.map_none, Option.map_eq_none_iff] at hslot
      rw [hslot, rowsIn, rowsIn, List.filterMap_cons_none (by rw [htuple]; rfl)]
      rfl
    | some tuple =>
      rw [htuple] at hslot
      obtain ⟨row, hrow, hencode⟩ := Option.map_eq_some_iff.1 hslot
      have hread : decode row = f tuple :=
        hdecode tuple row hencode.symm (rowAt_length_lt hrow)
      rw [hrow, rowsIn, rowsIn, List.filterMap_cons_some (by rw [htuple]; rfl), List.mapM_cons]
      show (do
        let found ← (do
          let tuple ← decode row
          pure (some (StoredRow.mk ⟨page, slot⟩ tuple)))
        _) = _
      rw [hread]
      cases hf : f tuple with
      | error error => simp [decodeRow, hf, bind, Except.bind]
      | ok values => simp only [decodeRow, hf, bind, Except.bind, pure, Except.pure]

/-- A page is decoded to its rows, or fails with one of them. -/
theorem decodePage_eq {decode : Bytes → Except Error Tuple} {f : Tuple → Except Error Tuple}
    (hdecode : Decodes decode f) {guard : Guard}
    (hguard : PageOK guard.bytes ∨ guard.bytes = PageBytes.zero) {page : Nat}
    (hrows : ∀ slot, (rowAt guard.bytes slot).map .ok = (rows ⟨page, slot⟩).map encodeTuple) :
    ∃ found, RowsOf rows [page] found ∧
      decodePage decode page guard = EStateM.answer (found.mapM (decodeRow f)) guard := by
  have hcount : ∀ slot, slotCount guard.bytes ≤ slot → rows ⟨page, slot⟩ = none := by
    intro slot hslot
    have hrow := hrows slot
    rw [rowAt_of_ge hslot] at hrow
    exact Option.map_eq_none_iff.1 hrow.symm
  refine ⟨_, rowsIn_rowsOf hcount, ?_⟩
  have hrun := filterMapM_eq hdecode hguard hrows (List.range (slotCount guard.bytes))
  have hget : (get : GuardM Guard) guard = .ok guard guard := rfl
  rw [decodePage, EStateM.bind_of_ok hget]
  by_cases hvalid : SlottedPage.valid guard.bytes
  · rw [hvalid, Bool.not_true, if_neg Bool.false_ne_true]
    rw [hrun]
    cases List.mapM (decodeRow f) (rowsIn rows page (List.range (slotCount guard.bytes))) <;> rfl
  · have hzero : slotCount guard.bytes = 0 := by
      rw [slotCount, if_neg hvalid]
    rw [Bool.eq_false_iff.2 hvalid, Bool.not_false, if_pos rfl, hzero]
    rfl

/-! ### Scanning -/

/-- What fails in a first part fails. -/
theorem mapM_append_error {α β : Type} {f : α → Except Error β} {l l' : List α} {error : Error}
    (h : l.mapM f = .error error) : (l ++ l').mapM f = .error error := by
  rw [List.mapM_append, h]
  rfl

/-- The loop over the pages finds the rows of these pages. -/
theorem scanPages_spec (h : HeapOK heaps s file) (hrows : Holds s file.path rows)
    {decode : Bytes → Except Error Tuple} {f : Tuple → Except Error Tuple} (hdecode : Decodes decode f)
    {pages : List Nat} (hsorted : pages.Pairwise (· < ·))
    (hin : ∀ page ∈ pages, page < pagesOf s.disk.files file.path) :
    ∃ s' found, PoolStep heaps s s' ∧ RowsOf rows pages found ∧
      scanPages decode pages ⟨s, file⟩ = EStateM.answer (found.mapM (decodeRow f)) ⟨s', file⟩ := by
  induction pages generalizing s with
  | nil =>
    refine ⟨s, [], .refl h.ok, ⟨.nil, fun row ↦ ?_⟩, rfl⟩
    exact ⟨fun hmem ↦ absurd hmem List.not_mem_nil, fun hand ↦ absurd hand.1 List.not_mem_nil⟩
  | cons page pages ih =>
    obtain ⟨hlt, hsorted'⟩ := List.pairwise_cons.1 hsorted
    obtain ⟨s₁, result, hstep₁, hrun₁, found₁, hfound₁, hresult⟩ :=
      h.ok.viewPage ⟨file.path, page⟩ false (decodePage decode page)
        (fun result ↦ ∃ found, RowsOf rows [page] found ∧ result = found.mapM (decodeRow f))
        h.heap (exists_of_page (hin page List.mem_cons_self)) fun guard hguard hpage ↦ by
          have hrowsAt : ∀ slot, (rowAt guard.bytes slot).map .ok =
              (rows ⟨page, slot⟩).map encodeTuple := by
            intro slot
            rw [hpage]
            exact hrows ⟨page, slot⟩
          obtain ⟨found, hfound, hrun⟩ := decodePage_eq hdecode hguard hrowsAt
          exact ⟨_, hrun, found, hfound, rfl⟩
    subst hresult
    obtain ⟨s₂, found₂, hstep₂, hfound₂, hrun₂⟩ := ih (h.poolStep hstep₁) (hrows.poolStep hstep₁)
      hsorted' fun other hother ↦ by
        rw [(hstep₁.settled h.settled).2]
        exact hin other (List.mem_cons_of_mem _ hother)
    have hfound := hfound₁.append hfound₂ hlt
    have hpage := withPage_of_answer hrun₁
    -- The first row that fails to decode ends the scan, on whatever page it is.
    cases hdone₁ : found₁.mapM (decodeRow f) with
    | error error =>
      rw [hdone₁] at hpage
      refine ⟨s₁, found₁ ++ found₂, hstep₁, hfound, ?_⟩
      rw [mapM_append_error hdone₁, scanPages]
      exact EStateM.bind_of_error hpage
    | ok done₁ =>
      rw [hdone₁] at hpage
      refine ⟨s₂, found₁ ++ found₂, hstep₁.trans hstep₂, hfound, ?_⟩
      rw [List.mapM_append, hdone₁, scanPages, EStateM.bind_of_ok hpage]
      cases hdone₂ : found₂.mapM (decodeRow f) with
      | error error =>
        rw [hdone₂] at hrun₂
        exact EStateM.bind_of_error hrun₂
      | ok done₂ =>
        rw [hdone₂] at hrun₂
        exact EStateM.bind_of_ok hrun₂

/-- The loop over all pages finds all rows. -/
theorem scanAll_spec (h : HeapOK heaps s file) (hrows : Holds s file.path rows)
    {decode : Bytes → Except Error Tuple} {f : Tuple → Except Error Tuple} (hdecode : Decodes decode f) :
    ∃ state found, IsScan rows found ∧ PoolStep heaps s state.storage ∧
      After heaps s file.path rows state ∧
      (do
        let pages ← pageCount
        scanPages decode (List.range pages) : HeapM (List StoredRow)) ⟨s, file⟩ =
        EStateM.answer (found.mapM (decodeRow f)) state := by
  have hok := counted_ok h
  obtain ⟨s', found, hstep, hfound, hrun⟩ := scanPages_spec hok hrows hdecode List.pairwise_lt_range
    fun page hpage ↦ List.mem_range.1 hpage
  refine ⟨⟨s', counted s file⟩, found, ⟨hfound.sorted, fun row ↦ ?_⟩, hstep,
    ⟨hstep.toHeapStep h.settled _, hok.poolStep hstep, rfl, hrows.poolStep hstep⟩, ?_⟩
  · rw [hfound.mem]
    exact and_iff_right_of_imp fun hrow ↦ List.mem_range.2 (h.page_lt hrows hrow)
  · rw [EStateM.bind_of_ok (pageCount_spec h)]
    exact hrun

/-- Rows that decode are decoded. -/
theorem mapM_decodeRow_ok (found : List StoredRow) {f : Tuple → Except Error Tuple}
    {g : Tuple → Tuple} (hf : ∀ row ∈ found, f row.values = .ok (g row.values)) :
    found.mapM (decodeRow f) = .ok (found.map fun row ↦ ⟨row.id, g row.values⟩) := by
  induction found with
  | nil => rfl
  | cons row found ih =>
    rw [List.mapM_cons, ih fun other hother ↦ hf other (List.mem_cons_of_mem _ hother), decodeRow,
      hf row List.mem_cons_self]
    rfl

/-- A row that does not decode fails the scan, with the one error that rows fail with. -/
theorem mapM_decodeRow_error (found : List StoredRow) {f : Tuple → Except Error Tuple} (error : Error)
    (hf : ∀ row ∈ found, ∀ e, f row.values = .error e → e = error)
    (hbad : ∃ row ∈ found, ∃ e, f row.values = .error e) :
    found.mapM (decodeRow f) = .error error := by
  induction found with
  | nil => simp at hbad
  | cons row found ih =>
    rw [List.mapM_cons, decodeRow]
    cases hrow : f row.values with
    | error e =>
      rw [hf row List.mem_cons_self e hrow]
      rfl
    | ok values =>
      obtain ⟨bad, hmem, e, he⟩ := hbad
      have hne : bad ≠ row := by
        rintro rfl
        rw [hrow] at he
        cases he
      rw [ih (fun other hother ↦ hf other (List.mem_cons_of_mem _ hother))
        ⟨bad, List.mem_of_ne_of_mem hne hmem, e, he⟩]
      rfl

theorem decodes_tuple : Decodes decodeTuple .ok :=
  fun _ _ hencode hlength ↦ decodeTuple_encode hencode hlength

/-- What a projection makes of a tuple. -/
def projected (columns : List Nat) (tuple : Tuple) : Except Error Tuple :=
  if ∀ column ∈ columns, column < tuple.length then .ok (project columns tuple)
  else .error (lit "Invalid projected tuple columns")

/-- Ascending columns of the tuple are decoded. -/
theorem decodes_projected {columns : List Nat} (hsorted : sortedUnique columns) :
    Decodes (decodeTupleProjected · columns) (projected columns) := by
  intro tuple encoded hencode hlength
  unfold projected
  split
  · rename_i hrange
    exact decodeTupleProjected_encode hencode hlength hsorted hrange
  · rename_i hrange
    push Not at hrange
    obtain ⟨column, hmem, hge⟩ := hrange
    have hne : columns ≠ [] := List.ne_nil_of_mem hmem
    have hlast : column ≤ columns.getLast hne :=
      ((sortedUnique_iff.1 hsorted).imp Nat.le_of_lt).rel_getLast hmem
    exact decodeTupleProjected_error hencode (List.getLast?_eq_getLast_of_ne_nil hne)
      (Nat.le_trans hge hlast)

/-- A batch size with which a scan runs: it is positive, and a vector can hold so many rows. -/
def ValidBatch (batchSize : Nat) : Prop :=
  0 < batchSize ∧ batchSize ≤ maxStoredRows

instance (batchSize : Nat) : Decidable (ValidBatch batchSize) :=
  inferInstanceAs (Decidable (_ ∧ _))

theorem reserveRows_of_le {batchSize : Nat} (h : batchSize ≤ maxStoredRows) : reserveRows batchSize = pure () := by
  rw [reserveRows, if_neg (Nat.not_lt.2 h)]

theorem reserveRows_of_lt {batchSize : Nat} (h : maxStoredRows < batchSize) :
    reserveRows batchSize = throw (lit "vector::reserve") := by
  rw [reserveRows, if_pos h]

/-- A scan in batches is a scan of the pages, cut up. -/
theorem scanBatches_eq {batchSize : Nat} (hvalid : ValidBatch batchSize) :
    scanBatches batchSize = ((do
      let pages ← pageCount
      scanPages decodeTuple (List.range pages)) >>= fun found ↦
        pure (batches batchSize found) : HeapM _) := by
  rw [scanBatches, if_neg (Nat.ne_of_gt hvalid.1), reserveRows_of_le hvalid.2, bind_assoc]
  rfl

/-- A projected scan in batches is a scan of the pages, cut up. -/
theorem scanProjectedBatches_eq {columns : List Nat} (hsorted : sortedUnique columns) {batchSize : Nat}
    (hvalid : ValidBatch batchSize) :
    scanProjectedBatches columns batchSize = ((do
      let pages ← pageCount
      scanPages (decodeTupleProjected · columns) (List.range pages)) >>= fun found ↦
        pure (batches batchSize found) : HeapM _) := by
  rw [scanProjectedBatches, if_neg (Nat.ne_of_gt hvalid.1), hsorted, Bool.not_true,
    if_neg Bool.false_ne_true, reserveRows_of_le hvalid.2, bind_assoc]
  rfl

/-- A scan hands out all rows. -/
theorem scanBatches_spec (h : HeapOK heaps s file) (hrows : Holds s file.path rows) {batchSize : Nat}
    (hvalid : ValidBatch batchSize) :
    ∃ state found, IsScan rows found ∧ PoolStep heaps s state.storage ∧
      After heaps s file.path rows state ∧
      scanBatches batchSize ⟨s, file⟩ = .ok (batches batchSize found) state := by
  obtain ⟨state, found, hfound, hstep, hafter, hrun⟩ := scanAll_spec h hrows decodes_tuple
  refine ⟨state, found, hfound, hstep, hafter, ?_⟩
  have hsame : (found.map fun row ↦ ⟨row.id, id row.values⟩) = found := List.map_id found
  rw [mapM_decodeRow_ok (g := id) found fun _ _ ↦ rfl, hsame] at hrun
  rw [scanBatches_eq hvalid]
  exact EStateM.bind_of_ok hrun

/-- With any other batch size a scan throws before it looks at the file. -/
theorem scanBatches_invalid {batchSize : Nat} (hinvalid : ¬ValidBatch batchSize) (state : HeapState) :
    ∃ error, scanBatches batchSize state = .error error state := by
  by_cases hzero : batchSize = 0
  · exact ⟨_, by rw [scanBatches, if_pos hzero]; rfl⟩
  · have hlarge : maxStoredRows < batchSize := Nat.lt_of_not_le fun hle ↦ hinvalid ⟨Nat.pos_of_ne_zero hzero, hle⟩
    exact ⟨_, by rw [scanBatches, if_neg hzero, reserveRows_of_lt hlarge]; rfl⟩

/-- A scan of some columns throws with any other batch size, and with columns that are not sorted. -/
theorem scanProjectedBatches_invalid {columns : List Nat} {batchSize : Nat}
    (hinvalid : ¬(ValidBatch batchSize ∧ sortedUnique columns)) (state : HeapState) :
    ∃ error, scanProjectedBatches columns batchSize state = .error error state := by
  by_cases hzero : batchSize = 0
  · exact ⟨_, by rw [scanProjectedBatches, if_pos hzero]; rfl⟩
  rcases hsorted : sortedUnique columns with _ | _
  · exact ⟨_, by rw [scanProjectedBatches, if_neg hzero, hsorted]; rfl⟩
  · have hlarge : maxStoredRows < batchSize :=
      Nat.lt_of_not_le fun hle ↦ hinvalid ⟨⟨Nat.pos_of_ne_zero hzero, hle⟩, hsorted⟩
    exact ⟨_, by rw [scanProjectedBatches, if_neg hzero, hsorted, reserveRows_of_lt hlarge]; rfl⟩

/-- All columns are columns of all tuples of the file. -/
def ColumnsExist (rows : HeapMap) (columns : List Nat) : Prop :=
  ∀ id tuple, rows id = some tuple → ∀ column ∈ columns, column < tuple.length

/-- A scan of some columns hands out the projections of all rows, or throws when a tuple does not have the
columns. -/
theorem scanProjectedBatches_spec (h : HeapOK heaps s file) (hrows : Holds s file.path rows)
    {columns : List Nat} (hsorted : sortedUnique columns) {batchSize : Nat}
    (hvalid : ValidBatch batchSize) :
    ∃ state found, IsScan rows found ∧ After heaps s file.path rows state ∧
      (ColumnsExist rows columns → scanProjectedBatches columns batchSize ⟨s, file⟩ =
        .ok (batches batchSize (found.map fun row ↦ ⟨row.id, project columns row.values⟩)) state) ∧
      (¬ColumnsExist rows columns → scanProjectedBatches columns batchSize ⟨s, file⟩ =
        .error (lit "Invalid projected tuple columns") state) := by
  obtain ⟨state, found, hfound, -, hafter, hrun⟩ := scanAll_spec h hrows (decodes_projected hsorted)
  rw [scanProjectedBatches_eq hsorted hvalid]
  refine ⟨state, found, hfound, hafter, fun hexist ↦ ?_, fun hmissing ↦ ?_⟩
  · rw [mapM_decodeRow_ok (g := project columns) found fun row hrow ↦
      if_pos (hexist row.id row.values ((hfound.mem row).1 hrow))] at hrun
    exact EStateM.bind_of_ok hrun
  · rw [mapM_decodeRow_error found (lit "Invalid projected tuple columns")] at hrun
    · exact EStateM.bind_of_error hrun
    · intro row _ e he
      unfold projected at he
      split at he
      · cases he
      · exact (Except.error.inj he).symm
    · unfold ColumnsExist at hmissing
      push Not at hmissing
      obtain ⟨id, tuple, htuple, column, hcolumn, hge⟩ := hmissing
      refine ⟨⟨id, tuple⟩, (hfound.mem _).2 htuple, _, if_neg fun hall ↦ ?_⟩
      exact Nat.not_lt.2 hge (hall column hcolumn)

/-- The loop over the pages of a file that does not exist. -/
theorem scanAll_missing (h : HeapOK heaps s file) (hfile : file.path ∉ s.disk.files)
    (decode : Bytes → Except Error Tuple) :
    (do
      let pages ← pageCount
      scanPages decode (List.range pages) : HeapM (List StoredRow)) ⟨s, file⟩ =
      .ok [] ⟨s, counted s file⟩ := by
  rw [EStateM.bind_of_ok (pageCount_spec h), pagesOf_missing hfile]
  rfl

end HeapFile

end SkibidiQL
