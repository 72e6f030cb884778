import SkibidiQL.Dataset.RowChanges
import SkibidiQL.Dataset.SnapshotRows
import SkibidiQL.Storage.FileGrowth

/-!
# UPDATE and DELETE change sets of rows

The loops of UPDATE and DELETE work through the rows of one scan while the heap changes under them. What
carries them is a listing of the heap (`Lists`): the new versions of the rows that are done, wherever they
are now, followed by the scanned rows that are still to come, which nobody has touched. A row that moves
takes a row id that the listing does not have.
-/

namespace SkibidiQL

open HeapFile Bytes

/-! ### Listings of a heap -/

/-- The list has all rows of the heap, each once. -/
structure Lists (rows : HeapMap) (listed : List StoredRow) : Prop where
  nodup : (listed.map (·.id)).Nodup
  mem : ∀ row, row ∈ listed ↔ rows row.id = some row.values

section Lists

variable {rows : HeapMap} {row : StoredRow} {listed listed' : List StoredRow}

/-- A scan lists the rows. -/
theorem IsScan.lists (h : IsScan rows listed) : Lists rows listed where
  nodup := by
    refine List.pairwise_map.2 (h.sorted.imp fun {a b} hbefore heq ↦ ?_)
    rcases hbefore with hpage | ⟨-, hslot⟩
    · exact Nat.ne_of_lt hpage (congrArg RowId.page heq)
    · exact Nat.ne_of_lt hslot (congrArg RowId.slot heq)
  mem := h.mem

theorem Lists.of_perm (h : Lists rows listed) (hperm : listed.Perm listed') : Lists rows listed' where
  nodup := (hperm.map _).nodup_iff.1 h.nodup
  mem row := hperm.mem_iff.symm.trans (h.mem row)

/-- Two listings of a heap have the same rows. -/
theorem Lists.perm (h : Lists rows listed) (h' : Lists rows listed') : listed.Perm listed' :=
  (List.perm_ext_iff_of_nodup (List.Nodup.of_map _ h.nodup) (List.Nodup.of_map _ h'.nodup)).2 fun row ↦
    (h.mem row).trans (h'.mem row).symm

/-- The rows but for one that is erased are listed without it. -/
theorem Lists.erase (h : Lists rows (row :: listed)) :
    Lists (Function.update rows row.id none) listed := by
  obtain ⟨hnotin, hnodup⟩ := List.nodup_cons.1 h.nodup
  refine ⟨hnodup, fun other ↦ ?_⟩
  by_cases hid : other.id = row.id
  · rw [hid, Function.update_self]
    exact ⟨fun hmem ↦ absurd (List.mem_map.2 ⟨other, hmem, hid⟩) hnotin, nofun⟩
  · rw [Function.update_of_ne hid, ← h.mem, List.mem_cons]
    exact (or_iff_right fun heq ↦ hid (congrArg StoredRow.id heq)).symm

/-- A row that is inserted in a free place is listed with the others. -/
theorem Lists.insert (h : Lists rows listed) {id : RowId} (hfree : rows id = none) (tuple : Tuple) :
    Lists (Function.update rows id (some tuple)) (⟨id, tuple⟩ :: listed) := by
  refine ⟨List.nodup_cons.2 ⟨fun hmem ↦ ?_, h.nodup⟩, fun other ↦ ?_⟩
  · obtain ⟨other, hother, hid⟩ := List.mem_map.1 hmem
    have hsome := (h.mem other).1 hother
    rw [hid, hfree] at hsome
    cases hsome
  · rw [List.mem_cons]
    by_cases hid : other.id = id
    · subst hid
      have hnotin : other ∉ listed := fun hmem ↦ by
        have hsome := (h.mem other).1 hmem
        rw [hfree] at hsome
        cases hsome
      rw [Function.update_self, or_iff_left hnotin, Option.some.injEq]
      exact ⟨fun heq ↦ (congrArg StoredRow.values heq).symm, fun heq ↦ by rw [heq]⟩
    · rw [Function.update_of_ne hid, ← h.mem]
      exact or_iff_right fun heq ↦ hid (congrArg StoredRow.id heq)

/-- A row of the listing is replaced, under its own row id or one that is free. -/
theorem Lists.replace {before after : List StoredRow} (h : Lists rows (before ++ row :: after)) {new : RowId}
    (hnew : new = row.id ∨ rows new = none) (tuple : Tuple) :
    Lists (Function.update (Function.update rows row.id none) new (some tuple))
      (before ++ [⟨new, tuple⟩] ++ after) := by
  have hfree : Function.update rows row.id none new = none := by
    rcases hnew with rfl | hnone
    · rw [Function.update_self]
    · by_cases hid : new = row.id
      · rw [hid, Function.update_self]
      · rwa [Function.update_of_ne hid]
  have hrest := (h.of_perm List.perm_middle).erase
  rw [List.append_assoc, List.singleton_append]
  exact (hrest.insert hfree tuple).of_perm List.perm_middle.symm

end Lists

/-! ### The loops -/

/-- The row that an event is about, as the statement found it. -/
def RowEvent.row : RowEvent → RowId
  | .inserted id | .erased id => id
  | .updated old _ => old

/-- Work on the heap file has led to a state with these rows, and changed no other file. -/
structure Leads (heaps : Path → Prop) (path : Path) (state state' : HeapState) (listed : List StoredRow) :
    Prop where
  rows : ∃ rows, InUse heaps path rows state' ∧ Lists rows listed
  step : HeapStep heaps path state.storage state'.storage

section Loops

variable {heaps : Path → Prop} {path : Path} {rows : HeapMap} {state state' state'' : HeapState}
  {events : List RowEvent}

theorem HeapFile.InUse.refl (h : InUse heaps path rows state) :
    HeapStep heaps path state.storage state.storage :=
  (PoolStep.refl h.ok.ok).toHeapStep h.ok.settled path

/-- Reading is a step of the heap. -/
theorem HeapFile.InUse.readOnly_step (h : InUse heaps path rows state) {α : Type} {work : ReadOnly heaps α}
    {a : α} (hrun : onStorage work.1 state = .ok a state') :
    HeapStep heaps path state.storage state'.storage := by
  obtain ⟨s', hwork, rfl⟩ := onStorage_of_ok hrun
  exact (work.2.ok hwork h.ok.ok).toHeapStep h.ok.settled path

/-- An update is a step of the heap. -/
theorem HeapFile.InUse.update_step (h : InUse heaps path rows state)
    (hsmall : pagesOf state.storage.disk.files path < 4294967296) {id new : RowId} {tuple : Tuple}
    (hrun : HeapFile.update id tuple state = .ok new state') :
    HeapStep heaps path state.storage state'.storage := by
  obtain ⟨hok, rfl, hholds, -, -⟩ := h
  obtain ⟨s, file⟩ := state
  have hspec := update_spec hok hholds hsmall id tuple
  rw [hrun] at hspec
  exact hspec.2.2.step

/-- A deletion is a step of the heap. -/
theorem HeapFile.InUse.erase_step (h : InUse heaps path rows state) {id : RowId} {done : Bool}
    (hrun : HeapFile.erase id state = .ok done state') :
    HeapStep heaps path state.storage state'.storage := by
  obtain ⟨hok, rfl, hholds, -, -⟩ := h
  obtain ⟨s, file⟩ := state
  obtain ⟨_, hspec, hafter, -⟩ := erase_spec hok hholds id
  rw [hrun] at hspec
  obtain ⟨-, rfl⟩ := EStateM.Result.ok.inj hspec
  exact hafter.step

/-- Updating the rows never shrinks the file. -/
theorem keeps_updateRows {change : StoredRow → ReadOnly heaps (Option Tuple)}
    (hgrows : ∀ row, EStateM.Keeps Grows (change row).1) (todo : List StoredRow) :
    EStateM.Keeps HeapFile.Grows (updateRows change todo) := by
  induction todo with
  | nil => exact .pure []
  | cons row todo ih =>
    refine (keeps_onStorage (hgrows row)).bind fun changed ↦ ?_
    rcases changed with - | tuple
    · exact ih
    · exact (keeps_update row.id tuple).bind fun _ ↦ ih.bind fun _ ↦ .pure _

/-- What a `change` decides about a row does not depend on the pages: whether WHERE holds, and the tuple
that the row is to have. -/
def Decides (change : StoredRow → ReadOnly heaps (Option Tuple)) (selects : StoredRow → Bool)
    (updated : StoredRow → Except Error Tuple) : Prop :=
  ∀ row s result s', (change row).1 s = .ok result s' →
    selects row = result.isSome ∧ updated row = .ok (result.getD row.values)

/-- The loop of UPDATE: behind the rows that were done come the new versions of those to do. -/
theorem updateRows_spec {change : StoredRow → ReadOnly heaps (Option Tuple)} {selects : StoredRow → Bool}
    {updated : StoredRow → Except Error Tuple} (hdecides : Decides change selects updated)
    (hgrows : ∀ row, EStateM.Keeps SkibidiQL.Grows (change row).1) {done todo : List StoredRow}
    (huse : InUse heaps path rows state) (hlists : Lists rows (done ++ todo))
    (hrun : updateRows change todo state = .ok events state')
    (hsmall : pagesOf state'.storage.disk.files path < 4294967296) :
    ∃ changed, Leads heaps path state state' (done ++ changed) ∧
      todo.mapM updated = .ok (changed.map (·.values)) ∧
      events.map RowEvent.row = (todo.filter selects).map (·.id) := by
  induction todo generalizing done rows state events with
  | nil =>
    obtain ⟨rfl, rfl⟩ := EStateM.Result.ok.inj hrun
    exact ⟨[], ⟨⟨rows, huse, hlists⟩, huse.refl⟩, rfl, rfl⟩
  | cons row todo ih =>
    rw [updateRows] at hrun
    obtain ⟨result, state₁, hchange, hrest⟩ := EStateM.exists_of_bind_eq_ok hrun
    obtain ⟨s₁, hwork, -⟩ := onStorage_of_ok hchange
    obtain ⟨hselects, hupdated⟩ := hdecides row _ _ _ hwork
    have huse₁ := huse.readOnly hchange
    have hstep₁ := huse.readOnly_step hchange
    rcases result with - | tuple
    · -- WHERE does not hold: the row stays as it is
      rw [← List.singleton_append, ← List.append_assoc] at hlists
      obtain ⟨changed, ⟨hrows, hstep⟩, htuples, hevents⟩ := ih huse₁ hlists hrest
      refine ⟨row :: changed, ⟨?_, hstep₁.trans hstep⟩, ?_, ?_⟩
      · rwa [List.append_cons]
      · rw [List.mapM_cons, hupdated, htuples]
        rfl
      · rw [hevents, List.filter_cons_of_neg (by rw [hselects]; exact Bool.false_ne_true)]
    · obtain ⟨new, state₂, hupdate, hmore⟩ := EStateM.exists_of_bind_eq_ok hrest
      obtain ⟨events', state₃, hloop, hend⟩ := EStateM.exists_of_bind_eq_ok hmore
      obtain ⟨rfl, rfl⟩ := EStateM.Result.ok.inj hend
      -- Files only grow, so the bound at the end of the statement holds at every step.
      have hsmall₁ : pagesOf state₁.storage.disk.files path < 4294967296 := by
        have hgrow₁ := (keeps_update row.id tuple).ok hupdate
        have hgrow₂ := (keeps_updateRows hgrows todo).ok hloop
        exact Nat.lt_of_le_of_lt ((SkibidiQL.Grows.pagesOf_le hgrow₁ path).trans (hgrow₂.pagesOf_le path))
          hsmall
      obtain ⟨-, huse₂, hnew⟩ := huse₁.update hsmall₁ hupdate
      have hlists₂ := hlists.replace (hnew.imp_right (·.1)) tuple
      obtain ⟨changed, ⟨hrows, hstep⟩, htuples, hevents⟩ := ih huse₂ hlists₂ hloop
      refine ⟨⟨new, tuple⟩ :: changed, ⟨?_, (hstep₁.trans (huse₁.update_step hsmall₁ hupdate)).trans hstep⟩,
        ?_, ?_⟩
      · rwa [List.append_cons]
      · rw [List.mapM_cons, hupdated, htuples]
        rfl
      · rw [List.map_cons, hevents, List.filter_cons_of_pos hselects]
        rfl

/-- What a condition of DELETE decides about a row does not depend on the pages. -/
def Tests (selects : StoredRow → ReadOnly heaps Bool) (selected : StoredRow → Bool) : Prop :=
  ∀ row s result s', (selects row).1 s = .ok result s' → selected row = result

/-- The loop of DELETE: behind the rows that were done come those that stay. -/
theorem deleteRows_spec {selects : StoredRow → ReadOnly heaps Bool} {selected : StoredRow → Bool}
    (htests : Tests selects selected) {done todo : List StoredRow} (huse : InUse heaps path rows state)
    (hlists : Lists rows (done ++ todo)) (hrun : deleteRows selects todo state = .ok events state') :
    Leads heaps path state state' (done ++ todo.filter fun row ↦ !selected row) ∧
      events.map RowEvent.row = (todo.filter selected).map (·.id) := by
  induction todo generalizing done rows state events with
  | nil =>
    obtain ⟨rfl, rfl⟩ := EStateM.Result.ok.inj hrun
    exact ⟨⟨⟨rows, huse, hlists⟩, huse.refl⟩, rfl⟩
  | cons row todo ih =>
    rw [deleteRows] at hrun
    obtain ⟨result, state₁, hselects, hrest⟩ := EStateM.exists_of_bind_eq_ok hrun
    obtain ⟨s₁, hwork, -⟩ := onStorage_of_ok hselects
    have hresult := htests row _ _ _ hwork
    have huse₁ := huse.readOnly hselects
    have hstep₁ := huse.readOnly_step hselects
    rcases result with - | -
    · rw [← List.singleton_append, ← List.append_assoc] at hlists
      obtain ⟨⟨hrows, hstep⟩, hevents⟩ := ih huse₁ hlists hrest
      rw [List.filter_cons_of_pos (by rw [hresult]; rfl),
        List.filter_cons_of_neg (by rw [hresult]; exact Bool.false_ne_true)]
      exact ⟨⟨by rwa [List.append_cons], hstep₁.trans hstep⟩, hevents⟩
    · obtain ⟨erased, state₂, herase, hmore⟩ := EStateM.exists_of_bind_eq_ok hrest
      obtain ⟨hdone, huse₂, -⟩ := huse₁.erase herase
      have hlive : rows row.id = some row.values :=
        (hlists.mem row).1 (List.mem_append_right _ List.mem_cons_self)
      -- the row is still there, so that it is erased and counted
      rw [hlive] at hdone
      obtain rfl : erased = true := hdone
      obtain ⟨events', state₃, hloop, hend⟩ := EStateM.exists_of_bind_eq_ok hmore
      obtain ⟨rfl, rfl⟩ := EStateM.Result.ok.inj hend
      have hlists₂ := (hlists.of_perm List.perm_middle).erase
      obtain ⟨⟨hrows, hstep⟩, hevents⟩ := ih huse₂ hlists₂ hloop
      rw [List.filter_cons_of_neg (by rw [hresult]; exact Bool.false_ne_true), List.filter_cons_of_pos hresult]
      refine ⟨⟨hrows, (hstep₁.trans (huse₁.erase_step herase)).trans hstep⟩, ?_⟩
      rw [List.map_cons, hevents]
      rfl

end Loops

/-! ### The statements on a table -/

section Statements

variable {heaps : Path → Prop} {table : Table} {rows : HeapMap} {s s' : Storage} {events : List RowEvent}

/-- A statement on a table has led to a storage with these rows, and changed no other file. -/
structure Becomes (heaps : Path → Prop) (path : Path) (s s' : Storage) (listed : List StoredRow) : Prop where
  rows : ∃ rows, TableOK heaps path rows s' ∧ Lists rows listed
  step : HeapStep heaps path s s'

/-- A body that returns is not rolled back. -/
theorem restoring_of_ok {α : Type} {path : Path} {before : Option Bytes} {body : StorageM α} {a : α}
    (h : restoring path before body s = .ok a s') : body s = .ok a s' := by
  rw [restoring] at h
  split at h
  next hbody =>
    obtain ⟨rfl, rfl⟩ := EStateM.Result.ok.inj h
    exact hbody
  next error s₁ hbody =>
    obtain ⟨_, _, -, hthrow⟩ := EStateM.exists_of_bind_eq_ok h
    cases hthrow

/-- A statement that returns has run its loop and flushed the file. -/
theorem thenFlush_of_ok {path : Path} {loop : HeapM (List RowEvent)}
    (h : onHeap path (thenFlush loop) s = .ok events s') :
    ∃ state, loop ⟨s, { path }⟩ = .ok events state ∧ s' = state.storage.flushFile state.file.path := by
  rw [onHeap] at h
  split at h
  next events' state' hrun =>
    obtain ⟨rfl, rfl⟩ := EStateM.Result.ok.inj h
    obtain ⟨_, state, hloop, hflush⟩ := EStateM.exists_of_bind_eq_ok hrun
    obtain ⟨rfl, rfl⟩ := EStateM.Result.ok.inj hflush
    exact ⟨state, hloop, rfl⟩
  next => cases h

/-- The scan of a statement, and its loop behind it. -/
theorem exists_of_statement {loop : List StoredRow → HeapM (List RowEvent)}
    (h : TableOK heaps table.path rows s)
    (hrun : restoring table.path (some ((s.flushFile table.path).disk.read table.path)) (do
      let rows ← table.scanTable
      onHeap table.path (thenFlush (loop rows))) (s.flushFile table.path) = .ok events s') :
    ∃ before s₁ state, IsScan rows before ∧ InUse heaps table.path rows ⟨s₁, { path := table.path }⟩ ∧
      HeapStep heaps table.path s s₁ ∧ loop before ⟨s₁, { path := table.path }⟩ = .ok events state ∧
      s' = state.storage.flushFile state.file.path := by
  have hflush := h.flushFile
  obtain ⟨before, s₁, hscan, hloop⟩ := EStateM.exists_of_bind_eq_ok (restoring_of_ok hrun)
  obtain ⟨s₂, result, hstep, hresult, hbefore⟩ := scanTable_spec hflush
  rw [hscan] at hresult
  rcases result with error | scanned
  · exact nomatch hresult
  · obtain ⟨rfl, rfl⟩ := EStateM.Result.ok.inj hresult
    obtain ⟨state, hloop, hend⟩ := thenFlush_of_ok hloop
    exact ⟨before, s₁, state, hbefore before rfl, (hflush.poolStep hstep).inUse,
      ((h.ok.flushFile table.path).trans hstep).toHeapStep h.settled _, hloop, hend⟩

/-- What the loop has led to is what the flushed file holds. -/
theorem Leads.becomes {path : Path} {s₁ : Storage} {state : HeapState} {listed : List StoredRow}
    (h : Leads heaps path ⟨s₁, { path }⟩ state listed) (hstep : HeapStep heaps path s s₁) :
    Becomes heaps path s (state.storage.flushFile state.file.path) listed := by
  obtain ⟨⟨rows, huse, hlists⟩, hloop⟩ := h
  refine ⟨⟨rows, huse.flushFile, hlists⟩, (hstep.trans hloop).trans ?_⟩
  exact (huse.ok.ok.flushFile _).toHeapStep huse.ok.settled path

/-- UPDATE replaces each row by its new version. -/
theorem executeUpdate_becomes {change : StoredRow → ReadOnly heaps (Option Tuple)}
    {selects : StoredRow → Bool} {updated : StoredRow → Except Error Tuple}
    (hdecides : Decides change selects updated) (hgrows : ∀ row, EStateM.Keeps Grows (change row).1)
    (h : TableOK heaps table.path rows s) (hrun : executeUpdate table change s = .ok events s')
    (hsmall : pagesOf s'.disk.files table.path < 4294967296) :
    ∃ before changed, IsScan rows before ∧ Becomes heaps table.path s s' changed ∧
      before.mapM updated = .ok (changed.map (·.values)) ∧
      events.map RowEvent.row = (before.filter selects).map (·.id) := by
  obtain ⟨before, s₁, state, hbefore, huse, hstep, hloop, rfl⟩ := exists_of_statement h hrun
  have hsmall' : pagesOf state.storage.disk.files table.path < 4294967296 :=
    Nat.lt_of_le_of_lt ((grows_flushFile _ _).pagesOf_le _) hsmall
  obtain ⟨changed, hleads, htuples, hevents⟩ :=
    updateRows_spec hdecides hgrows huse (show Lists rows ([] ++ before) from hbefore.lists) hloop hsmall'
  exact ⟨before, changed, hbefore, hleads.becomes hstep, htuples, hevents⟩

/-- DELETE removes the rows that it selects. -/
theorem executeDelete_becomes {selects : StoredRow → ReadOnly heaps Bool} {selected : StoredRow → Bool}
    (htests : Tests selects selected) (h : TableOK heaps table.path rows s)
    (hrun : executeDelete table selects s = .ok events s') :
    ∃ before, IsScan rows before ∧
      Becomes heaps table.path s s' (before.filter fun row ↦ !selected row) ∧
      events.map RowEvent.row = (before.filter selected).map (·.id) := by
  obtain ⟨before, s₁, state, hbefore, huse, hstep, hloop, rfl⟩ := exists_of_statement h hrun
  obtain ⟨hleads, hevents⟩ := deleteRows_spec htests huse (show Lists rows ([] ++ before) from hbefore.lists) hloop
  exact ⟨before, hbefore, hleads.becomes hstep, hevents⟩

end Statements

/-! ### UPDATE and DELETE -/

/-- WHERE holds on the row. -/
def selectedBy (where' : Option Expr) (table : TableMeta) (name : Bytes) (row : StoredRow) : Bool :=
  match whereHolds where' (bindRow (boundColumns table name name) row) with
  | .ok holds => holds
  | .error _ => false

/-- The tuple that UPDATE is to leave of a row: the values of SET on the row as it was, in the types of the
columns, where WHERE holds on it. -/
def updatedRow (table : TableMeta) (statement : UpdateStmt) (row : StoredRow) : Except Error Tuple := do
  let bound := bindRow (boundColumns table statement.table statement.table) row
  if ← whereHolds statement.where' bound then
    coerceTuple table (← statement.sets.foldlM (assign table bound) row.values)
  else pure row.values

/-- The rows behind an UPDATE, and what it did to which rows. -/
structure UpdatesRows (table : TableMeta) (statement : UpdateStmt) (before after : List StoredRow)
    (events : List RowEvent) : Prop where
  tuples : ∃ tuples, before.mapM (updatedRow table statement) = .ok tuples ∧
    (after.map (·.values)).Perm tuples
  once : events.map RowEvent.row =
    (before.filter (selectedBy statement.where' table statement.table)).map (·.id)
  count : (updateResult events).rowsAffected =
    (before.filter (selectedBy statement.where' table statement.table)).length

/-- The rows behind a DELETE, and which rows it erased. -/
structure DeletesRows (table : TableMeta) (statement : DeleteStmt) (before after : List StoredRow)
    (events : List RowEvent) : Prop where
  rows : after.Perm (before.filter fun row ↦ !selectedBy statement.where' table statement.table row)
  once : events.map RowEvent.row =
    (before.filter (selectedBy statement.where' table statement.table)).map (·.id)
  count : (deleteResult events).rowsAffected =
    (before.filter (selectedBy statement.where' table statement.table)).length

/-- The files of all other tables have the rows that they had. -/
def OthersUnchanged (path : Path) (s s' : Storage) : Prop :=
  ∀ other, other ≠ path → s'.rowsAt other = s.rowsAt other ∧ (other ∈ s'.disk.files ↔ other ∈ s.disk.files)

/-- A step on one heap leaves the other files. -/
theorem HeapStep.othersUnchanged {heaps : Path → Prop} {path : Path} {s s' : Storage}
    (h : HeapStep heaps path s s') : OthersUnchanged path s s' := by
  intro other hother
  refine ⟨funext fun id ↦ ?_, h.mem other hother⟩
  exact congrFun (h.rows ⟨other, id.page⟩ hother) id.slot

section Engine

variable {engine : NativeEngine} {table : TableMeta}

/-- A scan never shrinks the file. -/
theorem grows_scanHeap (engine : NativeEngine) (name : Bytes) :
    EStateM.Keeps Grows (engine.scanHeap name) := by
  refine (EStateM.Keeps.answer _).bind fun path ↦ ?_
  intro s
  rw [EStateM.final, onHeap]
  rcases hscan : HeapFile.scan engine.batchSize ⟨s, { path }⟩ with ⟨rows, state⟩ | ⟨error, state⟩
  · exact (keeps_scan engine.batchSize).ok hscan
  · exact (keeps_scan engine.batchSize).error hscan

/-- A tuple that is accepted is the coerced one. -/
theorem validateAndCoerce_eq_ok {tuple tuple' : Tuple} {replacing : RowId} {s s' : Storage}
    (h : engine.validateAndCoerce table tuple replacing s = .ok tuple' s') :
    coerceTuple table tuple = .ok tuple' := by
  obtain ⟨coerced, _, hcoerce, h⟩ := EStateM.exists_of_bind_eq_ok h
  obtain ⟨-, _, -, h⟩ := EStateM.exists_of_bind_eq_ok h
  obtain ⟨-, _, -, h⟩ := EStateM.exists_of_bind_eq_ok h
  obtain ⟨rfl, -⟩ := EStateM.Result.ok.inj h
  exact (EStateM.answer_eq_ok hcoerce).1

/-- `UPDATE` changes the rows that its condition selects. -/
theorem updateChange_decides {heaps : Path → Prop} {statement : UpdateStmt}
    (hkeeps : ∀ row, EStateM.Keeps (ReadsPages heaps) (engine.updateChange table statement row)) :
    Decides (fun row ↦ ⟨engine.updateChange table statement row, hkeeps row⟩)
      (selectedBy statement.where' table statement.table) (updatedRow table statement) := by
  intro row s result s' hrun
  obtain ⟨holds, s₁, hholds, hrest⟩ := EStateM.exists_of_bind_eq_ok hrun
  have hwhere := (EStateM.answer_eq_ok hholds).1
  rw [selectedBy, updatedRow, hwhere]
  rcases holds with - | -
  · obtain ⟨rfl, -⟩ := EStateM.Result.ok.inj hrest
    exact ⟨rfl, rfl⟩
  · obtain ⟨assigned, _, hassign, hrest⟩ := EStateM.exists_of_bind_eq_ok hrest
    obtain ⟨updated, _, hvalidate, hrest⟩ := EStateM.exists_of_bind_eq_ok hrest
    obtain ⟨-, _, -, hend⟩ := EStateM.exists_of_bind_eq_ok hrest
    obtain ⟨rfl, -⟩ := EStateM.Result.ok.inj hend
    refine ⟨rfl, ?_⟩
    show (statement.sets.foldlM _ row.values >>= coerceTuple table) = _
    rw [(EStateM.answer_eq_ok hassign).1]
    exact validateAndCoerce_eq_ok hvalidate

/-- `DELETE` takes the rows that its condition selects. -/
theorem deleteSelects_tests {heaps : Path → Prop} {statement : DeleteStmt}
    (hkeeps : ∀ row, EStateM.Keeps (ReadsPages heaps) (engine.deleteSelects table statement row)) :
    Tests (fun row ↦ ⟨engine.deleteSelects table statement row, hkeeps row⟩)
      (selectedBy statement.where' table statement.table) := by
  intro row s result s' hrun
  obtain ⟨holds, s₁, hholds, hrest⟩ := EStateM.exists_of_bind_eq_ok hrun
  rw [selectedBy, (EStateM.answer_eq_ok hholds).1]
  rcases holds with - | -
  · exact (EStateM.Result.ok.inj hrest).1
  · obtain ⟨-, _, -, hend⟩ := EStateM.exists_of_bind_eq_ok hrest
    exact (EStateM.Result.ok.inj hend).1

variable {path : Path} {rows : HeapMap} {s s' : Storage} {events : List RowEvent}

/-- A scan of a table finds its rows. -/
theorem TableOK.exists_isScan {heaps : Path → Prop} (h : TableOK heaps path rows s) :
    ∃ found, IsScan rows found := by
  obtain ⟨_, found, hfound, -⟩ := scanBatches_spec h.inUse.ok h.holds (show ValidBatch 1 by decide)
  exact ⟨found, hfound⟩

/-- **`UPDATE` is the update of a set of rows.** -/
theorem update_setwise {statement : UpdateStmt} (htable : engine.catalog.tables[statement.table]? = some table)
    (hpath : tablePath statement.table = .ok path) (h : TableOK IsTableFile path rows s)
    (hrun : engine.executeUpdate statement s = .ok events s')
    (hsmall : pagesOf s'.disk.files path < 4294967296) :
    ∃ before rows' after, IsScan rows before ∧ TableOK IsTableFile path rows' s' ∧ IsScan rows' after ∧
      UpdatesRows table statement before after events ∧ OthersUnchanged path s s' := by
  rw [NativeEngine.executeUpdate, htable] at hrun
  obtain ⟨_, _, hanswer, hrun⟩ := EStateM.exists_of_bind_eq_ok hrun
  rw [hpath] at hanswer
  obtain ⟨rfl, rfl⟩ := EStateM.Result.ok.inj hanswer
  obtain ⟨before, changed, hbefore, ⟨⟨rows', htable', hlists⟩, hstep⟩, htuples, hevents⟩ :=
    executeUpdate_becomes (updateChange_decides _)
      (engine.keeps_updateChange (grows_scanHeap engine) table statement)
      (show TableOK IsTableFile (engine.tableOf statement.table table path).path rows s from h) hrun hsmall
  obtain ⟨after, hafter⟩ := htable'.exists_isScan
  refine ⟨before, rows', after, hbefore, htable', hafter, ⟨⟨_, htuples, ?_⟩, hevents, ?_⟩,
    hstep.othersUnchanged⟩
  · exact (hafter.lists.perm hlists).map _
  · show events.length = _
    rw [← List.length_map RowEvent.row, hevents, List.length_map]

/-- **`DELETE` is the removal of a set of rows.** -/
theorem delete_setwise {statement : DeleteStmt} (htable : engine.catalog.tables[statement.table]? = some table)
    (hpath : tablePath statement.table = .ok path) (h : TableOK IsTableFile path rows s)
    (hrun : engine.executeDelete statement s = .ok events s') :
    ∃ before rows' after, IsScan rows before ∧ TableOK IsTableFile path rows' s' ∧ IsScan rows' after ∧
      DeletesRows table statement before after events ∧ OthersUnchanged path s s' := by
  rw [NativeEngine.executeDelete, htable] at hrun
  obtain ⟨_, _, hanswer, hrun⟩ := EStateM.exists_of_bind_eq_ok hrun
  rw [hpath] at hanswer
  obtain ⟨rfl, rfl⟩ := EStateM.Result.ok.inj hanswer
  obtain ⟨before, hbefore, ⟨⟨rows', htable', hlists⟩, hstep⟩, hevents⟩ :=
    executeDelete_becomes (deleteSelects_tests _)
      (show TableOK IsTableFile (engine.tableOf statement.table table path).path rows s from h) hrun
  obtain ⟨after, hafter⟩ := htable'.exists_isScan
  refine ⟨before, rows', after, hbefore, htable', hafter, ⟨hafter.lists.perm hlists, hevents, ?_⟩,
    hstep.othersUnchanged⟩
  show events.length = _
  rw [← List.length_map RowEvent.row, hevents, List.length_map]

/-- UPDATE and DELETE have set semantics: the rows of the table afterwards are the rows before, with the rows
on which WHERE holds replaced or removed, each of these is changed once and counted, and no other table
changes. -/
theorem rowChanges_setwise (engine : NativeEngine) (h : TableOK IsTableFile path rows s) :
    (∀ (statement : UpdateStmt) (table : TableMeta) (events : List RowEvent) (s' : Storage),
      engine.catalog.tables[statement.table]? = some table → tablePath statement.table = .ok path →
        engine.executeUpdate statement s = .ok events s' → pagesOf s'.disk.files path < 4294967296 →
          ∃ before rows' after, IsScan rows before ∧ TableOK IsTableFile path rows' s' ∧
            IsScan rows' after ∧ UpdatesRows table statement before after events ∧ OthersUnchanged path s s') ∧
      ∀ (statement : DeleteStmt) (table : TableMeta) (events : List RowEvent) (s' : Storage),
        engine.catalog.tables[statement.table]? = some table → tablePath statement.table = .ok path →
          engine.executeDelete statement s = .ok events s' →
            ∃ before rows' after, IsScan rows before ∧ TableOK IsTableFile path rows' s' ∧
              IsScan rows' after ∧ DeletesRows table statement before after events ∧
                OthersUnchanged path s s' :=
  ⟨fun _ _ _ _ htable hpath hrun hsmall ↦ update_setwise htable hpath h hrun hsmall,
    fun _ _ _ _ htable hpath hrun ↦ delete_setwise htable hpath h hrun⟩

end Engine

/-! ### Two rows -/

/-- The number is put into the table. -/
def insertNumber (n : Int64) : List (RowInput IsTableFile) :=
  [⟨.pure [.integer n], fun _ _ ↦ .pure ()⟩]

/-- Inserting a number keeps the table. -/
theorem insertNumber_ok {rows : HeapMap} {s : Storage} {n : Int64} (h : TableOK IsTableFile marks.path rows s)
    (hsmall : pagesOf (s.flushFile marks.path).disk.files marks.path < 4294967296)
    (hdone : ((executeInsert marks (insertNumber n)).run' s).isSome) :
    ∃ rows', TableOK IsTableFile marks.path rows' ((executeInsert marks (insertNumber n)).final s) := by
  have havoid : InsertsAvoid [] (insertNumber n) ⟨s.flushFile marks.path, { path := marks.path }⟩ := by
    intro tuple state₁ htuple
    obtain ⟨rfl, rfl⟩ := EStateM.Result.ok.inj htuple
    exact ⟨⟨hsmall, fun _ _ hmem ↦ absurd hmem List.not_mem_nil⟩, fun _ _ _ _ _ ↦ trivial⟩
  have hkeeps : Keeps [] rows Origin.captured := fun _ hmem ↦ absurd hmem List.not_mem_nil
  have hspec := executeInsert_keeps h hkeeps havoid
  obtain ⟨events, hevents⟩ := Option.isSome_iff_exists.1 hdone
  have hrun := EStateM.eq_of_run' hevents
  rw [hrun] at hspec
  obtain ⟨rows', htable, -⟩ := hspec
  exact ⟨rows', htable⟩

/-- `marks(n INTEGER)`. -/
def marksMeta : TableMeta where
  name := marks.name
  columns := [{ name := lit "n", type := lit "INTEGER" }]

/-- The engine of a database with that table. -/
def marksEngine : NativeEngine where
  catalog := ({} : Catalog).addTable marksMeta
  batchSize := marks.batchSize

/-- The table with the numbers 7 and 8, in a database with one frame. -/
def twoMarks : Storage :=
  (executeInsert marks (insertNumber 8)).final
    ((executeInsert marks (insertNumber 7)).final (newTable marks (lit "/db") 1 ⟨id, List.Perm.refl⟩))

/-- `n = 7`. -/
def isSeven : Expr :=
  .binary .eq (.column { column := lit "n" }) (.literal (.int 7)) []

/-- `UPDATE marks SET n = n + 1 WHERE n = 7`. -/
def raiseSeven : UpdateStmt where
  table := marks.name
  sets := [⟨lit "n", .binary .add (.column { column := lit "n" }) (.literal (.int 1)) []⟩]
  where' := some isSeven

/-- `DELETE FROM marks WHERE n = 7`. -/
def deleteSeven : DeleteStmt where
  table := marks.name
  where' := some isSeven

theorem marks_isTableFile : IsTableFile marks.path :=
  ⟨marks.name, rfl⟩

set_option maxRecDepth 100000 in
theorem twoMarks_ok : ∃ rows, TableOK IsTableFile marks.path rows twoMarks := by
  obtain ⟨_, hone⟩ := insertNumber_ok (n := 7)
    (newTable_ok marks_isTableFile (lit "/db") 1 ⟨id, fun _ ↦ .rfl⟩) (by decide +kernel) (by decide +kernel)
  exact insertNumber_ok hone (by decide +kernel) (by decide +kernel)

set_option maxRecDepth 100000 in
/-- Both statements on the table of marks. -/
theorem rowChanges_setwise_marks :
    (∃ rows before rows' after, IsScan rows before ∧
      TableOK IsTableFile marks.path rows' ((marksEngine.executeUpdate raiseSeven).final twoMarks) ∧
      IsScan rows' after ∧ UpdatesRows marksMeta raiseSeven before after [.updated ⟨0, 0⟩ ⟨0, 0⟩] ∧
      OthersUnchanged marks.path twoMarks ((marksEngine.executeUpdate raiseSeven).final twoMarks)) ∧
    ∃ rows before rows' after, IsScan rows before ∧
      TableOK IsTableFile marks.path rows' ((marksEngine.executeDelete deleteSeven).final twoMarks) ∧
      IsScan rows' after ∧ DeletesRows marksMeta deleteSeven before after [.erased ⟨0, 0⟩] ∧
      OthersUnchanged marks.path twoMarks ((marksEngine.executeDelete deleteSeven).final twoMarks) := by
  obtain ⟨rows, htable⟩ := twoMarks_ok
  obtain ⟨hupdate, hdelete⟩ := rowChanges_setwise marksEngine htable
  have hupdated := hupdate raiseSeven _ [.updated ⟨0, 0⟩ ⟨0, 0⟩] _ rfl rfl
    (EStateM.eq_of_run' (by decide +kernel)) (by decide +kernel)
  have hdeleted := hdelete deleteSeven _ [.erased ⟨0, 0⟩] _ rfl rfl (EStateM.eq_of_run' (by decide +kernel))
  exact ⟨⟨rows, hupdated⟩, rows, hdeleted⟩

end SkibidiQL
