import SkibidiQL.Dataset.TableStatements

/-!
# Where rows come from

A row id that a deletion freed is taken again by a later insertion, so a row id does not tell which row it
is. Here every row of a table carries its origin along: the row id that it had at the moment of a snapshot,
or that it was inserted later (`Origins`). A statement keeps the row ids of the snapshot with their rows
(`Keeps`) as long as it puts no other row where `insertPlace` gives out one of them (`StatementAvoids`).
-/

namespace SkibidiQL

open HeapFile

/-! ### Origins -/

/-- Which row it is: the one that a row id named at the moment of the snapshot, or a later one. -/
inductive Origin where
  | captured (id : RowId)
  | later
deriving DecidableEq

/-- The origin of the row that is stored under a row id. -/
abbrev Origins := RowId → Origin

/-- The origins after a row was inserted, updated or erased: a row that moves stays the same row. -/
def Origins.after (origins : Origins) : RowEvent → Origins
  | .inserted id => Function.update origins id .later
  | .updated old new => Function.update origins new (origins old)
  | .erased _ => origins

/-- What is stored under the row ids of the snapshot are the rows that were captured there. -/
def Keeps (ids : List RowId) (rows : HeapMap) (origins : Origins) : Prop :=
  ∀ id ∈ ids, (rows id).isSome → origins id = .captured id

section Keeps

variable {ids : List RowId} {rows : HeapMap} {origins : Origins}

/-- An insertion outside of the captured places keeps the origins. -/
theorem Keeps.insert (h : Keeps ids rows origins) {id : RowId} (hid : id ∉ ids) (tuple : Tuple) :
    Keeps ids (Function.update rows id (some tuple)) (origins.after (.inserted id)) := by
  intro other hother hlive
  have hne : other ≠ id := fun heq ↦ hid (heq ▸ hother)
  rw [Function.update_of_ne hne] at hlive
  rw [Origins.after, Function.update_of_ne hne]
  exact h other hother hlive

/-- A deletion keeps the origins. -/
theorem Keeps.erase (h : Keeps ids rows origins) (id : RowId) :
    Keeps ids (Function.update rows id none) (origins.after (.erased id)) := by
  intro other hother hlive
  by_cases hother' : other = id
  · rw [hother', Function.update_self] at hlive
    cases hlive
  · rw [Function.update_of_ne hother'] at hlive
    exact h other hother hlive

/-- An update keeps the origins when a row moves to no captured place that it did not come from. -/
theorem Keeps.update (h : Keeps ids rows origins) {old new : RowId} (hlive : (rows old).isSome)
    (hnew : new = old ∨ (new ∈ ids → origins old = .captured new)) (tuple : Tuple) :
    Keeps ids (Function.update (Function.update rows old none) new (some tuple))
      (origins.after (.updated old new)) := by
  intro other hother hsome
  by_cases hother' : other = new
  · subst hother'
    rw [Origins.after, Function.update_self]
    rcases hnew with rfl | hnew
    · exact h other hother hlive
    · exact hnew hother
  · rw [Function.update_of_ne hother'] at hsome
    rw [Origins.after, Function.update_of_ne hother']
    by_cases hold : other = old
    · rw [hold, Function.update_self] at hsome
      cases hsome
    · rw [Function.update_of_ne hold] at hsome
      exact h other hother hsome

end Keeps

/-! ### Statements that avoid the captured row ids -/

variable {heaps : Path → Prop}

/-- The file is small, and an insertion into it would not give the row id of a captured row to a row of
another origin. -/
def Avoids (ids : List RowId) (origin : Origin) (state : HeapState) (tuple : Tuple) : Prop :=
  pagesOf state.storage.disk.files state.file.path < 4294967296 ∧
    ∀ encoded, encodeTuple tuple = .ok encoded →
      insertPlace state.storage state.file.path encoded ∈ ids →
        origin = .captured (insertPlace state.storage state.file.path encoded)

/-- Every insertion of the loop of an INSERT avoids the captured row ids. -/
def InsertsAvoid (ids : List RowId) : List (RowInput heaps) → HeapState → Prop
  | [], _ => True
  | row :: rows, state =>
    ∀ tuple state₁, onStorage row.tuple.1 state = .ok tuple state₁ →
      Avoids ids .later state₁ tuple ∧
        ∀ id state₂ state₃, insert tuple state₁ = .ok id state₂ →
          onStorage (row.index tuple id).1 state₂ = .ok () state₃ → InsertsAvoid ids rows state₃

/-- Every update of the loop of an UPDATE that moves its row avoids the row ids of other captured rows. -/
def UpdatesAvoid (ids : List RowId) (change : StoredRow → ReadOnly heaps (Option Tuple)) :
    Origins → List StoredRow → HeapState → Prop
  | _, [], _ => True
  | origins, row :: rows, state =>
    ∀ changed state₁, onStorage (change row).1 state = .ok changed state₁ →
      match changed with
      | none => UpdatesAvoid ids change origins rows state₁
      | some tuple =>
        pagesOf state₁.storage.disk.files state₁.file.path < 4294967296 ∧
          (∀ before, Moves row.id tuple state₁ before → Avoids ids (origins row.id) before tuple) ∧
            ∀ new state₂, update row.id tuple state₁ = .ok new state₂ →
              UpdatesAvoid ids change (origins.after (.updated row.id new)) rows state₂

/-- What a loop over rows leaves: a file in use that keeps the captured rows, or an exception. -/
def LoopKeeps (heaps : Path → Prop) (path : Path) (ids : List RowId) (origins : Origins) :
    EStateM.Result Error HeapState (List RowEvent) → Prop
  | .ok events state =>
    ∃ rows, InUse heaps path rows state ∧ Keeps ids rows (events.foldl Origins.after origins)
  | .error _ state => StorageOK heaps state.storage ∧ Settled state.storage

section Loops

variable {path : Path} {ids : List RowId} {rows : HeapMap} {origins : Origins} {state state' : HeapState}

/-- Work on the storage that returned has returned on the storage. -/
theorem onStorage_of_ok {α : Type} {work : StorageM α} {a : α} (h : onStorage work state = .ok a state') :
    ∃ s', work state.storage = .ok a s' ∧ state' = { state with storage := s' } := by
  rw [onStorage] at h
  split at h
  next b s' hwork =>
    obtain ⟨rfl, rfl⟩ := EStateM.Result.ok.inj h
    exact ⟨s', hwork, rfl⟩
  next => cases h

/-- Work on the storage that failed has failed on the storage. -/
theorem onStorage_of_error {α : Type} {work : StorageM α} {error : Error}
    (h : onStorage work state = .error error state') :
    ∃ s', work state.storage = .error error s' ∧ state' = { state with storage := s' } := by
  rw [onStorage] at h
  split at h
  next => cases h
  next e s' hwork =>
    obtain ⟨rfl, rfl⟩ := EStateM.Result.error.inj h
    exact ⟨s', hwork, rfl⟩

/-- Reading leaves the rows of a file in use. -/
theorem HeapFile.InUse.readOnly (h : InUse heaps path rows state) {α : Type} {work : ReadOnly heaps α} {a : α}
    (hrun : onStorage work.1 state = .ok a state') : InUse heaps path rows state' := by
  obtain ⟨s', hwork, rfl⟩ := onStorage_of_ok hrun
  exact h.poolStep (work.2.ok hwork h.ok.ok)

/-- Also where it fails the storage stays well formed. -/
theorem HeapFile.InUse.readOnly_error (h : InUse heaps path rows state) {α : Type} {work : ReadOnly heaps α}
    {error : Error} (hrun : onStorage work.1 state = .error error state') :
    StorageOK heaps state'.storage ∧ Settled state'.storage := by
  obtain ⟨s', hwork, rfl⟩ := onStorage_of_error hrun
  have hok := (h.poolStep (work.2.error hwork h.ok.ok)).ok
  exact ⟨hok.ok, hok.settled⟩

/-- The storage stays well formed where an insertion fails. -/
theorem HeapFile.InUse.insert_error (h : InUse heaps path rows state)
    (hsmall : pagesOf state.storage.disk.files path < 4294967296) {tuple : Tuple} {error : Error}
    (hrun : HeapFile.insert tuple state = .error error state') :
    StorageOK heaps state'.storage ∧ Settled state'.storage := by
  obtain ⟨hok, rfl, hholds, -, -⟩ := h
  obtain ⟨s, file⟩ := state
  by_cases hfits : Storable tuple
  · obtain ⟨_, _, hspec, -⟩ := insert_spec hok hholds hsmall hfits
    rw [hrun] at hspec
    cases hspec
  · obtain ⟨_, _, hspec, hafter, -⟩ := HeapFile.insert_error hok hholds hfits
    rw [hrun] at hspec
    obtain ⟨rfl, rfl⟩ := EStateM.Result.error.inj hspec
    exact ⟨hafter.step.ok, hafter.step.settled⟩

/-- The storage stays well formed where an update fails. -/
theorem HeapFile.InUse.update_error (h : InUse heaps path rows state)
    (hsmall : pagesOf state.storage.disk.files path < 4294967296) {id : RowId} {tuple : Tuple}
    {error : Error} (hrun : HeapFile.update id tuple state = .error error state') :
    StorageOK heaps state'.storage ∧ Settled state'.storage := by
  obtain ⟨hok, rfl, hholds, -, -⟩ := h
  obtain ⟨s, file⟩ := state
  have hspec := update_spec hok hholds hsmall id tuple
  rw [hrun] at hspec
  rcases hspec.2 with hafter | hafter <;> exact ⟨hafter.step.ok, hafter.step.settled⟩

/-- A deletion in a file in use never fails. -/
theorem HeapFile.InUse.erase_ok (h : InUse heaps path rows state) (id : RowId) :
    ∃ done state', HeapFile.erase id state = .ok done state' := by
  obtain ⟨hok, rfl, hholds, -, -⟩ := h
  obtain ⟨s, file⟩ := state
  obtain ⟨state', hrun, -⟩ := erase_spec hok hholds id
  exact ⟨_, state', hrun⟩

/-! ### The loops -/

/-- The rest of a loop, after a row that has been dealt with. -/
theorem LoopKeeps.cons {loop : HeapM (List RowEvent)} {event : RowEvent}
    (h : LoopKeeps heaps path ids (origins.after event) (loop state)) :
    LoopKeeps heaps path ids origins ((do
      let events ← loop
      pure (event :: events) : HeapM (List RowEvent)) state) := by
  cases hloop : loop state with
  | ok events state' =>
    rw [hloop] at h
    rw [EStateM.bind_of_ok hloop]
    exact h
  | error error state' =>
    rw [hloop] at h
    rw [EStateM.bind_of_error hloop]
    exact h

/-- Inserting rows keeps the origins while every new row avoids the captured places. -/
theorem insertRows_keeps {inputs : List (RowInput heaps)} (h : InUse heaps path rows state)
    (hkeeps : Keeps ids rows origins) (havoid : InsertsAvoid ids inputs state) :
    LoopKeeps heaps path ids origins (insertRows inputs state) := by
  induction inputs generalizing rows origins state with
  | nil => exact ⟨rows, h, hkeeps⟩
  | cons row inputs ih =>
    rw [insertRows]
    cases htuple : onStorage row.tuple.1 state with
    | error error state₁ =>
      rw [EStateM.bind_of_error htuple]
      exact h.readOnly_error htuple
    | ok tuple state₁ =>
      rw [EStateM.bind_of_ok htuple]
      have h₁ := h.readOnly htuple
      obtain ⟨⟨hsmall, hplace⟩, hrest⟩ := havoid tuple state₁ htuple
      rw [h₁.path_eq] at hsmall hplace
      cases hinsert : insert tuple state₁ with
      | error error state₂ =>
        rw [EStateM.bind_of_error hinsert]
        exact h₁.insert_error hsmall hinsert
      | ok id state₂ =>
        rw [EStateM.bind_of_ok hinsert]
        obtain ⟨encoded, hencode, hid, -, h₂⟩ := h₁.insert hsmall hinsert
        -- A new row goes to the first place that fits, which is no captured one.
        have hnew : id ∉ ids := by
          intro hmem
          rw [hid] at hmem
          cases hplace encoded hencode hmem
        cases hindex : onStorage (row.index tuple id).1 state₂ with
        | error error state₃ =>
          rw [EStateM.bind_of_error hindex]
          exact h₂.readOnly_error hindex
        | ok u state₃ =>
          rw [EStateM.bind_of_ok hindex]
          exact .cons (ih (h₂.readOnly hindex) (hkeeps.insert hnew tuple) (hrest id state₂ state₃ hinsert hindex))

/-- Updating rows keeps the origins while every moved row avoids the captured places. -/
theorem updateRows_keeps {change : StoredRow → ReadOnly heaps (Option Tuple)} {scanned : List StoredRow}
    (h : InUse heaps path rows state) (hkeeps : Keeps ids rows origins)
    (havoid : UpdatesAvoid ids change origins scanned state) :
    LoopKeeps heaps path ids origins (updateRows change scanned state) := by
  induction scanned generalizing rows origins state with
  | nil => exact ⟨rows, h, hkeeps⟩
  | cons row scanned ih =>
    rw [updateRows]
    cases hchange : onStorage (change row).1 state with
    | error error state₁ =>
      rw [EStateM.bind_of_error hchange]
      exact h.readOnly_error hchange
    | ok changed state₁ =>
      rw [EStateM.bind_of_ok hchange]
      have h₁ := h.readOnly hchange
      have hrest := havoid changed state₁ hchange
      cases changed with
      | none => exact ih h₁ hkeeps hrest
      | some tuple =>
        obtain ⟨hsmall, hmoves, hrest⟩ := hrest
        rw [h₁.path_eq] at hsmall
        show LoopKeeps heaps path ids origins ((do
          let id ← update row.id tuple
          let events ← updateRows change scanned
          pure (.updated row.id id :: events) : HeapM (List RowEvent)) state₁)
        cases hupdate : update row.id tuple state₁ with
        | error error state₂ =>
          rw [EStateM.bind_of_error hupdate]
          exact h₁.update_error hsmall hupdate
        | ok new state₂ =>
          obtain ⟨hlive, h₂, hnew⟩ := h₁.update hsmall hupdate
          -- A row that moves goes to the first place that fits, which is no captured one.
          have hnew' : new = row.id ∨ (new ∈ ids → origins row.id = .captured new) := by
            refine hnew.imp_right fun ⟨_, before, encoded, hmove, hbefore, hencode, hplace⟩ hmem ↦ ?_
            have havoid := (hmoves before hmove).2 encoded hencode
            rw [hbefore, ← hplace] at havoid
            exact havoid hmem
          rw [EStateM.bind_of_ok hupdate]
          exact .cons (ih h₂ (hkeeps.update hlive hnew' tuple) (hrest new state₂ hupdate))

/-- Deleting rows keeps the origins. -/
theorem deleteRows_keeps {selects : StoredRow → ReadOnly heaps Bool} {scanned : List StoredRow}
    (h : InUse heaps path rows state) (hkeeps : Keeps ids rows origins) :
    LoopKeeps heaps path ids origins (deleteRows selects scanned state) := by
  induction scanned generalizing rows origins state with
  | nil => exact ⟨rows, h, hkeeps⟩
  | cons row scanned ih =>
    rw [deleteRows]
    cases hselects : onStorage (selects row).1 state with
    | error error state₁ =>
      rw [EStateM.bind_of_error hselects]
      exact h.readOnly_error hselects
    | ok selected state₁ =>
      rw [EStateM.bind_of_ok hselects]
      have h₁ := h.readOnly hselects
      cases selected with
      | false => exact ih h₁ hkeeps
      | true =>
        obtain ⟨done, state₂, herase⟩ := h₁.erase_ok row.id
        obtain ⟨-, h₂, -⟩ := h₁.erase herase
        rw [if_pos rfl, EStateM.bind_of_ok herase]
        have hkeeps₂ := hkeeps.erase row.id
        cases done with
        | false => exact ih h₂ hkeeps₂
        | true => exact .cons (ih h₂ hkeeps₂)

end Loops

/-! ### One statement -/

/-- The insertions of a statement, when it completes, avoid the captured row ids; the file is small at each
of them in any case. -/
def StatementAvoids (table : Table) (ids : List RowId) (origins : Origins) (s : Storage) :
    TableStatement heaps table.path → Prop
  | .insert rows =>
    InsertsAvoid [] rows ⟨s.flushFile table.path, { path := table.path }⟩ ∧
      ((∃ events s', executeInsert table rows s = .ok events s') →
        InsertsAvoid ids rows ⟨s.flushFile table.path, { path := table.path }⟩)
  | .update change =>
    ∀ scanned s₁, table.scanTable (s.flushFile table.path) = .ok scanned s₁ →
      UpdatesAvoid [] change origins scanned ⟨s₁, { path := table.path }⟩ ∧
        ((∃ events s', executeUpdate table change s = .ok events s') →
          UpdatesAvoid ids change origins scanned ⟨s₁, { path := table.path }⟩)
  | .delete _ | .elsewhere _ => True

/-- What a statement leaves: a table that keeps the captured rows, or the rows as they were. -/
def StatementKeeps (heaps : Path → Prop) (path : Path) (ids : List RowId) (rows : HeapMap)
    (origins : Origins) : EStateM.Result Error Storage (List RowEvent) → Prop
  | .ok events s =>
    ∃ rows', TableOK heaps path rows' s ∧ Keeps ids rows' (events.foldl Origins.after origins)
  | .error _ s => TableOK heaps path rows s

section Statement

variable {path : Path} {ids : List RowId} {rows : HeapMap} {origins : Origins} {s s' : Storage}

theorem TableOK.inUse (h : TableOK heaps path rows s) : InUse heaps path rows ⟨s, { path }⟩ :=
  ⟨⟨h.ok, h.settled, h.heap, nofun⟩, rfl, h.holds, h.stored, nofun⟩

theorem TableOK.flushFile (h : TableOK heaps path rows s) : TableOK heaps path rows (s.flushFile path) :=
  h.poolStep (h.ok.flushFile path)

/-- A file in use is flushed at the end of a statement. -/
theorem HeapFile.InUse.flushFile {state : HeapState} (h : InUse heaps path rows state) :
    TableOK heaps path rows (state.storage.flushFile state.file.path) := by
  have hstep := h.ok.ok.flushFile state.file.path
  have hafter := h.poolStep hstep
  refine ⟨hafter.ok.ok, hafter.ok.settled, ?_, hafter.stored, hafter.holds, ?_⟩
  · rw [← h.path_eq]
    exact h.ok.heap
  · rw [h.path_eq]
    exact flushed_flushFile _ _

/-- What `scanTable` finds, or that it throws. -/
theorem scanTable_spec {table : Table} (h : TableOK heaps table.path rows s) :
    ∃ s' result, PoolStep heaps s s' ∧ table.scanTable s = EStateM.answer result s' ∧
      ∀ scanned, result = .ok scanned → IsScan rows scanned := by
  by_cases hvalid : ValidBatch table.batchSize
  · obtain ⟨state, found, hscan, hstep, -, hrun⟩ := scanBatches_spec h.inUse.ok h.holds hvalid
    have hheap : onHeap table.path (HeapFile.scan table.batchSize) s = .ok found state.storage := by
      rw [onHeap, HeapFile.scan, EStateM.bind_of_ok hrun, (batches_spec hvalid.1 found).1]
      rfl
    rw [Table.scanTable, EStateM.bind_of_ok hheap]
    by_cases hwidth : found.any fun row ↦ row.values.length != table.columns
    · exact ⟨_, .error _, hstep, by rw [if_pos hwidth]; rfl, nofun⟩
    · refine ⟨_, .ok found, hstep, by rw [if_neg hwidth]; rfl, fun scanned hscanned ↦ ?_⟩
      rwa [← Except.ok.inj hscanned]
  · obtain ⟨error, hrun⟩ := scanBatches_invalid hvalid ⟨s, { path := table.path }⟩
    have hheap : onHeap table.path (HeapFile.scan table.batchSize) s = .error error s := by
      rw [onHeap, HeapFile.scan, EStateM.bind_of_error hrun]
    exact ⟨s, .error error, .refl h.ok, EStateM.bind_of_error hheap, nofun⟩

/-- The changes of a statement under its `try`. -/
theorem LoopKeeps.thenFlush {loop : HeapM (List RowEvent)}
    (h : LoopKeeps heaps path ids origins (loop ⟨s, { path }⟩)) :
    match onHeap path (thenFlush loop) s with
      | .ok events s' =>
        ∃ rows', TableOK heaps path rows' s' ∧ Keeps ids rows' (events.foldl Origins.after origins)
      | .error _ s' => StorageOK heaps s' ∧ Settled s' := by
  rw [onHeap]
  unfold SkibidiQL.thenFlush
  cases hloop : loop ⟨s, { path }⟩ with
  | ok events state =>
    rw [hloop] at h
    rw [EStateM.bind_of_ok hloop]
    obtain ⟨rows', huse, hkeeps⟩ := h
    exact ⟨rows', huse.flushFile, hkeeps⟩
  | error error state =>
    rw [hloop] at h
    rw [EStateM.bind_of_error hloop]
    exact h

/-- A statement that fails is rolled back and keeps the origins. -/
theorem restoring_keeps {body : StorageM (List RowEvent)} (h : TableOK heaps path rows s)
    (hbody : match body s with
      | .ok events s' =>
        ∃ rows', TableOK heaps path rows' s' ∧ Keeps ids rows' (events.foldl Origins.after origins)
      | .error _ s' => StorageOK heaps s' ∧ Settled s') :
    StatementKeeps heaps path ids rows origins (restoring path (some (s.disk.read path)) body s) := by
  rw [restoring]
  cases hrun : body s with
  | ok events s' =>
    rw [hrun] at hbody
    exact hbody
  | error error s' =>
    rw [hrun] at hbody
    obtain ⟨s'', hback, htable⟩ := rollBack_spec h hbody.1 hbody.2
    show StatementKeeps heaps path ids rows origins ((do rollBack path _; throw error : StorageM _) s')
    rw [EStateM.bind_of_ok hback]
    exact htable

/-- A statement that throws keeps everything. -/
theorem StatementKeeps.of_completed {result : EStateM.Result Error Storage (List RowEvent)}
    (h : StatementKeeps heaps path [] rows origins result)
    (hdone : (∃ events s', result = .ok events s') → StatementKeeps heaps path ids rows origins result) :
    StatementKeeps heaps path ids rows origins result := by
  cases result with
  | ok events s' => exact hdone ⟨events, s', rfl⟩
  | error error s' => exact h

end Statement

section Execute

variable {table : Table} {ids : List RowId} {rows : HeapMap} {origins : Origins} {s : Storage}
  (h : TableOK heaps table.path rows s)

include h

/-- `INSERT` keeps the origins. -/
theorem executeInsert_keeps {inputs : List (RowInput heaps)} (hkeeps : Keeps ids rows origins)
    (havoid : InsertsAvoid ids inputs ⟨s.flushFile table.path, { path := table.path }⟩) :
    StatementKeeps heaps table.path ids rows origins (executeInsert table inputs s) := by
  have hflush := h.flushFile
  have hexists : (s.flushFile table.path).disk.contains table.path = true :=
    Std.ExtTreeMap.contains_iff_mem.2 hflush.stored
  have hrun : executeInsert table inputs s =
      restoring table.path (if (s.flushFile table.path).disk.contains table.path then
          some ((s.flushFile table.path).disk.read table.path) else none)
        (onHeap table.path (thenFlush (insertRows inputs))) (s.flushFile table.path) := rfl
  rw [hrun, if_pos hexists]
  exact restoring_keeps hflush (insertRows_keeps hflush.inUse hkeeps havoid).thenFlush

/-- `UPDATE` keeps the origins. -/
theorem executeUpdate_keeps {change : StoredRow → ReadOnly heaps (Option Tuple)}
    (hkeeps : Keeps ids rows origins)
    (havoid : ∀ scanned s₁, table.scanTable (s.flushFile table.path) = .ok scanned s₁ →
      UpdatesAvoid ids change origins scanned ⟨s₁, { path := table.path }⟩) :
    StatementKeeps heaps table.path ids rows origins (executeUpdate table change s) := by
  have hflush := h.flushFile
  refine restoring_keeps hflush ?_
  obtain ⟨s₁, result, hstep, hscan, -⟩ := scanTable_spec hflush
  have htable := hflush.poolStep hstep
  cases result with
  | ok scanned =>
    rw [EStateM.bind_of_ok hscan]
    exact (updateRows_keeps htable.inUse hkeeps (havoid scanned s₁ hscan)).thenFlush
  | error error =>
    rw [EStateM.bind_of_error hscan]
    exact ⟨htable.ok, htable.settled⟩

/-- `DELETE` keeps the origins. -/
theorem executeDelete_keeps {selects : StoredRow → ReadOnly heaps Bool} (hkeeps : Keeps ids rows origins) :
    StatementKeeps heaps table.path ids rows origins (executeDelete table selects s) := by
  have hflush := h.flushFile
  refine restoring_keeps hflush ?_
  obtain ⟨s₁, result, hstep, hscan, -⟩ := scanTable_spec hflush
  have htable := hflush.poolStep hstep
  cases result with
  | ok scanned =>
    rw [EStateM.bind_of_ok hscan]
    exact (deleteRows_keeps htable.inUse hkeeps).thenFlush
  | error error =>
    rw [EStateM.bind_of_error hscan]
    exact ⟨htable.ok, htable.settled⟩

/-- Work on the rest of the database keeps the table. -/
theorem elsewhere_keeps (work : Elsewhere heaps table.path) (hkeeps : Keeps ids rows origins) :
    StatementKeeps heaps table.path ids rows origins ((TableStatement.elsewhere work).execute table s) := by
  have hafter : TableOK heaps table.path rows (work.1.final s) :=
    have halone := work.2 s rows h
    ⟨halone.ok, halone.settled, h.heap, halone.stored, h.holds.congr halone.rows, halone.flushed⟩
  rw [TableStatement.execute]
  cases hrun : work.1 s with
  | ok u s' =>
    rw [EStateM.bind_of_ok hrun]
    rw [EStateM.final_of_ok hrun] at hafter
    exact ⟨rows, hafter, hkeeps⟩
  | error error s' =>
    rw [EStateM.bind_of_error hrun]
    rw [EStateM.final_of_error hrun] at hafter
    exact hafter

/-- A statement that avoids the captured row ids keeps the captured rows. -/
theorem execute_keeps {statement : TableStatement heaps table.path} (hkeeps : Keeps ids rows origins)
    (havoid : StatementAvoids table ids origins s statement) :
    StatementKeeps heaps table.path ids rows origins (statement.execute table s) := by
  have hnone : Keeps [] rows origins := fun _ hid ↦ absurd hid List.not_mem_nil
  cases statement with
  | insert inputs =>
    exact .of_completed (executeInsert_keeps h hnone havoid.1) fun hdone ↦
      executeInsert_keeps h hkeeps (havoid.2 hdone)
  | update change =>
    exact .of_completed (executeUpdate_keeps h hnone fun scanned s₁ hscan ↦ (havoid scanned s₁ hscan).1)
      fun hdone ↦ executeUpdate_keeps h hkeeps fun scanned s₁ hscan ↦ (havoid scanned s₁ hscan).2 hdone
  | delete selects => exact executeDelete_keeps h hkeeps
  | elsewhere work => exact elsewhere_keeps h work hkeeps

end Execute

/-! ### Runs -/

/-- The storage, and where the rows of the table come from. -/
structure TableState where
  storage : Storage
  origins : Origins

namespace TableState

variable {table : Table} {ids : List RowId} {state : TableState}

/-- One statement; one that throws gives no row another origin. -/
def step (table : Table) (state : TableState) (statement : TableStatement heaps table.path) : TableState :=
  match statement.execute table state.storage with
  | .ok events storage => ⟨storage, events.foldl Origins.after state.origins⟩
  | .error _ storage => ⟨storage, state.origins⟩

/-- The state after some statements. -/
def run (table : Table) (state : TableState) (statements : List (TableStatement heaps table.path)) :
    TableState :=
  statements.foldl (step table) state

/-- Every statement of the run avoids the captured row ids in its state. -/
def RunAvoids (table : Table) (ids : List RowId) :
    TableState → List (TableStatement heaps table.path) → Prop
  | _, [] => True
  | state, statement :: statements =>
    StatementAvoids table ids state.origins state.storage statement ∧
      RunAvoids table ids (state.step table statement) statements

/-- The table is well formed, and what is stored under the captured row ids are the captured rows. -/
def OK (heaps : Path → Prop) (table : Table) (ids : List RowId) (state : TableState) : Prop :=
  ∃ rows, TableOK heaps table.path rows state.storage ∧ Keeps ids rows state.origins

/-- A statement that avoids the captured places keeps the table and the origins. -/
theorem OK.step (h : OK heaps table ids state) {statement : TableStatement heaps table.path}
    (havoid : StatementAvoids table ids state.origins state.storage statement) :
    OK heaps table ids (state.step table statement) := by
  obtain ⟨rows, htable, hkeeps⟩ := h
  have hpost := execute_keeps htable hkeeps havoid
  rw [TableState.step]
  cases hrun : statement.execute table state.storage with
  | ok events s' =>
    rw [hrun] at hpost
    exact hpost
  | error error s' =>
    rw [hrun] at hpost
    exact ⟨rows, hpost, hkeeps⟩

/-- A run of such statements keeps the table and the origins. -/
theorem OK.run (h : OK heaps table ids state) {statements : List (TableStatement heaps table.path)}
    (havoid : RunAvoids table ids state statements) : OK heaps table ids (state.run table statements) := by
  induction statements generalizing state with
  | nil => exact h
  | cons statement statements ih => exact ih (h.step havoid.1) havoid.2

/-- The statements up to any moment of a run avoid the captured row ids as all of them do. -/
theorem RunAvoids.of_append {done rest : List (TableStatement heaps table.path)}
    (h : RunAvoids table ids state (done ++ rest)) : RunAvoids table ids state done := by
  induction done generalizing state with
  | nil => trivial
  | cons statement done ih => exact ⟨h.1, ih h.2⟩

end TableState

end SkibidiQL
