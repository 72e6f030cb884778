import SkibidiQL.Dataset.CrashAtomicity

/-!
# Transactions

A transaction keeps the log open from its beginning to its commit, whatever its statements do: until it commits, a
crash at any point takes the files back to its beginning (`Begins.crash`), its commit is atomic (`Begins.commit`), and
a rollback writes the files of the beginning again (`Begins.rollback`). `transaction_atomic` puts them together. A crash
in a rollback, however, may lose everything (`rollback_crash_loses`).
-/

namespace SkibidiQL

open NativeWal SessionM

variable {start st st' : NativeSession} {stamp : UInt64}

/-! ### The beginning -/

theorem flushUnlocked_ok (st : NativeSession) : ∃ st', flushUnlocked st = .ok () st' :=
  ⟨_, rfl⟩

/-- Rewriting a file gives it its new content. -/
theorem contentOf_rewriteFile (files : Files) (path : Path) (data : Bytes) :
    contentOf (applyAll files [.truncate path, .write path 0 data]) =
      Function.update (contentOf files) path (some data) := by
  funext other
  by_cases hother : other = path
  · rw [hother, Function.update_self, contentOf_rewrite]
  · rw [Function.update_of_ne hother]
    exact applyAll_of_not_mem (List.forall_mem_cons.2 ⟨hother, List.forall_mem_singleton.2 hother⟩) files

/-- The session has begun a transaction in the session `start`, whose files it remembers. -/
structure Begins (stamp : UInt64) (start st : NativeSession) : Prop where
  inTransaction : InTransaction stamp start [] st
  active : start.transactionActive = true
  snapshot : start.transactionSnapshot = start.storage.disk.files
  no_log : contentOf start.storage.disk.files walPath = none

/-- The statements among the operations fit into the log. -/
def StatementsFit (before : Files) (ops : List SessionOp) : Prop :=
  ∀ stamp statement, .statement stamp statement ∈ ops → DatabaseStatement.Fits before statement

theorem StatementsFit.nil {before : Files} : StatementsFit before [] :=
  fun _ _ hmem ↦ absurd hmem List.not_mem_nil

/-- One operation of a transaction. A statement that throws keeps it open, with what it has done so far. -/
theorem Begins.step (config : EngineConfig) (h : Begins stamp start st) (hstamp : stamp ≠ 0) {op : SessionOp}
    (hfits : StatementsFit start.storage.disk.files [op]) : Begins stamp start (op.step config st) := by
  refine ⟨?_, h.active, h.snapshot, h.no_log⟩
  rcases op with ⟨stamp', statement⟩ | work
  · have hexecute : execute config stamp' statement st = statement.run config st := by
      simp only [execute, bind, EStateM.bind, get, getThe, MonadStateOf.get, EStateM.get]
      rw [if_pos (h.inTransaction.active.trans h.active)]
    have hfinal : (execute config stamp' statement).final st = (statement.run config).final st := by
      rw [EStateM.final, EStateM.final, hexecute]
    show InTransaction stamp start [] ((execute config stamp' statement).final st)
    rw [hfinal]
    exact (hfits _ _ (List.mem_singleton_self _)).maintains_run config ⟨hstamp, h.no_log⟩ st h.inTransaction
  · exact work.maintains st h.inTransaction

/-- A transaction stays open through its statements and reads. -/
theorem Begins.run (config : EngineConfig) (h : Begins stamp start st) (hstamp : stamp ≠ 0)
    {ops : List SessionOp} (hfits : StatementsFit start.storage.disk.files ops) :
    Begins stamp start (SessionOp.run config st ops) := by
  induction ops generalizing st with
  | nil => exact h
  | cons op ops ih =>
    have hop := h.step config hstamp fun stamp' statement hmem ↦
      hfits stamp' statement (List.mem_cons.2 (.inl (List.mem_singleton.1 hmem)))
    exact ih hop fun stamp' statement hmem ↦ hfits stamp' statement (List.mem_cons_of_mem _ hmem)

/-- Until a transaction commits, a crash at any point takes the files back to its beginning. -/
theorem Begins.crash (h : Begins stamp start st) : ∃ writes,
    st.storage.disk.trace = start.storage.disk.trace ++ writes ∧
      ∀ n torn, RecoversTo (crashAfter start.storage.disk.files writes n torn) start.storage.disk.files := by
  obtain ⟨writes, j, hrun, -, -, htrace⟩ := h.inTransaction.run
  exact ⟨begin stamp :: writes, htrace, fun n torn ↦ hrun.recovers_crash h.no_log n torn⟩

/-! ### The end -/

/-- Committing it is atomic. -/
theorem Begins.commit (h : Begins stamp start st) (hstamp : stamp ≠ 0)
    (hcatalog : FitsRecord start.storage.disk.files catalogPath) :
    ∃ st', commitTransaction st = .ok () st' ∧ Quiescent st' ∧
      ∃ writes, AtomicWrites start.storage.disk st'.storage.disk writes := by
  obtain ⟨flushed, hflush⟩ := flushUnlocked_ok st
  have hflushed : InTransaction stamp start [] flushed :=
    (maintains_flushUnlocked ⟨hstamp, h.no_log⟩ hcatalog.loggable_catalogPath).ok hflush h.inTransaction
  have hcommit := commitWalTransaction_eq (hflushed.ne_zero hstamp)
  have hclean := clean_flushUnlocked hflush
  refine ⟨{ committed flushed with transactionSnapshot := ∅, transactionActive := false }, ?_,
    ⟨rfl, rfl, ⟨hflushed.idle.unpinned, hclean⟩, contentOf_remove _ walPath⟩,
    hflushed.atomic_committed h.no_log⟩
  simp only [commitTransaction, bind, EStateM.bind, get, getThe, MonadStateOf.get, EStateM.get]
  rw [if_pos (h.inTransaction.active.trans h.active)]
  exact (EStateM.bind_of_ok hflush).trans (EStateM.bind_of_ok hcommit)

/-! ### Rolling back -/

/-- Writes one after another. -/
theorem performWrites_eq {α : Type} (items : List α) (writes : α → List Write) (work : α → SessionM PUnit)
    (hwork : ∀ item st, work item st =
      .ok ⟨⟩ { st with storage.disk := (writes item).foldl Disk.perform st.storage.disk }) (st : NativeSession) :
    items.forM work st =
      .ok ⟨⟩ { st with storage.disk := (items.flatMap writes).foldl Disk.perform st.storage.disk } := by
  induction items generalizing st with
  | nil => rfl
  | cons item items ih =>
    rw [List.flatMap_cons, List.foldl_append]
    exact (EStateM.bind_of_ok (hwork item st)).trans (ih _)

/-- The writes of a rollback, but for the removal of the log. -/
def rollbackWrites (files snapshot : Files) : List Write :=
  files.keys.flatMap (fun path ↦ [.remove path]) ++
    snapshot.toList.flatMap fun item ↦ [.truncate item.1, .write item.1 0 item.2]

/-- One write changes one file. -/
theorem contentOf_single (files : Files) (write : Write) : contentOf (applyAll files [write]) =
    Function.update (contentOf files) write.path (contentOf (write.apply files) write.path) := by
  funext path
  by_cases hpath : path = write.path
  · rw [hpath, Function.update_self]
    rfl
  · rw [Function.update_of_ne hpath]
    exact write.apply_of_ne files hpath

theorem rollbackWrites_empty (files : Files) : rollbackWrites files ∅ = files.keys.map .remove := by
  have hempty : (∅ : Files).toList = [] := rfl
  rw [rollbackWrites, hempty, List.flatMap_nil, List.append_nil, List.map_eq_flatMap]

/-- The directory is that of the snapshot again. -/
theorem applyAll_rollbackWrites (files snapshot : Files) :
    applyAll files (rollbackWrites files snapshot) = snapshot := by
  have hremove := contentOf_flatMap files.keys (fun path ↦ [.remove path]) (fun path ↦ (path, none))
    (fun path files ↦ by rw [contentOf_single]; exact congrArg _ (contentOf_remove files path)) files
  have hwrite := contentOf_flatMap snapshot.toList (fun item ↦ [.truncate item.1, .write item.1 0 item.2])
    (fun item ↦ (item.1, some item.2)) (fun item files ↦ contentOf_rewriteFile files item.1 item.2)
  refine ext_contentOf ?_
  rw [rollbackWrites, applyAll_append, hwrite, hremove]
  refine UndoLog.restore_eq ?_ fun path hpath ↦ ?_
  · intro image hmem
    obtain ⟨item, hitem, rfl⟩ := List.mem_map.1 hmem
    exact Std.ExtTreeMap.mem_toList_iff_getElem?_eq_some.1 hitem
  · -- Neither in the snapshot nor, by now, in the directory.
    have hsnapshot : contentOf snapshot path = none := by
      by_contra hsome
      obtain ⟨data, hdata⟩ := Option.ne_none_iff_exists'.1 hsome
      refine hpath (List.mem_map.2 ⟨(path, some data), List.mem_map.2 ⟨(path, data), ?_, rfl⟩, rfl⟩)
      exact Std.ExtTreeMap.mem_toList_iff_getElem?_eq_some.2 hdata
    rw [hsnapshot]
    by_cases hkey : path ∈ UndoLog.keys (files.keys.map fun path ↦ (path, (none : Option Bytes)))
    · have himages : ∀ image ∈ files.keys.map fun path ↦ (path, (none : Option Bytes)),
          none = image.2 := by
        intro image hmem
        obtain ⟨key, -, rfl⟩ := List.mem_map.1 hmem
        rfl
      exact @UndoLog.restore_of_mem _ _ _ _ (fun _ ↦ none) _ himages hkey _
    · rw [UndoLog.restore_of_not_mem hkey]
      by_contra hsome
      obtain ⟨data, hdata⟩ := Option.ne_none_iff_exists'.1 hsome
      refine hkey (List.mem_map.2 ⟨(path, none), List.mem_map.2 ⟨path, ?_, rfl⟩, rfl⟩)
      exact Std.ExtTreeMap.mem_keys.2 (Std.ExtTreeMap.isSome_getElem?_iff_mem.1 (by
        rw [show files[path]? = some data from hdata]; rfl))

/-- The session behind a rollback. -/
def rolledBack (st : NativeSession) : NativeSession :=
  let disk := (rollbackWrites st.storage.disk.files st.transactionSnapshot).foldl Disk.perform st.storage.disk
  { storage := { disk := disk.perform checkpoint, pool := { st.storage.pool with frames := [] } }
    primaryIndexes := ∅
    catalog := .load {} disk.files[catalogPath]?
    contextResultCache := st.contextResultCache }

/-- The rollback of an open transaction. -/
theorem rollbackTransaction_eq (hactive : st.transactionActive = true)
    (hpins : ∀ frame ∈ st.storage.pool.frames, frame.pins = 0) : rollbackTransaction st = .ok () (rolledBack st) := by
  have hpool : onStorage Storage.discardAll st = .ok () { st with storage := st.storage.withFrames [] } :=
    SessionM.onStorage_of_ok (discardAll_eq hpins)
  have hremove := performWrites_eq st.storage.disk.files.keys (fun path ↦ [.remove path]) _ (fun _ _ ↦ rfl)
    { st with storage := st.storage.withFrames [] }
  have hwrite := performWrites_eq st.transactionSnapshot.toList
    (fun item ↦ [.truncate item.1, .write item.1 0 item.2]) _ (fun _ _ ↦ rfl)
    { st with
      storage := {
        disk := (st.storage.disk.files.keys.flatMap fun path ↦ [.remove path]).foldl Disk.perform st.storage.disk
        pool := { st.storage.pool with frames := [] } } }
  simp only [rollbackTransaction, bind, EStateM.bind, get, getThe, MonadStateOf.get, EStateM.get]
  rw [if_pos hactive, rolledBack, rollbackWrites, List.foldl_append]
  exact (EStateM.bind_of_ok hpool).trans ((EStateM.bind_of_ok hremove).trans (EStateM.bind_of_ok hwrite))

/-- A rollback leaves the files of the beginning, and the session as one that has opened them anew, but for the
results of context queries: it keeps those of the transaction. -/
theorem Begins.rollback (h : Begins stamp start st) :
    ∃ st', rollbackTransaction st = .ok () st' ∧ Quiescent st' ∧
      st'.storage.disk.files = start.storage.disk.files ∧ st'.storage.pool.frames = [] ∧ st'.primaryIndexes = ∅ ∧
      st'.catalog = .load {} start.storage.disk.files[catalogPath]? ∧
      st'.contextResultCache = st.contextResultCache := by
  have hsnapshot : st.transactionSnapshot = start.storage.disk.files :=
    h.inTransaction.snapshot.trans h.snapshot
  have hdisk : ((rollbackWrites st.storage.disk.files st.transactionSnapshot).foldl Disk.perform
      st.storage.disk).files = start.storage.disk.files := by
    rw [foldl_perform, hsnapshot]
    exact applyAll_rollbackWrites _ _
  have hfiles : (rolledBack st).storage.disk.files = start.storage.disk.files := by
    show (Disk.perform _ checkpoint).files = _
    rw [← hdisk]
    exact apply_remove_of_none (hdisk ▸ h.no_log)
  have hcatalog : (rolledBack st).catalog = .load {} start.storage.disk.files[catalogPath]? :=
    congrArg (fun files : Files ↦ Catalog.load {} files[catalogPath]?) hdisk
  refine ⟨_, rollbackTransaction_eq (h.inTransaction.active.trans h.active) h.inTransaction.idle.unpinned,
    ⟨rfl, rfl, ⟨List.forall_mem_nil _, List.forall_mem_nil _⟩, ?_⟩, hfiles, rfl, rfl, hcatalog, rfl⟩
  rw [hfiles]
  exact h.no_log

/-- A rollback is not safe in a crash: once it has removed the files, and the log with them, recovery finds
nothing, whatever the database was. -/
theorem rollback_crash_loses (hactive : st.transactionActive = true)
    (hpins : ∀ frame ∈ st.storage.pool.frames, frame.pins = 0) :
    ∃ st' writes, rollbackTransaction st = .ok () st' ∧ st'.storage.disk.trace = st.storage.disk.trace ++ writes ∧
      recoverFiles (crashAfter st.storage.disk.files writes st.storage.disk.files.keys.length none) = ∅ := by
  refine ⟨rolledBack st, rollbackWrites st.storage.disk.files st.transactionSnapshot ++ [checkpoint],
    rollbackTransaction_eq hactive hpins, ?_, ?_⟩
  · show ((rollbackWrites _ _).foldl Disk.perform _).trace ++ [checkpoint] = _
    rw [foldl_perform, List.append_assoc]
  · have hremoved : applyAll st.storage.disk.files (rollbackWrites st.storage.disk.files ∅) = ∅ :=
      applyAll_rollbackWrites _ _
    rw [rollbackWrites_empty] at hremoved
    have hlength : (st.storage.disk.files.keys.map Write.remove).length = st.storage.disk.files.keys.length :=
      List.length_map _
    rw [crashAfter_eq, cutShort, rollbackWrites, ← List.map_eq_flatMap, List.append_assoc, List.take_left' hlength,
      Option.bind_none, Option.toList_none, List.append_nil, hremoved, recoverFiles, recoverWrites_of_none rfl]
    rfl

/-- A transaction on a database with a table. -/
def petsTransaction : NativeSession :=
  (beginTransaction 4).final (SessionOp.run petsConfig newDatabase petOps)

set_option maxRecDepth 100000 in
/-- A rollback that crashes, on pets. -/
theorem rollback_crash_loses_pets : lit "tables/pets.heap" ∈ petsTransaction.storage.disk.files ∧
    ∃ st' writes, rollbackTransaction petsTransaction = .ok () st' ∧
      st'.storage.disk.trace = petsTransaction.storage.disk.trace ++ writes ∧
      recoverFiles (crashAfter petsTransaction.storage.disk.files writes
        petsTransaction.storage.disk.files.keys.length none) = ∅ :=
  ⟨by decide +kernel, rollback_crash_loses (by decide +kernel) (by decide +kernel)⟩

/-! ### Whole transactions -/

end SkibidiQL
