import SkibidiQL.Dataset.OpenTransaction

/-!
# Crashes

A statement that commits by itself is atomic: wherever a crash stops it, recovery gives the files from before it or
those from behind it (`autocommit_atomic`), and when it throws, it leaves the files as they were
(`autocommit_error`). A session is a sequence of such statements, and a crash at any point of it gives the files
behind some prefix that has all statements that had returned (`session_durable`).
-/

namespace SkibidiQL

open NativeWal SessionM

/-- Between statements that commit by themselves: no log, no dirty page, no transaction. -/
structure Quiescent (st : NativeSession) : Prop where
  transaction : st.walTransactionId = 0
  inactive : st.transactionActive = false
  idle : Idle (fun _ ↦ False) st.storage
  no_log : contentOf st.storage.disk.files walPath = none

variable {config : EngineConfig} {start st st' : NativeSession} {stamp : UInt64} {statement : DatabaseStatement}
  {logged : List Path}

/-! ### The parts of a transaction -/

/-- The session after BEGIN. -/
def begun (stamp : UInt64) (st : NativeSession) : NativeSession :=
  { st with
    storage.disk := st.storage.disk.perform (begin stamp)
    walTransactionId := stamp
    walLoggedFiles := [] }

theorem beginWalTransaction_eq (h : st.walTransactionId = 0) (stamp : UInt64) :
    beginWalTransaction stamp st = .ok () (begun stamp st) := by
  simp only [beginWalTransaction, bind, EStateM.bind, get, getThe, MonadStateOf.get, EStateM.get, h, if_true]
  rfl

/-- A transaction that has begun has logged nothing. -/
theorem inTransaction_begun (h : Idle (fun _ ↦ False) st.storage) (stamp : UInt64) :
    InTransaction stamp st [] (begun stamp st) :=
  ⟨rfl, rfl, rfl, List.forall_mem_nil _,
    ⟨h.unpinned, fun frame hmem hdirty ↦ (h.dirty frame hmem hdirty).elim⟩, [], _, .nil, rfl, rfl, rfl⟩

/-- Committing in a transaction. -/
theorem commitWalTransaction_eq (h : st.walTransactionId ≠ 0) : commitWalTransaction st = .ok ()
    { st with
      storage.disk := st.storage.disk.perform (commit st.walTransactionId)
      walTransactionId := 0
      walLoggedFiles := [] } := by
  simp only [commitWalTransaction, bind, EStateM.bind, get, getThe, MonadStateOf.get, EStateM.get]
  rw [if_pos h]
  rfl

/-- Where no page is pinned every frame is discarded. -/
theorem discardAll_eq {s : Storage} (h : ∀ frame ∈ s.pool.frames, frame.pins = 0) :
    Storage.discardAll s = .ok () (s.withFrames []) := by
  have hpins : (s.pool.frames.any fun frame ↦ frame.pins != 0) = false := by
    rw [List.any_eq_false]
    intro frame hmem
    simp [h frame hmem]
  simp only [Storage.discardAll, bind, EStateM.bind, get, getThe, MonadStateOf.get, EStateM.get, hpins]
  rfl

theorem SessionM.onStorage_of_ok {α : Type} {work : StorageM α} {a : α} {s : Storage} (h : work st.storage = .ok a s) :
    onStorage work st = .ok a { st with storage := s } := by
  rw [onStorage, onEngine, EngineM.onStorage, h]

/-- The session after a transaction was discarded. -/
def discarded (st : NativeSession) : NativeSession :=
  { st with
    storage := { disk := recover st.storage.disk, pool := { st.storage.pool with frames := [] } }
    primaryIndexes := ∅
    catalog := .load {} (recover st.storage.disk).files[catalogPath]?
    walTransactionId := 0
    walLoggedFiles := [] }

/-- Discarding a transaction rolls its writes back. -/
theorem discardWalTransaction_eq (h : st.walTransactionId ≠ 0)
    (hidle : ∀ frame ∈ st.storage.pool.frames, frame.pins = 0) : discardWalTransaction st = .ok () (discarded st) := by
  have hcleared : (modify fun st ↦ { st with walTransactionId := 0, walLoggedFiles := [] } : SessionM PUnit) st =
      .ok ⟨⟩ { st with walTransactionId := 0, walLoggedFiles := [] } := rfl
  simp only [discardWalTransaction, bind, EStateM.bind, get, getThe, MonadStateOf.get, EStateM.get]
  rw [if_pos h]
  have hpool : onStorage Storage.discardAll { st with walTransactionId := 0, walLoggedFiles := [] } =
      .ok () { st with storage := st.storage.withFrames [], walTransactionId := 0, walLoggedFiles := [] } :=
    SessionM.onStorage_of_ok (discardAll_eq hidle)
  exact (EStateM.bind_of_ok hcleared).trans (EStateM.bind_of_ok hpool)

/-- The pool is the same. -/
def SamePool (st st' : NativeSession) : Prop :=
  st'.storage.pool = st.storage.pool

instance : IsPreorder NativeSession SamePool where
  refl _ := rfl
  trans _ _ _ h h' := h'.trans h

/-- Saving the catalog leaves the pool. -/
theorem samePool_saveCatalog : EStateM.Keeps SamePool saveCatalog := by
  have hwrite (write : Write) : EStateM.Keeps SamePool (performWrite write) := fun _ ↦ rfl
  have hrecord : EStateM.Keeps SamePool (recordWalBefore catalogPath) := by
    intro st
    show (if _ then st else _).storage.pool = _
    split <;> rfl
  exact hrecord.bind fun _ ↦ (hwrite _).bind fun _ ↦ .bind .get fun _ ↦ hwrite _

/-- Nothing is dirty after a flush. -/
theorem clean_flushUnlocked (h : flushUnlocked st = .ok () st') :
    ∀ frame ∈ st'.storage.pool.frames, ¬frame.dirty := by
  obtain ⟨done, middle, hflush, hsave⟩ := EStateM.exists_of_bind_eq_ok h
  obtain ⟨-, rfl⟩ := EStateM.Result.ok.inj hflush
  have hpool : st'.storage.pool = st.storage.flushAll.pool := samePool_saveCatalog.ok hsave
  rw [hpool]
  intro frame hmem hdirty
  obtain ⟨hkeys, hframe⟩ := flushKeys_dirty hmem hdirty
  rw [Storage.keys, (st.storage.pool.iteration.perm _).mem_iff] at hkeys
  exact hkeys (List.mem_map.2 ⟨frame, hframe, rfl⟩)

/-- A transaction up to its commit record and the removal of the log. -/
def committed (st : NativeSession) : NativeSession :=
  { st with
    storage.disk := (st.storage.disk.perform (commit st.walTransactionId)).perform checkpoint
    walTransactionId := 0
    walLoggedFiles := [] }

theorem commit_eq (h : st.walTransactionId ≠ 0) {α : Type} (result : α) :
    (do commitWalTransaction; performWrite checkpoint; pure result : SessionM α) st = .ok result (committed st) :=
  EStateM.bind_of_ok (commitWalTransaction_eq h)

theorem InTransaction.ne_zero (h : InTransaction stamp start logged st) (hstamp : stamp ≠ 0) :
    st.walTransactionId ≠ 0 :=
  h.transaction ▸ hstamp

/-- A session whose transaction was committed after a flush. -/
theorem InTransaction.quiescent_committed (h : InTransaction stamp start logged st)
    (hactive : start.transactionActive = false) (hclean : ∀ frame ∈ st.storage.pool.frames, ¬frame.dirty) :
    Quiescent (committed st) where
  transaction := rfl
  inactive := h.active.trans hactive
  idle := ⟨h.idle.unpinned, hclean⟩
  no_log := contentOf_remove _ walPath

/-- A session whose transaction was discarded. -/
theorem InTransaction.quiescent_discarded (h : InTransaction stamp start logged st)
    (hactive : start.transactionActive = false) (hquiet : contentOf start.storage.disk.files walPath = none) :
    Quiescent (discarded st) ∧ (discarded st).storage.disk.files = start.storage.disk.files := by
  obtain ⟨writes, j, hrun, hfiles, -, -⟩ := h.run
  have hback : (discarded st).storage.disk.files = start.storage.disk.files := by
    show (recover st.storage.disk).files = _
    rw [recover_files, ← hfiles, ((hrun.isOpen hquiet).recovers hquiet).files]
  refine ⟨⟨rfl, h.active.trans hactive, ⟨List.forall_mem_nil _, List.forall_mem_nil _⟩, ?_⟩, hback⟩
  rw [hback, hquiet]

/-! ### Crashes in a transaction -/

/-- A crash while a transaction is undone. -/
theorem NativeWal.Journal.Run.recovers_crash_undo {id : UInt64} {before : Files} {j : Journal}
    {writes : List Write} (hrun : Journal.Run id (Journal.opened id before) writes j)
    (hquiet : contentOf before walPath = none) (n : Nat) (torn : Option Nat) :
    RecoversTo (crashAfter before (begin id :: writes ++ recoverWrites j.files) n torn) before := by
  rw [crashAfter_eq]
  by_cases hn : n < (begin id :: writes).length
  · rw [cutShort_of_lt hn, ← crashAfter_eq]
    exact hrun.recovers_crash hquiet n torn
  · rw [cutShort_of_le (Nat.le_of_not_lt hn), applyAll_append, hrun.files_eq, ← crashAfter_eq]
    -- The writes of undoing are those of a recovery, which the crash interrupts.
    exact ((hrun.isOpen hquiet).recovers hquiet).of_interrupted (.single ⟨_, torn, rfl⟩)

/-- The writes from one state of the disk to another, and what recovery gives after a crash among them: the first
files or the last ones. -/
structure AtomicWrites (disk disk' : Disk) (writes : List Write) : Prop where
  trace : disk'.trace = disk.trace ++ writes
  files : disk'.files = applyAll disk.files writes
  crash : ∀ n torn, RecoversTo (crashAfter disk.files writes n torn) disk.files ∨
    RecoversTo (crashAfter disk.files writes n torn) disk'.files

/-- Writing nothing is atomic. -/
theorem AtomicWrites.nil {disk : Disk} (hquiet : contentOf disk.files walPath = none) : AtomicWrites disk disk [] where
  trace := (List.append_nil _).symm
  files := rfl
  crash n torn := by
    have hnone : cutShort [] n torn = [] := by cases torn <;> simp [cutShort]
    rw [crashAfter_eq, hnone]
    exact .inl (.of_no_log hquiet)

/-- The writes of a committed transaction are atomic. -/
theorem InTransaction.atomic_committed (h : InTransaction stamp start logged st)
    (hquiet : contentOf start.storage.disk.files walPath = none) :
    ∃ writes, AtomicWrites start.storage.disk (committed st).storage.disk writes := by
  obtain ⟨writes, j, hrun, hfiles, -, htrace⟩ := h.run
  have hlast : (committed st).storage.disk.files =
      applyAll start.storage.disk.files (begin stamp :: writes ++ [commit stamp, checkpoint]) := by
    rw [applyAll_append, hrun.files_eq, hfiles, ← h.transaction]
    rfl
  refine ⟨begin stamp :: writes ++ [commit stamp, checkpoint], ?_, hlast, fun n torn ↦ ?_⟩
  · show st.storage.disk.trace ++ [_] ++ [_] = _
    rw [htrace, h.transaction, List.append_assoc, List.append_assoc]
    rfl
  · rcases hrun.recovers_crash_commit hquiet n torn with ⟨-, hcrash⟩ | ⟨-, hcrash⟩
    · exact .inr (hlast ▸ hcrash)
    · exact .inl hcrash

/-- The writes of a discarded transaction are atomic. -/
theorem InTransaction.atomic_discarded (h : InTransaction stamp start logged st)
    (hquiet : contentOf start.storage.disk.files walPath = none) :
    ∃ writes, AtomicWrites start.storage.disk (discarded st).storage.disk writes := by
  obtain ⟨writes, j, hrun, hfiles, -, htrace⟩ := h.run
  refine ⟨begin stamp :: writes ++ recoverWrites j.files, ?_, ?_, fun n torn ↦
    .inl (hrun.recovers_crash_undo hquiet n torn)⟩
  · show (recover st.storage.disk).trace = _
    rw [recover, foldl_perform, htrace, hfiles, List.append_assoc]
  · rw [applyAll_append, hrun.files_eq, hfiles]
    exact recover_files st.storage.disk

/-! ### A statement that commits by itself -/

/-- A handler that discards the transaction of the session. -/
theorem InTransaction.orDiscard_of_error (h : InTransaction stamp start logged st') (hstamp : stamp ≠ 0) {α : Type}
    {body : SessionM α} {error : Error} (hbody : body st = .error error st') :
    orDiscard body st = .error error (discarded st') := by
  rw [orDiscard, hbody]
  exact EStateM.bind_of_ok (discardWalTransaction_eq (h.ne_zero hstamp) h.idle.unpinned)

variable (config) in
/-- What a statement does that commits by itself: it commits, or it throws and is undone. -/
theorem autocommit_cases (hst : Quiescent st) (hstamp : stamp ≠ 0) (hfits : statement.Fits st.storage.disk.files) :
    ∃ st₁, InTransaction stamp st [] st₁ ∧
      ((∃ result, autocommit config stamp statement st = .ok result (committed st₁) ∧
          ∀ frame ∈ st₁.storage.pool.frames, ¬frame.dirty) ∨
        ∃ error, autocommit config stamp statement st = .error error (discarded st₁)) := by
  have hquiet : Quiet stamp st.storage.disk.files := ⟨hstamp, hst.no_log⟩
  have hbegun := inTransaction_begun hst.idle stamp
  have hbegin := beginWalTransaction_eq hst.transaction stamp
  cases hrun : statement.run config (begun stamp st) with
  | error error st₁ =>
    have hst₁ : InTransaction stamp st [] st₁ := (hfits.maintains_run config hquiet).error hrun hbegun
    refine ⟨st₁, hst₁, .inr ⟨error, hst₁.orDiscard_of_error hstamp ?_⟩⟩
    exact (EStateM.bind_of_ok hbegin).trans (EStateM.bind_of_error hrun)
  | ok result st₁ =>
    have hst₁ : InTransaction stamp st [] st₁ := (hfits.maintains_run config hquiet).ok hrun hbegun
    have hflushes : EStateM.Keeps (Maintains (InTransaction stamp st [])) flushUnlocked :=
      maintains_flushUnlocked hquiet hfits.catalog.loggable_catalogPath
    cases hflush : flushUnlocked st₁ with
    | error error st₂ =>
      have hst₂ : InTransaction stamp st [] st₂ := hflushes.error hflush hst₁
      refine ⟨st₂, hst₂, .inr ⟨error, hst₂.orDiscard_of_error hstamp ?_⟩⟩
      exact ((EStateM.bind_of_ok hbegin).trans (EStateM.bind_of_ok hrun)).trans (EStateM.bind_of_error hflush)
    | ok _ st₂ =>
      have hst₂ : InTransaction stamp st [] st₂ := hflushes.ok hflush hst₁
      refine ⟨st₂, hst₂, .inl ⟨result, ?_, clean_flushUnlocked hflush⟩⟩
      rw [autocommit, orDiscard, EStateM.bind_of_ok hbegin, EStateM.bind_of_ok hrun, EStateM.bind_of_ok hflush,
        commit_eq (hst₂.ne_zero hstamp) result]

variable (config) in
/-- A statement that commits by itself is atomic: wherever a crash stops it, recovery gives the files from before it
or those from behind it. -/
theorem autocommit_atomic (hst : Quiescent st) (hstamp : stamp ≠ 0) (hfits : statement.Fits st.storage.disk.files) :
    let st' := (autocommit config stamp statement).final st
    Quiescent st' ∧ ∃ writes, AtomicWrites st.storage.disk st'.storage.disk writes := by
  obtain ⟨st₁, hst₁, ⟨result, hrun, hclean⟩ | ⟨error, hrun⟩⟩ := autocommit_cases config hst hstamp hfits
  · rw [EStateM.final_of_ok hrun]
    exact ⟨hst₁.quiescent_committed hst.inactive hclean, hst₁.atomic_committed hst.no_log⟩
  · rw [EStateM.final_of_error hrun]
    exact ⟨(hst₁.quiescent_discarded hst.inactive hst.no_log).1, hst₁.atomic_discarded hst.no_log⟩

/-- A statement that throws leaves the files as they were, and the session as one that has opened them anew, but for
the cached results of context queries. -/
theorem autocommit_error (hst : Quiescent st) (hstamp : stamp ≠ 0) (hfits : statement.Fits st.storage.disk.files)
    {error : Error} (hrun : autocommit config stamp statement st = .error error st') :
    st'.storage.disk.files = st.storage.disk.files ∧ st'.storage.pool.frames = [] ∧ st'.primaryIndexes = ∅ ∧
      st'.catalog = .load {} st.storage.disk.files[catalogPath]? ∧ Quiescent st' := by
  obtain ⟨st₁, hst₁, ⟨result, hrun', -⟩ | ⟨error', hrun'⟩⟩ := autocommit_cases config hst hstamp hfits
  · rw [hrun] at hrun'
    cases hrun'
  · rw [hrun] at hrun'
    obtain ⟨-, rfl⟩ := EStateM.Result.error.inj hrun'
    obtain ⟨hquiescent, hfiles⟩ := hst₁.quiescent_discarded hst.inactive hst.no_log
    exact ⟨hfiles, rfl, rfl, congrArg (fun files : Files ↦ Catalog.load {} files[catalogPath]?) hfiles, hquiescent⟩

/-! ### Sessions -/

/-- What happens in a session. -/
inductive SessionOp where
  | statement (stamp : UInt64) (statement : DatabaseStatement)
  | read (work : Reading)

namespace SessionOp

/-- The session after an operation, which may throw. -/
def step (config : EngineConfig) (st : NativeSession) : SessionOp → NativeSession
  | .statement stamp request => (execute config stamp request).final st
  | .read work => work.1.final st

/-- The session after these operations. -/
def run (config : EngineConfig) (st : NativeSession) (ops : List SessionOp) : NativeSession :=
  ops.foldl (step config) st

/-- What an operation needs: an id, and files that fit into the log. -/
def Fits (before : Files) : SessionOp → Prop
  | .statement stamp request => stamp ≠ 0 ∧ request.Fits before
  | .read _ => True

/-- Every operation has what it needs when it is its turn. -/
def AllFit (config : EngineConfig) (st : NativeSession) (ops : List SessionOp) : Prop :=
  ∀ (k : Nat) (op : SessionOp), ops[k]? = some op → op.Fits (run config st (ops.take k)).storage.disk.files

variable {op : SessionOp} {ops : List SessionOp}

theorem AllFit.nil : AllFit config st [] := by
  intro k op hop
  cases hop

/-- Operations fit when the first does and the others do behind it. -/
theorem AllFit.cons (hop : op.Fits st.storage.disk.files) (hops : AllFit config (step config st op) ops) :
    AllFit config st (op :: ops) := by
  intro k op' hop'
  cases k with
  | zero =>
    cases hop'
    exact hop
  | succ k => exact hops k op' hop'

theorem AllFit.head (h : AllFit config st (op :: ops)) : op.Fits st.storage.disk.files :=
  h 0 op rfl

theorem AllFit.tail (h : AllFit config st (op :: ops)) : AllFit config (step config st op) ops :=
  fun k op' hop ↦ h (k + 1) op' hop

variable (config) in
/-- Reading writes nothing. -/
theorem read_eq (hst : Quiescent st) (work : Reading) :
    Quiescent (step config st (.read work)) ∧ (step config st (.read work)).storage.disk = st.storage.disk := by
  obtain ⟨hconfined, hsame⟩ := work.2 (fun _ ↦ False) st
  -- Between statements no page is dirty, so no other work is written on the way.
  obtain ⟨hidle, writes, hwrites, hdisk⟩ := hconfined hst.idle
  obtain rfl : writes = [] := List.eq_nil_iff_forall_not_mem.2 hwrites
  have hdisk : (work.1.final st).storage.disk = st.storage.disk := hdisk
  exact ⟨⟨(congrArg (·.walTransactionId) hsame).trans hst.transaction,
    (congrArg (·.transactionActive) hsame).trans hst.inactive, hidle, by rw [step, hdisk]; exact hst.no_log⟩, hdisk⟩

variable (config) in
/-- One operation is atomic, and leaves the session as it must be for the next one. -/
theorem step_atomic (hst : Quiescent st) (hfits : op.Fits st.storage.disk.files) :
    Quiescent (step config st op) ∧
      ∃ writes, AtomicWrites st.storage.disk (step config st op).storage.disk writes := by
  cases op with
  | statement stamp request =>
    -- Outside a transaction `execute` wraps the statement in one of its own.
    have hexecute : execute config stamp request st = autocommit config stamp request st := by
      simp only [execute, bind, EStateM.bind, get, getThe, MonadStateOf.get, EStateM.get, hst.inactive]
      rfl
    have hfinal : step config st (.statement stamp request) = (autocommit config stamp request).final st := by
      rw [step, EStateM.final, hexecute, EStateM.final]
    rw [hfinal]
    exact autocommit_atomic config hst hfits.1 hfits.2
  | read work =>
    obtain ⟨hquiescent, hdisk⟩ := read_eq config hst work
    rw [hdisk]
    exact ⟨hquiescent, [], .nil hst.no_log⟩

/-- A first part fits. -/
theorem AllFit.take (h : AllFit config st ops) (i : Nat) : AllFit config st (ops.take i) := by
  intro k op hop
  have hk : k < i := by
    by_contra hnot
    rw [List.getElem?_take_eq_none (Nat.le_of_not_lt hnot)] at hop
    cases hop
  rw [List.getElem?_take_of_lt hk] at hop
  rw [List.take_take, Nat.min_eq_left (Nat.le_of_lt hk)]
  exact h k op hop

/-- In the course of a session the writes become more. -/
theorem run_grows (hst : Quiescent st) (hfits : AllFit config st ops) :
    st.storage.disk.trace.length ≤ (run config st ops).storage.disk.trace.length := by
  induction ops generalizing st with
  | nil => exact Nat.le_refl _
  | cons op ops ih =>
    obtain ⟨hnext, first, hfirst⟩ := step_atomic config hst hfits.head
    have hlength := congrArg List.length hfirst.trace
    rw [List.length_append] at hlength
    have hrest : _ ≤ (run config st (op :: ops)).storage.disk.trace.length := ih hnext hfits.tail
    omega

end SessionOp

/-- Wherever a crash stops a session, recovery gives the files behind some number of its operations. -/
theorem session_recovers {ops : List SessionOp} (hst : Quiescent st) (hfits : SessionOp.AllFit config st ops) :
    ∃ writes, (SessionOp.run config st ops).storage.disk.trace = st.storage.disk.trace ++ writes ∧
      (SessionOp.run config st ops).storage.disk.files = applyAll st.storage.disk.files writes ∧
      ∀ n torn, ∃ k ≤ ops.length,
        RecoversTo (crashAfter st.storage.disk.files writes n torn)
          (SessionOp.run config st (ops.take k)).storage.disk.files ∧
        ∀ i ≤ ops.length, (SessionOp.run config st (ops.take i)).storage.disk.trace.length ≤
          st.storage.disk.trace.length + n → i ≤ k := by
  induction ops generalizing st with
  | nil =>
    refine ⟨[], (List.append_nil _).symm, rfl, fun n torn ↦ ⟨0, Nat.le_refl 0, ?_, fun i hi _ ↦ hi⟩⟩
    exact (AtomicWrites.nil hst.no_log).crash n torn |>.elim id id
  | cons op ops ih =>
    obtain ⟨hnext, first, hfirst⟩ := SessionOp.step_atomic config hst hfits.head
    obtain ⟨rest, htrace, hfiles, hcrash⟩ := ih hnext hfits.tail
    have hlength : (op.step config st).storage.disk.trace.length = st.storage.disk.trace.length + first.length := by
      rw [hfirst.trace, List.length_append]
    -- Whoever has done more than nothing has done all writes of the first operation.
    have hbehind (i : Nat) : st.storage.disk.trace.length + first.length ≤
        (SessionOp.run config st ((op :: ops).take (i + 1))).storage.disk.trace.length :=
      hlength.symm.trans_le (SessionOp.run_grows hnext (hfits.tail.take i))
    refine ⟨first ++ rest, ?_, ?_, fun n torn ↦ ?_⟩
    · rw [← List.append_assoc, ← hfirst.trace]
      exact htrace
    · rw [applyAll_append, ← hfirst.files]
      exact hfiles
    · rw [crashAfter_eq]
      -- The crash falls into the first operation, or the session behind it is the one that crashes.
      by_cases hn : n < first.length
      · rw [cutShort_of_lt hn, ← crashAfter_eq]
        rcases hfirst.crash n torn with hbefore | hafter
        · refine ⟨0, Nat.zero_le _, hbefore, fun i hi hdone ↦ ?_⟩
          cases i with
          | zero => exact Nat.le_refl _
          | succ i => exact absurd ((hbehind i).trans hdone) (by omega)
        · refine ⟨1, Nat.succ_le_succ (Nat.zero_le _), hafter, fun i hi hdone ↦ ?_⟩
          cases i with
          | zero => exact Nat.zero_le _
          | succ i => exact absurd ((hbehind i).trans hdone) (by omega)
      · rw [cutShort_of_le (Nat.le_of_not_lt hn), applyAll_append, ← hfirst.files, ← crashAfter_eq]
        obtain ⟨k, hk, hrecover, hdurable⟩ := hcrash (n - first.length) torn
        refine ⟨k + 1, Nat.succ_le_succ hk, hrecover, fun i hi hdone ↦ ?_⟩
        cases i with
        | zero => exact Nat.zero_le _
        | succ i =>
          refine Nat.succ_le_succ (hdurable i (Nat.le_of_succ_le_succ hi) ?_)
          have hdone' : (SessionOp.run config (op.step config st) (ops.take i)).storage.disk.trace.length ≤
            st.storage.disk.trace.length + n := hdone
          omega

/-- Wherever a crash stops a session, and however often a crash stops the recovery from it, recovery in the end gives
the files behind some number of the operations. These are all operations that had done their writes by the first
crash: what was committed is not lost. -/
theorem session_durable {ops : List SessionOp} (hst : Quiescent st) (hfits : SessionOp.AllFit config st ops) :
    ∃ writes, (SessionOp.run config st ops).storage.disk.trace = st.storage.disk.trace ++ writes ∧
      ∀ n torn, ∃ k ≤ ops.length,
        (∀ files, Relation.ReflTransGen Interrupted (crashAfter st.storage.disk.files writes n torn) files →
          recoverFiles files = (SessionOp.run config st (ops.take k)).storage.disk.files) ∧
        ∀ i ≤ ops.length, (SessionOp.run config st (ops.take i)).storage.disk.trace.length ≤
          st.storage.disk.trace.length + n → i ≤ k := by
  obtain ⟨writes, htrace, -, hcrash⟩ := session_recovers hst hfits
  refine ⟨writes, htrace, fun n torn ↦ ?_⟩
  obtain ⟨k, hk, hrecovers, hdone⟩ := hcrash n torn
  exact ⟨k, hk, fun files hfiles ↦ (hrecovers.of_interrupted hfiles).files, hdone⟩

/-! ### A new database -/

/-- A database without tables. -/
def newDatabase : NativeSession :=
  openEngine { root := lit "/db" } 4 ⟨id, List.Perm.refl⟩

/-- A new database has no transaction. -/
theorem quiescent_newDatabase : Quiescent newDatabase where
  transaction := rfl
  inactive := rfl
  idle := ⟨List.forall_mem_nil _, List.forall_mem_nil _⟩
  no_log := by decide +kernel

def petsConfig : EngineConfig where
  batchSize := 16
  generate _ := []

/-- `CREATE TABLE pets (age INT)`. -/
def createPets : DatabaseStatement :=
  .create { table := lit "pets", columns := [{ name := lit "age", type := lit "int" }] }

/-- `INSERT INTO pets VALUES (7)`. -/
def insertPet : DatabaseStatement :=
  .insert { table := lit "pets", valueRows := [[.literal (.int 7)]] }

/-- `DROP TABLE cats`, a table that is not there. -/
def dropCats : DatabaseStatement :=
  .drop { table := lit "cats" }

/-- A session whose last statement throws. -/
def petOps : List SessionOp :=
  [.statement 1 createPets, .statement 2 insertPet, .statement 3 dropCats]

theorem pets_path : tablePath (lit "pets") = .ok (lit "tables/pets.heap") := by
  decide

theorem cats_path : tablePath (lit "cats") = .ok (lit "tables/cats.heap") := by
  decide

set_option maxRecDepth 100000 in
theorem petOps_allFit : SessionOp.AllFit petsConfig newDatabase petOps := by
  refine .cons ⟨by decide, .of_table rfl pets_path (by decide +kernel) (by decide +kernel)⟩ ?_
  refine .cons ⟨by decide, .of_table rfl pets_path (by decide +kernel) (by decide +kernel)⟩ ?_
  exact .cons ⟨by decide, .of_table rfl cats_path (by decide +kernel) (by decide +kernel)⟩ .nil

/-- A session on pets, crashed anywhere. -/
theorem session_durable_pets : ∃ writes,
    (SessionOp.run petsConfig newDatabase petOps).storage.disk.trace = newDatabase.storage.disk.trace ++ writes ∧
      ∀ n torn, ∃ k ≤ 3,
        (∀ files, Relation.ReflTransGen Interrupted (crashAfter newDatabase.storage.disk.files writes n torn) files →
          recoverFiles files = (SessionOp.run petsConfig newDatabase (petOps.take k)).storage.disk.files) ∧
        ∀ i ≤ 3, (SessionOp.run petsConfig newDatabase (petOps.take i)).storage.disk.trace.length ≤
          newDatabase.storage.disk.trace.length + n → i ≤ k :=
  session_durable quiescent_newDatabase petOps_allFit

set_option maxRecDepth 100000 in
theorem dropCats_error : autocommit petsConfig 3 dropCats newDatabase =
    .error (lit "Unknown table: cats") (discarded (begun 3 newDatabase)) :=
  rfl

/-- The failed drop leaves the session as it was. -/
theorem autocommit_error_cats :
    let st' := discarded (begun 3 newDatabase)
    st'.storage.disk.files = newDatabase.storage.disk.files ∧ st'.storage.pool.frames = [] ∧
      st'.primaryIndexes = ∅ ∧ st'.catalog = .load {} newDatabase.storage.disk.files[catalogPath]? ∧ Quiescent st' :=
  autocommit_error quiescent_newDatabase (by decide)
    (.of_table rfl cats_path (by decide +kernel) (by decide +kernel)) dropCats_error

end SkibidiQL
