import SkibidiQL.Storage.WalRecovery

/-!
# Writing ahead

A transaction changes a file only when its image is in the log. The files and the images then follow the
undo log of the library (`Journal.Step.undo`), the log holds the images as records, and recovery gives the
files of the beginning back wherever a crash stopped the transaction (`Journal.Run.recovers_crash`),
until the commit record is whole (`Journal.Run.recovers_crash_commit`).
-/

namespace SkibidiQL

namespace NativeWal

/-! ### What the log of one transaction says -/

/-- The image of a file with this content. -/
def imageOf (content : Option Bytes) : WalFileImage :=
  ⟨content.isSome, content.getD []⟩

theorem content_imageOf (content : Option Bytes) : (imageOf content).content = content := by
  cases content <;> rfl

/-- What is to be undone are the images of the transactions that have not committed. -/
theorem mem_uncommitted {transactions : Transactions} {path : Path} {image : WalFileImage} :
    (path, image) ∈ uncommitted transactions ↔ ∃ (id : UInt64) (transaction : Transaction),
      transactions[id]? = some transaction ∧ transaction.committed = false ∧
        transaction.beforeImages[path]? = some image := by
  rw [uncommitted, List.mem_flatMap]
  constructor
  · rintro ⟨⟨id, transaction⟩, hentry, hmem⟩
    split at hmem
    · cases hmem
    · next hcommitted =>
      rw [List.mem_reverse, Std.ExtTreeMap.mem_toList_iff_getElem?_eq_some] at hmem
      rw [Bool.not_eq_true] at hcommitted
      exact ⟨id, transaction, Std.ExtTreeMap.mem_toList_iff_getElem?_eq_some.1 hentry, hcommitted, hmem⟩
  · rintro ⟨id, transaction, hentry, hcommitted, himage⟩
    refine ⟨(id, transaction), Std.ExtTreeMap.mem_toList_iff_getElem?_eq_some.2 hentry, ?_⟩
    rw [if_neg (by rw [hcommitted]; exact Bool.false_ne_true), List.mem_reverse,
      Std.ExtTreeMap.mem_toList_iff_getElem?_eq_some]
    exact himage

/-- A log of one transaction: the table of transactions has one entry. -/
theorem getElem?_transactions {id : UInt64} {record : WalRecord} {records : List WalRecord}
    (h : ∀ r ∈ record :: records, r.transactionId = id) (id' : UInt64) :
    (transactions (record :: records))[id']? =
      if id = id' then some ((record :: records).foldl Transaction.add {}) else none := by
  obtain ⟨hrecord, hrecords⟩ := List.forall_mem_cons.1 h
  suffices hfold : ∀ transaction : Transaction, (records.foldl (fun transactions record ↦
      transactions.insert record.transactionId ((transactions.getD record.transactionId {}).add record))
      ((∅ : Transactions).insert id transaction))[id']? =
      if id = id' then some (records.foldl Transaction.add transaction) else none by
    rw [transactions, List.foldl_cons, hrecord, Std.ExtTreeMap.getD_empty]
    exact hfold _
  clear h hrecord record
  induction records with
  | nil =>
    intro transaction
    rw [List.foldl_nil, List.foldl_nil, Std.ExtTreeMap.getElem?_insert, Std.ExtTreeMap.getElem?_empty]
    simp only [Std.LawfulEqOrd.compare_eq_iff_eq]
  | cons record records ih =>
    intro transaction
    obtain ⟨hrecord, hrecords⟩ := List.forall_mem_cons.1 hrecords
    have hinsert : ((∅ : Transactions).insert id transaction).insert id (transaction.add record) =
        (∅ : Transactions).insert id (transaction.add record) := by
      refine Std.ExtTreeMap.ext_getElem? fun {k} ↦ ?_
      rw [Std.ExtTreeMap.getElem?_insert, Std.ExtTreeMap.getElem?_insert, Std.ExtTreeMap.getElem?_insert]
      split <;> rfl
    rw [List.foldl_cons, hrecord, Std.ExtTreeMap.getD_insert_self, hinsert]
    exact ih hrecords _

/-- The records of the images. -/
def beforeRecords (id : UInt64) (images : List (Path × Option Bytes)) : List WalRecord :=
  images.map fun image ↦ beforeRecord id image.1 image.2

/-- The records of a transaction that has logged these images. -/
def openRecords (id : UInt64) (images : List (Path × Option Bytes)) : List WalRecord :=
  { type := kBegin, transactionId := id } :: beforeRecords id images

/-- A further image is a further record. -/
theorem openRecords_snoc (id : UInt64) (images : List (Path × Option Bytes)) (path : Path)
    (content : Option Bytes) : openRecords id (images ++ [(path, content)]) =
      openRecords id images ++ [beforeRecord id path content] := by
  rw [openRecords, beforeRecords, List.map_append, ← List.cons_append]
  rfl

/-- One record more at the end of the log. -/
theorem write_snoc (records : List WalRecord) (record : WalRecord) :
    format.write (records ++ [record]) = format.write records ++ encodeRecord record := by
  rw [RecordFormat.write_append, RecordFormat.write_cons, RecordFormat.write_nil, List.append_nil]
  rfl

/-- The records of a transaction carry its number. -/
theorem transactionId_of_mem_openRecords {id : UInt64} {images : List (Path × Option Bytes)} :
    ∀ record ∈ openRecords id images, record.transactionId = id := by
  refine List.forall_mem_cons.2 ⟨rfl, fun record hmem ↦ ?_⟩
  obtain ⟨image, -, rfl⟩ := List.mem_map.1 hmem
  rfl

/-- An image that is recorded is taken up. -/
theorem add_beforeRecord (id : UInt64) {path : Path} (hpath : path ≠ []) (content : Option Bytes)
    (transaction : Transaction) : transaction.add (beforeRecord id path content) =
      { transaction with beforeImages := transaction.beforeImages.insertIfNew path (imageOf content) } := by
  have hempty : path.isEmpty = false := by rwa [List.isEmpty_eq_false_iff]
  have htype : ¬kFileBefore = kCommit := by decide
  rw [Transaction.add, if_neg (show ¬(beforeRecord id path content).type = kCommit from htype), if_pos]
  · rfl
  · rw [show (beforeRecord id path content).relativePath = path from rfl, hempty]
    rfl

/-- Images that agree on one store: the table of images is that store, at the paths that were logged. -/
theorem foldl_add_beforeRecords (id : UInt64) {images : List (Path × Option Bytes)} {before : Path → Option Bytes}
    (himages : ∀ image ∈ images, image.1 ≠ [] ∧ before image.1 = image.2) (transaction : Transaction)
    (hbefore : ∀ path image, transaction.beforeImages[path]? = some image → image = imageOf (before path)) :
    ((beforeRecords id images).foldl Transaction.add transaction).committed = transaction.committed ∧
      ∀ path, ((beforeRecords id images).foldl Transaction.add transaction).beforeImages[path]? =
        if path ∈ UndoLog.keys images then some (imageOf (before path)) else transaction.beforeImages[path]? := by
  induction images generalizing transaction with
  | nil => exact ⟨rfl, fun path ↦ (if_neg List.not_mem_nil).symm⟩
  | cons image images ih =>
    obtain ⟨⟨hne, himage⟩, hrest⟩ := List.forall_mem_cons.1 himages
    have hinsert (path : Path) :
        (transaction.beforeImages.insertIfNew image.1 (imageOf image.2))[path]? =
          if path = image.1 then some (imageOf (before path)) else transaction.beforeImages[path]? := by
      rw [Std.ExtTreeMap.getElem?_insertIfNew]
      simp only [Std.LawfulEqOrd.compare_eq_iff_eq]
      -- A path that is logged twice keeps its first image, and both images are those of one store.
      by_cases hpath : path = image.1
      · subst hpath
        rw [if_pos rfl, himage]
        split
        · rfl
        · next hnot =>
          have hmem : image.1 ∈ transaction.beforeImages := by simpa using hnot
          obtain ⟨image', himage'⟩ := Option.isSome_iff_exists.1 (Std.ExtTreeMap.isSome_getElem?_iff_mem.2 hmem)
          rw [himage', hbefore _ _ himage', himage]
      · rw [if_neg hpath, if_neg fun hboth ↦ hpath hboth.1.symm]
    have hadd := add_beforeRecord id hne image.2 transaction
    obtain ⟨hcommitted, hlookup⟩ := ih hrest (transaction.add (beforeRecord id image.1 image.2)) (by
      intro path image' hlookup
      rw [hadd, hinsert] at hlookup
      split at hlookup
      · exact (Option.some.inj hlookup).symm
      · exact hbefore path image' hlookup)
    rw [beforeRecords, List.map_cons, List.foldl_cons]
    refine ⟨hcommitted.trans (by rw [hadd]), fun path ↦ (hlookup path).trans ?_⟩
    rw [hadd, hinsert]
    by_cases hkeys : path ∈ UndoLog.keys images
    · rw [if_pos hkeys, if_pos (show path ∈ UndoLog.keys (image :: images) from List.mem_cons_of_mem _ hkeys)]
    · rw [if_neg hkeys]
      by_cases hpath : path = image.1
      · subst hpath
        rw [if_pos rfl, if_pos (show image.1 ∈ UndoLog.keys (image :: images) from List.mem_cons_self)]
      · rw [if_neg hpath, if_neg (UndoLog.not_mem_keys_cons.2 ⟨hpath, hkeys⟩)]

/-- What recovery puts back of a transaction that is open. -/
theorem mem_uncommitted_openRecords {id : UInt64} {images : List (Path × Option Bytes)}
    {before : Path → Option Bytes} (himages : ∀ image ∈ images, image.1 ≠ [] ∧ before image.1 = image.2)
    {path : Path} {image : WalFileImage} : (path, image) ∈ uncommitted (transactions (openRecords id images)) ↔
      path ∈ UndoLog.keys images ∧ image = imageOf (before path) := by
  have hempty : ∀ (path : Path) (image : WalFileImage),
      ({} : Transaction).beforeImages[path]? = some image → image = imageOf (before path) := by
    intro path image hlookup
    rw [Std.ExtTreeMap.getElem?_empty] at hlookup
    cases hlookup
  obtain ⟨hcommitted, hlookup⟩ := foldl_add_beforeRecords id himages {} hempty
  -- The BEGIN record changes nothing in the entry of the transaction.
  have hfold : (openRecords id images).foldl Transaction.add {} =
      (beforeRecords id images).foldl Transaction.add {} := rfl
  rw [mem_uncommitted]
  constructor
  · rintro ⟨id', transaction, hentry, -, himage⟩
    rw [openRecords, getElem?_transactions transactionId_of_mem_openRecords] at hentry
    split at hentry
    · obtain rfl := Option.some.inj hentry
      rw [← openRecords, hfold, hlookup] at himage
      split at himage
      · next hkey => exact ⟨hkey, (Option.some.inj himage).symm⟩
      · rw [Std.ExtTreeMap.getElem?_empty] at himage
        cases himage
    · cases hentry
  · rintro ⟨hkey, rfl⟩
    refine ⟨id, _, (getElem?_transactions transactionId_of_mem_openRecords id).trans (if_pos rfl), hcommitted, ?_⟩
    rw [← openRecords, hfold, hlookup, if_pos hkey]

/-- Recovery puts nothing back of a transaction whose commit record is in the log. -/
theorem uncommitted_of_commit (id : UInt64) (images : List (Path × Option Bytes)) :
    uncommitted (transactions (openRecords id images ++ [{ type := kCommit, transactionId := id }])) = [] := by
  rw [List.eq_nil_iff_forall_not_mem]
  rintro ⟨path, image⟩ hmem
  obtain ⟨id', transaction, hentry, hcommitted, -⟩ := mem_uncommitted.1 hmem
  have hids : ∀ record ∈ openRecords id images ++ [{ type := kCommit, transactionId := id }],
      record.transactionId = id :=
    List.forall_mem_append.2 ⟨transactionId_of_mem_openRecords, List.forall_mem_singleton.2 rfl⟩
  rw [openRecords, List.cons_append] at hentry hids
  rw [getElem?_transactions hids] at hentry
  split at hentry
  · obtain rfl := Option.some.inj hentry
    rw [← List.cons_append, List.foldl_append] at hcommitted
    cases hcommitted
  · cases hentry

/-! ### Transactions -/

/-- The contents of the files but the log. -/
def dataOf (files : Files) : Path → Option Bytes :=
  Function.update (contentOf files) walPath none

theorem dataOf_walPath (files : Files) : dataOf files walPath = none :=
  Function.update_self ..

theorem dataOf_of_ne (files : Files) {path : Path} (h : path ≠ walPath) : dataOf files path = contentOf files path :=
  Function.update_of_ne h _ _

/-- What is written to the log changes no data. -/
theorem dataOf_appendRecord (files : Files) (record : WalRecord) :
    dataOf ((appendRecord record).apply files) = dataOf files := by
  funext path
  by_cases hpath : path = walPath
  · rw [hpath, dataOf_walPath, dataOf_walPath]
  · rw [dataOf_of_ne _ hpath, dataOf_of_ne _ hpath]
    exact Write.apply_of_ne files hpath

/-- A write to another file than the log. -/
theorem dataOf_apply (files : Files) {write : Write} (h : write.path ≠ walPath) :
    dataOf (write.apply files) =
      Function.update (dataOf files) write.path (contentOf (write.apply files) write.path) := by
  funext path
  by_cases hpath : path = write.path
  · rw [hpath, Function.update_self, dataOf_of_ne _ h]
  · rw [Function.update_of_ne hpath]
    by_cases hwal : path = walPath
    · rw [hwal, dataOf_walPath, dataOf_walPath]
    · rw [dataOf_of_ne _ hwal, dataOf_of_ne _ hwal]
      exact Write.apply_of_ne files hpath

/-- The files, and the images that are in the log. -/
structure Journal where
  files : Files
  images : List (Path × Option Bytes) := []

namespace Journal

/-- One write of a transaction: the image of a file, once and before the file is written, or a write on a
file whose image is in the log. -/
inductive Step (id : UInt64) : Journal → Write → Journal → Prop where
  | log {j : Journal} (path : Path) (hnew : path ∉ UndoLog.keys j.images) (hne : path ≠ []) (hwal : path ≠ walPath)
    (hsize : Recordable (beforeRecord id path (contentOf j.files path))) :
    Step id j (logBefore id path (contentOf j.files path))
      ⟨(logBefore id path (contentOf j.files path)).apply j.files, j.images ++ [(path, contentOf j.files path)]⟩
  | write {j : Journal} (write : Write) (hlogged : write.path ∈ UndoLog.keys j.images) :
    Step id j write { j with files := write.apply j.files }

/-- The writes of a transaction so far. -/
inductive Run (id : UInt64) (start : Journal) : List Write → Journal → Prop where
  | nil : Run id start [] start
  | snoc {writes : List Write} {write : Write} {j j' : Journal} :
    Run id start writes j → Step id j write j' → Run id start (writes ++ [write]) j'

/-- A transaction that has written its BEGIN record. -/
def opened (id : UInt64) (files : Files) : Journal :=
  ⟨(begin id).apply files, []⟩

/-- The store of the undo log: the files but the log. -/
def undoState (j : Journal) : UndoLog.State Path (Option Bytes) :=
  ⟨dataOf j.files, j.images⟩

/-- What holds in the course of a transaction on a database without a log. -/
structure IsOpen (id : UInt64) (before : Files) (j : Journal) : Prop where
  undoable : UndoLog.Undoable (contentOf before) j.undoState
  paths : ∀ image ∈ j.images, image.1 ≠ [] ∧ image.1 ≠ walPath
  sizes : ∀ record ∈ openRecords id j.images, Recordable record
  log : contentOf j.files walPath = some (format.write (openRecords id j.images))

end Journal

/-- Recovery gives the files of the beginning when all images are of them and the other files are as they
were. -/
theorem recoversTo_eq {files before : Files} (hquiet : contentOf before walPath = none)
    (himages : ∀ image ∈ pending files, image.1 ≠ walPath ∧ contentOf before image.1 = image.2.content)
    (hagree : ∀ path ≠ walPath, (∀ image ∈ pending files, image.1 ≠ path) →
      contentOf files path = contentOf before path) : RecoversTo files before := by
  refine ⟨fun image hmem ↦ (himages image hmem).1, ext_contentOf (funext fun path ↦ ?_)⟩
  rw [contentOf_recoverFiles]
  by_cases hwal : path = walPath
  · rw [hwal, Function.update_self, hquiet]
  · rw [Function.update_of_ne hwal]
    by_cases hkey : path ∈ UndoLog.keys (contents (pending files))
    · refine UndoLog.restore_of_mem (fun image hmem ↦ ?_) hkey _
      obtain ⟨file, hfile, rfl⟩ := List.mem_map.1 hmem
      exact (himages file hfile).2
    · rw [UndoLog.restore_of_not_mem hkey]
      exact hagree path hwal fun image hmem heq ↦ hkey (mem_keys_contents.2 ⟨image, hmem, heq⟩)

/-- What is pending is read from the log. -/
theorem pending_of_some {files : Files} {log : Bytes} (h : contentOf files walPath = some log) :
    pending files = uncommitted (transactions (format.records log)) := by
  rw [pending, h]
  rfl

/-- A log that names nothing to put back. -/
theorem recoversTo_of_pending_nil {files before : Files} (hquiet : contentOf before walPath = none)
    (hpending : pending files = []) (hagree : ∀ path ≠ walPath, contentOf files path = contentOf before path) :
    RecoversTo files before := by
  refine recoversTo_eq hquiet ?_ fun path hpath _ ↦ hagree path hpath
  rw [hpending]
  exact List.forall_mem_nil _

/-- A log whose records are those of an open transaction. -/
theorem recoversTo_of_openRecords {files before : Files} {id : UInt64} {images : List (Path × Option Bytes)}
    {log : Bytes} (hquiet : contentOf before walPath = none)
    (himages : ∀ image ∈ images, image.1 ≠ [] ∧ contentOf before image.1 = image.2)
    (hpaths : ∀ path ∈ UndoLog.keys images, path ≠ walPath)
    (hlog : contentOf files walPath = some log) (hrecords : format.records log = openRecords id images)
    (hagree : ∀ path ≠ walPath, path ∉ UndoLog.keys images → contentOf files path = contentOf before path) :
    RecoversTo files before := by
  have hmem {path : Path} {image : WalFileImage} : (path, image) ∈ pending files ↔
      path ∈ UndoLog.keys images ∧ image = imageOf (contentOf before path) := by
    rw [pending_of_some hlog, hrecords, mem_uncommitted_openRecords himages]
  refine recoversTo_eq hquiet ?_ ?_
  · rintro ⟨path, image⟩ himage
    obtain ⟨hkey, himage⟩ := hmem.1 himage
    exact ⟨hpaths path hkey, by rw [himage, content_imageOf]⟩
  · intro path hpath hnone
    exact hagree path hpath fun hkey ↦ hnone (path, _) (hmem.2 ⟨hkey, rfl⟩) rfl

namespace Journal

variable {id : UInt64} {before : Files} {j j' : Journal} {write : Write} {writes : List Write}

theorem IsOpen.images (h : IsOpen id before j) :
    ∀ image ∈ j.images, image.1 ≠ [] ∧ contentOf before image.1 = image.2 := fun image hmem ↦
  ⟨(h.paths image hmem).1, h.undoable.images image hmem⟩

/-- A file without an image is as before. -/
theorem IsOpen.agree (h : IsOpen id before j) :
    ∀ path ≠ walPath, path ∉ UndoLog.keys j.images → contentOf j.files path = contentOf before path := by
  intro path hpath hkey
  rw [← h.undoable.agree path hkey]
  exact (dataOf_of_ne _ hpath).symm

theorem IsOpen.delimits (h : IsOpen id before j) : ∀ record ∈ openRecords id j.images, format.Delimits record :=
  fun record hmem ↦ (h.sizes record hmem).delimits

/-- No image is one of the log. -/
theorem IsOpen.path_ne_walPath (h : IsOpen id before j) {path : Path} (hkey : path ∈ UndoLog.keys j.images) :
    path ≠ walPath := by
  obtain ⟨image, himage, rfl⟩ := List.mem_map.1 hkey
  exact (h.paths image himage).2

theorem recordable_begin (id : UInt64) : Recordable { type := kBegin, transactionId := id } :=
  ⟨show 0 < 2 ^ 32 by decide, show 0 < 2 ^ 64 by decide⟩

theorem recordable_commit (id : UInt64) : Recordable { type := kCommit, transactionId := id } :=
  ⟨show 0 < 2 ^ 32 by decide, show 0 < 2 ^ 64 by decide⟩

/-- A record is appended to the log. -/
theorem contentOf_appendRecord (files : Files) (record : WalRecord) :
    contentOf ((appendRecord record).apply files) walPath =
      some ((contentOf files walPath).getD [] ++ encodeRecord record) :=
  contentOf_append files walPath _

/-- A transaction that has just begun is open. -/
theorem isOpen_opened (id : UInt64) (hquiet : contentOf before walPath = none) :
    IsOpen id before (opened id before) where
  undoable := by
    refine ⟨List.forall_mem_nil _, fun path _ ↦ ?_⟩
    show dataOf ((appendRecord _).apply before) path = _
    rw [dataOf_appendRecord]
    by_cases hpath : path = walPath
    · rw [hpath, dataOf_walPath, hquiet]
    · exact dataOf_of_ne before hpath
  paths := List.forall_mem_nil _
  sizes := List.forall_mem_singleton.2 (recordable_begin id)
  log := by
    rw [opened, begin, contentOf_appendRecord, hquiet]
    rfl

/-- A write of the transaction is a step of the undo log. -/
theorem Step.undo (h : IsOpen id before j) (hstep : Step id j write j') :
    UndoLog.Step j.undoState j'.undoState := by
  cases hstep with
  | log path hnew hne hwal hsize =>
    have hlogged : UndoLog.Step ⟨dataOf j.files, j.images⟩
        ⟨dataOf j.files, j.images ++ [(path, dataOf j.files path)]⟩ := .log path hnew
    rw [dataOf_of_ne _ hwal] at hlogged
    rw [undoState, undoState, logBefore, dataOf_appendRecord]
    exact hlogged
  | write write hlogged =>
    rw [undoState, undoState, dataOf_apply _ (h.path_ne_walPath hlogged)]
    exact .write write.path _ hlogged

/-- It stays open at every step. -/
theorem IsOpen.step (h : IsOpen id before j) (hstep : Step id j write j') : IsOpen id before j' where
  undoable := h.undoable.step (hstep.undo h)
  paths := by
    cases hstep with
    | log path hnew hne hwal hsize =>
      exact List.forall_mem_append.2 ⟨h.paths, List.forall_mem_singleton.2 ⟨hne, hwal⟩⟩
    | write write hlogged => exact h.paths
  sizes := by
    cases hstep with
    | log path hnew hne hwal hsize =>
      rw [openRecords_snoc]
      exact List.forall_mem_append.2 ⟨h.sizes, List.forall_mem_singleton.2 hsize⟩
    | write write hlogged => exact h.sizes
  log := by
    cases hstep with
    | log path hnew hne hwal hsize =>
      rw [logBefore, contentOf_appendRecord, h.log, openRecords_snoc, write_snoc]
      rfl
    | write write hlogged =>
      exact (Write.apply_of_ne j.files (h.path_ne_walPath hlogged).symm).trans h.log

/-- A transaction stays open through every run. -/
theorem Run.isOpen (hrun : Run id (opened id before) writes j) (hquiet : contentOf before walPath = none) :
    IsOpen id before j := by
  induction hrun with
  | nil => exact isOpen_opened id hquiet
  | snoc _ hstep ih => exact ih.step hstep

/-- Recovery between two writes of the transaction. -/
theorem IsOpen.recovers (h : IsOpen id before j) (hquiet : contentOf before walPath = none) :
    RecoversTo j.files before :=
  recoversTo_of_openRecords hquiet h.images (fun _ ↦ h.path_ne_walPath) h.log
    (format.records_of_write (fun record hmem ↦ h.delimits record hmem)) h.agree

/-- Recovery within a write of the transaction. A record that was cut off is not read; a file that was cut
off has its image in the log. -/
theorem IsOpen.recovers_cut (h : IsOpen id before j) (hstep : Step id j write j')
    (hquiet : contentOf before walPath = none) (k : Nat) :
    RecoversTo ((write.cut k).apply j.files) before := by
  have hnext := h.step hstep
  cases hstep with
  | log path hnew hne hwal hsize =>
    have hlog : contentOf (((logBefore id path (contentOf j.files path)).cut k).apply j.files) walPath =
        some (format.write (openRecords id j.images) ++
          (encodeRecord (beforeRecord id path (contentOf j.files path))).take k) := by
      refine (contentOf_append j.files walPath _).trans ?_
      rw [h.log]
      rfl
    have hrecords := format.records_torn h.delimits hsize.delimits k
    have hagree : ∀ path' ≠ walPath, contentOf
        (((logBefore id path (contentOf j.files path)).cut k).apply j.files) path' = contentOf j.files path' :=
      fun path' hpath' ↦ Write.apply_of_ne j.files hpath'
    -- Whole, the record only adds an image of a file that is not written yet; torn, it is not read.
    split at hrecords
    · rw [← openRecords_snoc] at hrecords
      exact recoversTo_of_openRecords hquiet hnext.images (fun _ ↦ hnext.path_ne_walPath) hlog hrecords
        fun path' hpath' hkey ↦ (hagree path' hpath').trans
          (h.agree path' hpath' fun hold ↦ hkey (by
            rw [UndoLog.keys, List.map_append]
            exact List.mem_append_left _ hold))
    · exact recoversTo_of_openRecords hquiet h.images (fun _ ↦ h.path_ne_walPath) hlog hrecords fun path' hpath' hkey ↦
        (hagree path' hpath').trans (h.agree path' hpath' hkey)
  | write write hlogged =>
    -- However much of the write is done, it is done to a file whose image is put back.
    have hpath := write.path_cut k
    have hlog : contentOf ((write.cut k).apply j.files) walPath = some (format.write (openRecords id j.images)) := by
      rw [Write.apply_of_ne j.files (by rw [hpath]; exact (h.path_ne_walPath hlogged).symm), h.log]
    refine recoversTo_of_openRecords hquiet h.images (fun _ ↦ h.path_ne_walPath) hlog
      (format.records_of_write h.delimits) fun path' hpath' hkey ↦ ?_
    rw [Write.apply_of_ne j.files (by rw [hpath]; exact fun heq ↦ hkey (heq ▸ hlogged))]
    exact h.agree path' hpath' hkey

/-! ### Crashes -/

/-- The files that the writes lead to. -/
theorem Run.files_eq (hrun : Run id (opened id before) writes j) : applyAll before (begin id :: writes) = j.files := by
  induction hrun with
  | nil => rfl
  | snoc _ hstep ih =>
    rw [← List.cons_append, applyAll_append, ih]
    cases hstep <;> rfl

/-- A crash within the BEGIN record. -/
theorem recovers_cut_begin (id : UInt64) (hquiet : contentOf before walPath = none) (k : Nat) :
    RecoversTo (((begin id).cut k).apply before) before := by
  have hagree : ∀ path ≠ walPath, contentOf (((begin id).cut k).apply before) path = contentOf before path :=
    fun path hpath ↦ Write.apply_of_ne before hpath
  have hlog : contentOf (((begin id).cut k).apply before) walPath =
      some ((encodeRecord { type := kBegin, transactionId := id }).take k) := by
    refine (contentOf_append before walPath _).trans ?_
    rw [hquiet]
    rfl
  have hrecords := format.records_torn (List.forall_mem_nil _) (recordable_begin id).delimits k
  split at hrecords
  · exact @recoversTo_of_openRecords _ before id [] _ hquiet (List.forall_mem_nil _) (List.forall_mem_nil _) hlog
      hrecords fun path hpath _ ↦ hagree path hpath
  · refine recoversTo_of_pending_nil hquiet ?_ hagree
    rw [pending_of_some hlog]
    exact congrArg (fun records ↦ uncommitted (transactions records)) hrecords

/-- Wherever a crash stops a transaction that has not committed, recovery gives the files of its beginning. -/
theorem Run.recovers_crash (hrun : Run id (opened id before) writes j)
    (hquiet : contentOf before walPath = none) (n : Nat) (torn : Option Nat) :
    RecoversTo (crashAfter before (begin id :: writes) n torn) before := by
  rw [crashAfter_eq]
  induction hrun generalizing n with
  | nil =>
    rcases cutShort_singleton (begin id) n torn with hcut | hcut | ⟨k, -, -, hcut⟩
    · rw [hcut]
      exact (isOpen_opened id hquiet).recovers hquiet
    · rw [hcut]
      exact .of_no_log hquiet
    · rw [hcut]
      exact recovers_cut_begin id hquiet k
  | @snoc writes write j j' hrun hstep ih =>
    have hopen := hrun.isOpen hquiet
    rw [← List.cons_append]
    by_cases hn : n < (begin id :: writes).length
    · rw [cutShort_of_lt hn]
      exact ih n
    · rw [cutShort_of_le (Nat.le_of_not_lt hn), applyAll_append, hrun.files_eq]
      rcases cutShort_singleton write (n - (begin id :: writes).length) torn with hcut | hcut | ⟨k, -, -, hcut⟩
      · rw [hcut]
        have hnext : applyAll j.files [write] = j'.files := by cases hstep <;> rfl
        rw [hnext]
        exact (hopen.step hstep).recovers hquiet
      · rw [hcut]
        exact hopen.recovers hquiet
      · rw [hcut]
        exact hopen.recovers_cut hstep hquiet k

/-! ### The commit record -/

/-- Neither the write nor a part of it is the commit record. -/
structure NotCommit (id : UInt64) (write : Write) : Prop where
  whole : write ≠ commit id
  cut : ∀ k, write.cut k ≠ commit id

theorem notCommit_of_ne {write : Write} (h : write.path ≠ walPath) : NotCommit id write where
  whole heq := h (heq ▸ rfl)
  cut k heq := h (by rw [← write.path_cut k, heq]; rfl)

/-- Another record commits nothing. -/
theorem notCommit_appendRecord {record : WalRecord} (h : record.type ≠ kCommit) :
    NotCommit id (appendRecord record) where
  whole heq := h (List.cons.inj (Write.append.inj heq).2).1
  cut k heq := by
    obtain ⟨-, hbytes⟩ := Write.append.inj heq
    cases k with
    | zero => cases hbytes
    | succ k => exact h (List.cons.inj hbytes).1

/-- No write of an open transaction commits it. -/
theorem Run.notCommit (hrun : Run id (opened id before) writes j) (hquiet : contentOf before walPath = none) :
    ∀ write ∈ begin id :: writes, NotCommit id write := by
  induction hrun with
  | nil => exact List.forall_mem_singleton.2 (notCommit_appendRecord (show kBegin ≠ kCommit by decide))
  | snoc hrun hstep ih =>
    rw [← List.cons_append]
    refine List.forall_mem_append.2 ⟨ih, List.forall_mem_singleton.2 ?_⟩
    cases hstep with
    | log path hnew hne hwal hsize => exact notCommit_appendRecord (show kFileBefore ≠ kCommit by decide)
    | write write hlogged => exact notCommit_of_ne ((hrun.isOpen hquiet).path_ne_walPath hlogged)

/-- What a crash leaves of the writes before the commit record has no commit record. -/
theorem commit_notMem_cutShort (h : ∀ write ∈ writes, NotCommit id write) (n : Nat) (torn : Option Nat) :
    commit id ∉ cutShort writes n torn := by
  intro hmem
  rcases List.mem_append.1 hmem with hmem | hmem
  · exact (h _ (List.mem_of_mem_take hmem)).whole rfl
  · obtain ⟨k, -, hcut⟩ := Option.bind_eq_some_iff.1 (Option.mem_toList.1 hmem)
    obtain ⟨next, hnext, hcut⟩ := Option.map_eq_some_iff.1 hcut
    exact (h next (List.mem_of_getElem? hnext)).cut k hcut

/-- Recovery from a log with the commit record keeps the files. -/
theorem IsOpen.recovers_commit (h : IsOpen id before j) :
    RecoversTo ((commit id).apply j.files) (checkpoint.apply ((commit id).apply j.files)) := by
  have hlog : contentOf ((commit id).apply j.files) walPath =
      some (format.write (openRecords id j.images ++ [{ type := kCommit, transactionId := id }])) := by
    rw [commit, contentOf_appendRecord, h.log, write_snoc]
    rfl
  have hall : ∀ record ∈ openRecords id j.images ++ [{ type := kCommit, transactionId := id }],
      format.Delimits record :=
    List.forall_mem_append.2 ⟨h.delimits, List.forall_mem_singleton.2 (recordable_commit id).delimits⟩
  refine recoversTo_of_pending_nil (contentOf_remove _ walPath) ?_ fun path hpath ↦
    (@Write.apply_of_ne _ checkpoint path hpath).symm
  rw [pending_of_some hlog, format.records_of_write hall, uncommitted_of_commit]

/-- Recovery from a torn commit record. -/
theorem IsOpen.recovers_torn (h : IsOpen id before j) (hquiet : contentOf before walPath = none) {k : Nat}
    (hk : ¬(encodeRecord { type := kCommit, transactionId := id }).length ≤ k) :
    RecoversTo (((commit id).cut k).apply j.files) before := by
  have hlog : contentOf (((commit id).cut k).apply j.files) walPath = some (format.write (openRecords id j.images) ++
      (encodeRecord { type := kCommit, transactionId := id }).take k) := by
    refine (contentOf_append j.files walPath _).trans ?_
    rw [h.log]
    rfl
  have hrecords := format.records_torn h.delimits (recordable_commit id).delimits k
  exact recoversTo_of_openRecords hquiet h.images (fun _ ↦ h.path_ne_walPath) hlog (hrecords.trans (if_neg hk))
    fun path hpath hkey ↦ (@Write.apply_of_ne j.files ((commit id).cut k) path hpath).trans (h.agree path hpath hkey)

/-- A crash behind the last write of the transaction. -/
theorem IsOpen.recovers_committing (h : IsOpen id before j) (hquiet : contentOf before walPath = none) (m : Nat)
    (torn : Option Nat) :
    (commit id ∈ cutShort [commit id, checkpoint] m torn ∧
        RecoversTo (applyAll j.files (cutShort [commit id, checkpoint] m torn))
          (applyAll j.files [commit id, checkpoint])) ∨
      (commit id ∉ cutShort [commit id, checkpoint] m torn ∧
        RecoversTo (applyAll j.files (cutShort [commit id, checkpoint] m torn)) before) := by
  have hfinal : RecoversTo (applyAll j.files [commit id, checkpoint]) (applyAll j.files [commit id, checkpoint]) :=
    .of_no_log (contentOf_remove _ walPath)
  rw [show [commit id, checkpoint] = [commit id] ++ [checkpoint] from rfl] at hfinal ⊢
  -- The commit record is the point of no return: before it is whole, the images are put back.
  by_cases hm : m < 1
  · rw [cutShort_of_lt hm]
    rcases cutShort_singleton (commit id) m torn with hcut | hcut | ⟨k, -, -, hcut⟩ <;> rw [hcut]
    · exact .inl ⟨List.mem_cons_self, h.recovers_commit⟩
    · exact .inr ⟨List.not_mem_nil, h.recovers hquiet⟩
    · by_cases hk : (encodeRecord { type := kCommit, transactionId := id }).length ≤ k
      · have hwhole : (commit id).cut k = commit id := congrArg (Write.append walPath) (List.take_of_length_le hk)
        rw [hwhole]
        exact .inl ⟨List.mem_cons_self, h.recovers_commit⟩
      · refine .inr ⟨fun hmem ↦ hk ?_, h.recovers_torn hquiet hk⟩
        have hbytes := (Write.append.inj (List.mem_singleton.1 hmem)).2
        exact (List.take_eq_self_iff _).1 hbytes.symm
  · rw [cutShort_of_le (Nat.le_of_not_lt hm)]
    refine .inl ⟨List.mem_append_left _ List.mem_cons_self, ?_⟩
    rcases cutShort_singleton checkpoint (m - 1) torn with hcut | hcut | ⟨k, -, -, hcut⟩ <;>
      rw [List.length_singleton, hcut]
    · exact hfinal
    · exact h.recovers_commit
    · exact hfinal

/-- Wherever a crash stops a transaction that commits, recovery gives its last files when the commit record is
whole, and the files of its beginning when it is not. -/
theorem Run.recovers_crash_commit (hrun : Run id (opened id before) writes j)
    (hquiet : contentOf before walPath = none) (n : Nat) (torn : Option Nat) :
    let all := begin id :: writes ++ [commit id, checkpoint]
    (commit id ∈ cutShort all n torn ∧ RecoversTo (crashAfter before all n torn) (applyAll before all)) ∨
      (commit id ∉ cutShort all n torn ∧ RecoversTo (crashAfter before all n torn) before) := by
  dsimp only
  have hnot := hrun.notCommit hquiet
  rw [crashAfter_eq]
  by_cases hn : n < (begin id :: writes).length
  · rw [cutShort_of_lt hn]
    refine .inr ⟨commit_notMem_cutShort hnot n torn, ?_⟩
    rw [← crashAfter_eq]
    exact hrun.recovers_crash hquiet n torn
  · have hnone : commit id ∉ begin id :: writes := fun hmem ↦ (hnot _ hmem).whole rfl
    rw [cutShort_of_le (Nat.le_of_not_lt hn), applyAll_append, applyAll_append, hrun.files_eq, List.mem_append,
      or_iff_right hnone]
    exact (hrun.isOpen hquiet).recovers_committing hquiet _ torn

end Journal

end NativeWal

end SkibidiQL
