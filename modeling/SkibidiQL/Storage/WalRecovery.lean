import SkibidiQL.Base.UndoLog
import SkibidiQL.Storage.DiskWrites
import SkibidiQL.Storage.NativeWal

/-!
# Recovery from the log

The records of a log that was cut off anywhere are those that are whole in it (`records_of_truncated_log`). Recovery
puts images back and may be stopped at any point: as long as no image is of the log itself, recovering
again does what recovering in one go does (`RecoversTo.of_interrupted`).
-/

namespace SkibidiQL

namespace NativeWal

/-! ### Records -/

/-- The sizes fit into their fields. -/
structure Recordable (record : WalRecord) : Prop where
  path : record.relativePath.length < 2 ^ 32
  bytes : record.bytes.length < 2 ^ 64

instance (record : WalRecord) : Decidable (Recordable record) :=
  decidable_of_iff (record.relativePath.length < 2 ^ 32 ∧ record.bytes.length < 2 ^ 64)
    ⟨fun h ↦ ⟨h.1, h.2⟩, fun h ↦ ⟨h.1, h.2⟩⟩

theorem stable_readPod (size : Nat) : FrontReader.Stable (readPod size) :=
  (FrontReader.Stable.take size).bind fun _ ↦ .pure _

/-- A record is read alike whatever follows. -/
theorem stable_readRecord : FrontReader.Stable readRecord :=
  (stable_readPod _).bind fun _ ↦ (stable_readPod _).bind fun _ ↦ (stable_readPod _).bind fun _ ↦
    (stable_readPod _).bind fun _ ↦ (stable_readPod _).bind fun _ ↦ (FrontReader.Stable.take _).bind fun _ ↦
      (FrontReader.Stable.take _).bind fun _ ↦ .pure _

/-- A fixed-width field is read back. -/
theorem readPod_encode {size n : Nat} (h : n < 256 ^ size) (rest : Bytes) :
    readPod size (LittleEndian.encode size n ++ rest) = some (n, rest) := by
  rw [readPod, FrontReader.bind_of_eq (FrontReader.take_append (LittleEndian.length_encode size n) rest),
    LittleEndian.decode_encode_of_lt h]
  rfl

/-- A byte is read back. -/
theorem readPod_byte (b : UInt8) (rest : Bytes) : readPod 1 (b :: rest) = some (b.toNat, rest) := by
  have htake : FrontReader.take 1 (b :: rest) = some ([b], rest) :=
    @FrontReader.take_append UInt8 1 [b] rfl rest
  rw [readPod, FrontReader.bind_of_eq htake]
  rfl

/-- A record is read back. -/
theorem readRecord_encode {record : WalRecord} (h : Recordable record) :
    readRecord (encodeRecord record) = some (record, []) := by
  have hid : record.transactionId.toNat < 256 ^ 8 := record.transactionId.toNat_lt
  have hexisted : ((if record.existed then 1 else 0 : UInt8).toNat != 0) = record.existed := by
    cases record.existed <;> rfl
  have hbytes : FrontReader.take record.bytes.length record.bytes = some (record.bytes, []) := by
    simpa using FrontReader.take_append (rfl : record.bytes.length = _) []
  simp only [encodeRecord, List.cons_append, List.append_assoc, List.nil_append]
  rw [readRecord, FrontReader.bind_of_eq (readPod_byte _ _), FrontReader.bind_of_eq (readPod_encode hid _),
    FrontReader.bind_of_eq (readPod_encode (h.path.trans_eq (by decide)) _),
    FrontReader.bind_of_eq (readPod_encode (h.bytes.trans_eq (by decide)) _),
    FrontReader.bind_of_eq (readPod_byte _ _), FrontReader.bind_of_eq (FrontReader.take_append rfl _),
    FrontReader.bind_of_eq hbytes, hexisted, UInt8.ofNat_toNat, UInt64.ofNat_toNat]
  rfl

/-- A record is read back, and no part of it is read as a record. -/
theorem Recordable.delimits {record : WalRecord} (h : Recordable record) : format.Delimits record :=
  .of_stable (List.cons_ne_nil _ _) stable_readRecord (readRecord_encode h)

/-- A log that was cut off anywhere reads as the records that are whole in it. -/
theorem records_of_truncated_log {records : List WalRecord} (h : ∀ record ∈ records, Recordable record) (n : Nat) :
    format.records ((format.write records).take n) = records.take (format.wholeIn n records) :=
  format.records_take (fun record hmem ↦ (h record hmem).delimits) n

/-- A transaction with an image of the catalog. -/
def catalogRecords : List WalRecord :=
  [{ type := kBegin, transactionId := 1 }, beforeRecord 1 (lit "catalog.json") (some [123, 125])]

theorem records_of_truncated_log_catalog : format.records ((format.write catalogRecords).take 40) =
    catalogRecords.take (format.wholeIn 40 catalogRecords) :=
  records_of_truncated_log (by decide) 40

/-! ### Putting images back -/

/-- The content that an image stands for. -/
def WalFileImage.content (image : WalFileImage) : Option Bytes :=
  if image.existed then some image.bytes else none

/-- The images with the contents that they stand for. -/
def contents (images : List (Path × WalFileImage)) : List (Path × Option Bytes) :=
  images.map fun file ↦ (file.1, file.2.content)

/-- The writes that put images back. -/
def restores (images : List (Path × WalFileImage)) : List Write :=
  images.flatMap fun file ↦ restoreFile file.1 file.2

/-- The contents have the paths of the images. -/
theorem mem_keys_contents {images : List (Path × WalFileImage)} {path : Path} :
    path ∈ UndoLog.keys (contents images) ↔ ∃ image ∈ images, image.1 = path := by
  rw [UndoLog.keys, contents, List.map_map, List.mem_map]
  rfl

/-- Restoring a file writes to it only. -/
theorem path_of_mem_restoreFile {path : Path} {image : WalFileImage} {write : Write}
    (h : write ∈ restoreFile path image) : write.path = path := by
  rw [restoreFile] at h
  split at h
  · rcases List.mem_cons.1 h with rfl | h
    · rfl
    · split at h
      · cases h
      · rw [List.mem_singleton.1 h, Write.path]
  · rw [List.mem_singleton.1 h, Write.path]

/-- Every write of a recovery restores an image. -/
theorem exists_of_mem_restores {images : List (Path × WalFileImage)} {write : Write}
    (h : write ∈ restores images) : ∃ image ∈ images, write.path = image.1 := by
  obtain ⟨image, himage, hwrite⟩ := List.mem_flatMap.1 h
  exact ⟨image, himage, path_of_mem_restoreFile hwrite⟩

/-- Restoring a file gives it the content of the image. -/
theorem contentOf_restoreFile (files : Files) (path : Path) (image : WalFileImage) :
    contentOf (applyAll files (restoreFile path image)) =
      Function.update (contentOf files) path image.content := by
  funext other
  by_cases hother : other = path
  · subst hother
    rw [Function.update_self, restoreFile, WalFileImage.content]
    split
    · split
      · next hempty =>
        rw [List.isEmpty_iff.1 hempty]
        exact Std.ExtTreeMap.getElem?_insert_self
      · exact contentOf_rewrite files other image.bytes
    · exact contentOf_remove files other
  · rw [Function.update_of_ne hother]
    refine applyAll_of_not_mem (fun write hwrite ↦ ?_) files
    rwa [path_of_mem_restoreFile hwrite]

/-- Writes that set one file after another. -/
theorem contentOf_flatMap {α : Type} (items : List α) (writes : α → List Write) (image : α → Path × Option Bytes)
    (hwrites : ∀ item files, contentOf (applyAll files (writes item)) =
      Function.update (contentOf files) (image item).1 (image item).2) (files : Files) :
    contentOf (applyAll files (items.flatMap writes)) =
      UndoLog.restore (contentOf files) (items.map image) := by
  induction items generalizing files with
  | nil => rfl
  | cons item items ih =>
    rw [List.flatMap_cons, applyAll_append]
    refine (ih _).trans ?_
    rw [hwrites]
    rfl

theorem contentOf_restores (files : Files) (images : List (Path × WalFileImage)) :
    contentOf (applyAll files (restores images)) = UndoLog.restore (contentOf files) (contents images) :=
  contentOf_flatMap images _ _ (fun file files ↦ contentOf_restoreFile files file.1 file.2) files

/-! ### Recovery -/

/-- The files after recovery. -/
def recoverFiles (files : Files) : Files :=
  applyAll files (recoverWrites files)

/-- The images that recovery finds in the log. -/
def pending (files : Files) : List (Path × WalFileImage) :=
  ((contentOf files walPath).map fun log ↦ uncommitted (transactions (format.records log))).getD []

/-- Writes are performed on the files. -/
theorem foldl_perform (disk : Disk) (writes : List Write) : writes.foldl Disk.perform disk =
    { disk with files := applyAll disk.files writes, trace := disk.trace ++ writes } := by
  induction writes generalizing disk with
  | nil => rw [List.foldl_nil, List.append_nil]; rfl
  | cons write writes ih => rw [List.foldl_cons, ih, Disk.perform, List.append_assoc]; rfl

theorem recover_files (disk : Disk) : (recover disk).files = recoverFiles disk.files := by
  rw [recover, foldl_perform, recoverFiles]

theorem recoverWrites_of_none {files : Files} (h : contentOf files walPath = none) : recoverWrites files = [] := by
  rw [recoverWrites, show files[walPath]? = none from h]

theorem pending_of_none {files : Files} (h : contentOf files walPath = none) : pending files = [] := by
  rw [pending, h]
  rfl

/-- With a log the pending images are restored and the log is cleared. -/
theorem recoverWrites_of_some {files : Files} {log : Bytes} (h : contentOf files walPath = some log) :
    recoverWrites files = restores (pending files) ++ [checkpoint] := by
  rw [pending, h, recoverWrites, show files[walPath]? = some log from h]
  rfl

/-- Recovery puts the images back and removes the log. -/
theorem contentOf_recoverFiles (files : Files) : contentOf (recoverFiles files) =
    Function.update (UndoLog.restore (contentOf files) (contents (pending files))) walPath none := by
  cases hlog : contentOf files walPath with
  | none =>
    rw [recoverFiles, recoverWrites_of_none hlog, pending_of_none hlog]
    exact (Function.update_eq_self_iff.2 hlog.symm).symm
  | some log =>
    rw [recoverFiles, recoverWrites_of_some hlog, applyAll_append, ← contentOf_restores]
    funext path
    by_cases hpath : path = walPath
    · rw [hpath, Function.update_self]
      exact contentOf_remove _ walPath
    · rw [Function.update_of_ne hpath]
      exact @Write.apply_of_ne _ checkpoint path hpath

/-- Recovery that a crash stopped. -/
def Interrupted (files files' : Files) : Prop :=
  ∃ n torn, files' = crashAfter files (recoverWrites files) n torn

/-- Whatever has been written to files whose images are in the log, recovery does the same. -/
theorem recoverFiles_applyAll {files : Files} (hlog : ∀ image ∈ pending files, image.1 ≠ walPath)
    {writes : List Write} (hwrites : ∀ write ∈ writes, ∃ image ∈ pending files, write.path = image.1) :
    pending (applyAll files writes) = pending files ∧
      recoverFiles (applyAll files writes) = recoverFiles files := by
  have hkept {path : Path} (hpath : path ∉ UndoLog.keys (contents (pending files))) :
      contentOf (applyAll files writes) path = contentOf files path := by
    refine applyAll_of_not_mem (fun write hwrite heq ↦ ?_) files
    obtain ⟨image, himage, hpath'⟩ := hwrites write hwrite
    exact hpath (mem_keys_contents.2 ⟨image, himage, (heq.trans hpath').symm⟩)
  have hwal : walPath ∉ UndoLog.keys (contents (pending files)) := by
    rw [mem_keys_contents]
    rintro ⟨image, himage, hpath⟩
    exact hlog image himage hpath
  have hpending : pending (applyAll files writes) = pending files := by
    rw [pending, hkept hwal, pending]
  refine ⟨hpending, ext_contentOf ?_⟩
  rw [contentOf_recoverFiles, contentOf_recoverFiles, hpending, UndoLog.restore_congr fun path ↦ hkept]

/-- Recovery that is stopped finds the same images again, or it was done. -/
theorem Interrupted.again {files files' : Files} (hlog : ∀ image ∈ pending files, image.1 ≠ walPath)
    (h : Interrupted files files') :
    (∀ image ∈ pending files', image.1 ≠ walPath) ∧ recoverFiles files' = recoverFiles files := by
  obtain ⟨n, torn, rfl⟩ := h
  rw [crashAfter_eq]
  have hpart {writes : List Write} (hwrites : ∀ write ∈ writes, ∃ image ∈ pending files, write.path = image.1) :
      (∀ image ∈ pending (applyAll files writes), image.1 ≠ walPath) ∧
        recoverFiles (applyAll files writes) = recoverFiles files := by
    obtain ⟨hpending, hfiles⟩ := recoverFiles_applyAll hlog hwrites
    exact ⟨hpending ▸ hlog, hfiles⟩
  cases hcontent : contentOf files walPath with
  | none =>
    rw [recoverWrites_of_none hcontent]
    refine hpart fun write hwrite ↦ ?_
    obtain ⟨write', hwrite', -⟩ := exists_of_mem_cutShort hwrite
    cases hwrite'
  | some log =>
    -- Once the log is removed there is nothing left to recover.
    have hdone : (∀ image ∈ pending (recoverFiles files), image.1 ≠ walPath) ∧
        recoverFiles (recoverFiles files) = recoverFiles files := by
      have hnone : contentOf (recoverFiles files) walPath = none := by
        rw [contentOf_recoverFiles, Function.update_self]
      rw [pending_of_none hnone]
      exact ⟨List.forall_mem_nil _, by rw [recoverFiles, recoverWrites_of_none hnone]; rfl⟩
    have hwrites := recoverWrites_of_some hcontent
    rw [hwrites]
    -- Until the log is removed, recovery begins again with the same images.
    by_cases hn : n < (restores (pending files)).length
    · rw [cutShort_of_lt hn]
      refine hpart fun write hwrite ↦ ?_
      obtain ⟨write', hwrite', hpath⟩ := exists_of_mem_cutShort hwrite
      rw [hpath]
      exact exists_of_mem_restores hwrite'
    · rw [cutShort_of_le (Nat.le_of_not_lt hn)]
      rcases cutShort_singleton checkpoint (n - (restores (pending files)).length) torn with
        hlast | hlast | ⟨k, -, -, hlast⟩
      · rw [hlast, ← hwrites]
        exact hdone
      · rw [hlast, List.append_nil]
        exact hpart fun write ↦ exists_of_mem_restores
      · rw [hlast, show checkpoint.cut k = checkpoint from rfl, ← hwrites]
        exact hdone

/-- Recovery of these files gives those, and may be stopped and begun again. -/
structure RecoversTo (files before : Files) : Prop where
  images : ∀ image ∈ pending files, image.1 ≠ walPath
  files : recoverFiles files = before

/-- However often recovery is stopped and begun again, it does what it does in one go. -/
theorem RecoversTo.of_interrupted {files files' before : Files} (h : RecoversTo files before)
    (hinterrupted : Relation.ReflTransGen Interrupted files files') : RecoversTo files' before := by
  induction hinterrupted with
  | refl => exact h
  | tail _ hstep ih =>
    obtain ⟨himages, hfiles⟩ := hstep.again ih.images
    exact ⟨himages, hfiles.trans ih.files⟩

/-- A database without a log. -/
theorem RecoversTo.of_no_log {files : Files} (h : contentOf files walPath = none) : RecoversTo files files where
  images := by
    rw [pending_of_none h]
    exact List.forall_mem_nil _
  files := by
    rw [recoverFiles, recoverWrites_of_none h]
    rfl

end NativeWal

end SkibidiQL
