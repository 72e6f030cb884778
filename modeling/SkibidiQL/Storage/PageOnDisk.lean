import SkibidiQL.Storage.PoolInvariant

/-!
# Pages of a file of any size

A page of a file reads as zeros behind the end of the file, and a page may be written anywhere: a gap in
front of it is zeros too. So writing a page changes what is read of that page and of no other.
-/

namespace SkibidiQL

/-- The bytes of a file that was overwritten, zeros behind its end. -/
theorem getD_overwrite (file data : Bytes) (offset i : Nat) :
    (overwrite file offset data)[i]?.getD 0 =
      if offset ≤ i ∧ i < offset + data.length then data[i - offset]?.getD 0 else file[i]?.getD 0 := by
  unfold overwrite
  rcases data with - | ⟨b, data⟩
  · rw [List.isEmpty_nil, if_pos rfl, if_neg (by rw [List.length_nil]; omega)]
  · rw [List.isEmpty_cons, if_neg Bool.false_ne_true]
    set bytes := b :: data
    have hfront : (file.take offset ++ List.replicate (offset - file.length) (0 : UInt8)).length = offset := by
      rw [List.length_append, List.length_take, List.length_replicate]
      omega
    rcases Nat.lt_or_ge i offset with hlow | hhigh
    · rw [if_neg (by omega), List.getElem?_append_left (by rw [List.length_append, hfront]; omega),
        List.getElem?_append_left (by omega)]
      rcases Nat.lt_or_ge i file.length with hin | hout
      · rw [List.getElem?_append_left (by rw [List.length_take]; omega), List.getElem?_take, if_pos hlow]
      · -- in the gap between the end of the file and the write
        rw [List.getElem?_append_right (by rw [List.length_take]; omega), List.getElem?_eq_none hout]
        rw [List.getElem?_replicate]
        split <;> rfl
    · rcases Nat.lt_or_ge i (offset + bytes.length) with hmid | hend
      · rw [if_pos ⟨hhigh, hmid⟩, List.getElem?_append_left (by rw [List.length_append, hfront]; omega),
          List.getElem?_append_right (by omega), hfront]
      · rw [if_neg (by omega), List.getElem?_append_right (by rw [List.length_append, hfront]; omega),
          List.length_append, hfront, List.getElem?_drop]
        congr 2
        omega

theorem length_slice_le (file : Bytes) (start size : Nat) : (file.slice start size).length ≤ size := by
  rw [List.slice, List.length_take]
  exact Nat.min_le_left _ _

/-- The bytes of a page of a file, zeros behind its end. -/
theorem getElem?_pageOfFile (file : Bytes) (page i : Nat) :
    (pageOfFile file page).bytes[i]? =
      if i < pageSize then some (file[page * pageSize + i]?.getD 0) else none := by
  have hsize := length_slice_le file (page * pageSize) pageSize
  have hpatch : 0 + (file.slice (page * pageSize) pageSize).length ≤ PageBytes.zero.bytes.length := by
    rw [PageBytes.zero.size_eq]
    omega
  show (PageBytes.zero.bytes.patch 0 _)[i]? = _
  rw [List.getElem?_patch hpatch, if_neg (Nat.not_lt_zero i), Nat.zero_add, Nat.sub_zero]
  split
  · rename_i hi
    rw [if_pos (by omega), List.getElem?_eq_getElem hi]
    have hget := List.getElem?_slice file (page * pageSize) pageSize i
    rw [List.getElem?_eq_getElem hi, if_pos (by omega)] at hget
    rw [← hget, Option.getD_some]
  · rename_i hi
    split
    · rename_i hpage
      have hget := List.getElem?_slice file (page * pageSize) pageSize i
      rw [if_pos hpage, List.getElem?_eq_none (by omega)] at hget
      rw [← hget, Option.getD_none]
      show (List.replicate pageSize (0 : UInt8))[i]? = _
      rw [List.getElem?_replicate, if_pos hpage]
    · exact List.getElem?_eq_none (by rw [PageBytes.zero.size_eq]; omega)

/-- A page just written. -/
theorem pageOfFile_overwrite_self (file : Bytes) (page : Nat) (bytes : PageBytes) :
    pageOfFile (overwrite file (page * pageSize) bytes.bytes) page = bytes := by
  apply PageBytes.bytes_injective
  apply List.ext_getElem?
  intro i
  rw [getElem?_pageOfFile]
  split
  · rename_i hi
    rw [getD_overwrite, if_pos ⟨Nat.le_add_right _ _, by rw [bytes.size_eq]; omega⟩, Nat.add_sub_cancel_left,
      List.getElem?_eq_getElem (by rw [bytes.size_eq]; exact hi), Option.getD_some]
  · exact (List.getElem?_eq_none (by rw [bytes.size_eq]; omega)).symm

/-- A page next to the one written. -/
theorem pageOfFile_overwrite_ne (file : Bytes) {page other : Nat} (bytes : PageBytes) (h : other ≠ page) :
    pageOfFile (overwrite file (page * pageSize) bytes.bytes) other = pageOfFile file other := by
  apply PageBytes.bytes_injective
  apply List.ext_getElem?
  intro i
  rw [getElem?_pageOfFile, getElem?_pageOfFile]
  split
  · rename_i hi
    rw [getD_overwrite, if_neg]
    rw [bytes.size_eq]
    rw [show pageSize = 4096 from rfl] at hi ⊢
    omega
  · rfl

/-- Overwriting never shortens a file and reaches to its last byte. -/
theorem le_length_overwrite (file data : Bytes) (offset : Nat) :
    file.length ≤ (overwrite file offset data).length ∧
      (data ≠ [] → offset + data.length ≤ (overwrite file offset data).length) := by
  unfold overwrite
  rcases data with - | ⟨b, data⟩
  · exact ⟨Nat.le_refl _, fun h ↦ absurd rfl h⟩
  · rw [List.isEmpty_cons, if_neg Bool.false_ne_true]
    simp only [List.length_append, List.length_take, List.length_replicate, List.length_drop,
      List.length_cons]
    constructor
    · omega
    · intro _
      omega

/-! ### Writing back a page -/

/-- Whether the whole page is in its file. -/
def Disk.Stores (disk : Disk) (key : PageKey) : Prop :=
  disk.contains key.file ∧ (key.page + 1) * pageSize ≤ (disk.read key.file).length

theorem getD_of_not_contains {disk : Disk} {path : Path} (h : ¬disk.contains path) :
    disk.files.getD path [] = [] :=
  Std.ExtTreeMap.getD_eq_fallback fun hmem ↦ h (Std.ExtTreeMap.contains_iff_mem.2 hmem)

/-- Opening a file that is not there makes an empty one. -/
theorem writePage_of_not_contains {disk : Disk} {key : PageKey} (bytes : PageBytes)
    (h : ¬disk.contains key.file) :
    Storage.writePage disk key bytes = Storage.writePage (disk.perform (.truncate key.file)) key bytes := by
  have hmade : (disk.perform (.truncate key.file)).contains key.file :=
    Std.ExtTreeMap.contains_iff_mem.2 Std.ExtTreeMap.mem_insert_self
  unfold Storage.writePage
  rw [if_neg h, if_pos hmade]

/-- Creating a file leaves the bytes of all files. -/
theorem getD_truncate_of_not_contains {disk : Disk} {path : Path} (h : ¬disk.contains path) (other : Path) :
    (disk.perform (.truncate path)).files.getD other [] = disk.files.getD other [] := by
  show (disk.files.insert path []).getD other [] = _
  rw [Std.ExtTreeMap.getD_insert]
  split
  · rename_i heq
    rw [← Std.LawfulEqOrd.eq_of_compare heq, getD_of_not_contains h]
  · rfl

/-- The file that `writePage` writes into. -/
theorem getD_writePage (disk : Disk) (key : PageKey) (bytes : PageBytes) (path : Path) :
    (Storage.writePage disk key bytes).files.getD path [] =
      if path = key.file then overwrite (disk.files.getD key.file []) (key.page * pageSize) bytes.bytes
      else disk.files.getD path [] := by
  rcases em (disk.contains key.file) with h | h
  · exact writePage_getD h path
  · have hmade : (disk.perform (.truncate key.file)).contains key.file :=
      Std.ExtTreeMap.contains_iff_mem.2 Std.ExtTreeMap.mem_insert_self
    rw [writePage_of_not_contains bytes h, writePage_getD hmade, getD_truncate_of_not_contains h,
      getD_truncate_of_not_contains h]

/-- Writing a page removes no file. -/
theorem contains_writePage {disk : Disk} {path : Path} (h : disk.contains path) (key : PageKey)
    (bytes : PageBytes) : (Storage.writePage disk key bytes).contains path := by
  have hmem := Std.ExtTreeMap.contains_iff_mem.1 h
  apply Std.ExtTreeMap.contains_iff_mem.2
  unfold Storage.writePage
  split
  · exact Std.ExtTreeMap.mem_insert.2 (.inr hmem)
  · exact Std.ExtTreeMap.mem_insert.2 (.inr (Std.ExtTreeMap.mem_insert.2 (.inr hmem)))

theorem contains_writePage_self (disk : Disk) (key : PageKey) (bytes : PageBytes) :
    (Storage.writePage disk key bytes).contains key.file :=
  Std.ExtTreeMap.contains_iff_mem.2 Std.ExtTreeMap.mem_insert_self

/-- A page that was written is read back, and the others are left. -/
theorem diskPage_writePage (disk : Disk) (key : PageKey) (bytes : PageBytes) (other : PageKey) :
    diskPage (Storage.writePage disk key bytes).files other =
      if other = key then bytes else diskPage disk.files other := by
  unfold diskPage
  rw [getD_writePage]
  rcases eq_or_ne other key with rfl | hne
  · rw [if_pos rfl, if_pos rfl, pageOfFile_overwrite_self]
  · rw [if_neg hne]
    split
    · rename_i hfile
      have hpage : other.page ≠ key.page := fun hpage ↦ hne (by cases other; cases key; simp_all)
      rw [pageOfFile_overwrite_ne _ _ hpage, hfile]
    · rfl

/-- The disk stores a page that was written. -/
theorem stores_writePage_self (disk : Disk) (key : PageKey) (bytes : PageBytes) :
    (Storage.writePage disk key bytes).Stores key := by
  refine ⟨contains_writePage_self .., ?_⟩
  show _ ≤ ((Storage.writePage disk key bytes).files.getD key.file []).length
  have hne : bytes.bytes ≠ [] := by
    intro hnil
    have hsize := bytes.size_eq
    rw [hnil] at hsize
    exact absurd hsize (by decide)
  have hle := (le_length_overwrite (disk.files.getD key.file []) bytes.bytes (key.page * pageSize)).2 hne
  rw [bytes.size_eq] at hle
  rw [getD_writePage, if_pos rfl, Nat.add_mul, Nat.one_mul]
  exact hle

/-- The disk keeps storing the other pages. -/
theorem Disk.Stores.writePage {disk : Disk} {other : PageKey} (h : disk.Stores other) (key : PageKey)
    (bytes : PageBytes) : (Storage.writePage disk key bytes).Stores other := by
  refine ⟨contains_writePage h.1 .., h.2.trans ?_⟩
  show _ ≤ ((Storage.writePage disk key bytes).files.getD other.file []).length
  rw [getD_writePage]
  split
  · rename_i hfile
    rw [← hfile]
    exact (le_length_overwrite ..).1
  · exact Nat.le_refl _

/-- What `readPage` gives is the page as it is on disk. -/
theorem diskPage_of_readPage {disk : Disk} {key : PageKey} {create : Bool} {bytes : PageBytes}
    (h : Storage.readPage disk key create = .ok bytes) : bytes = diskPage disk.files key := by
  unfold Storage.readPage at h
  split at h
  · dsimp only at h
    split at h
    · exact nomatch h
    · exact (Except.ok.inj h).symm
  · rename_i hmissing
    split at h
    · rw [diskPage, getD_of_not_contains hmissing, pageOfFile_beyond (Nat.zero_le _)]
      exact (Except.ok.inj h).symm
    · exact nomatch h

/-- A page that is in its file can be read. -/
theorem Disk.Stores.readPage {disk : Disk} {key : PageKey} (h : disk.Stores key) (create : Bool) :
    Storage.readPage disk key create = .ok (diskPage disk.files key) := by
  have hcount : ((disk.read key.file).slice (key.page * pageSize) pageSize).length = pageSize := by
    have hle := h.2
    rw [Nat.add_mul, Nat.one_mul] at hle
    exact List.length_slice hle
  unfold Storage.readPage
  rw [if_pos h.1]
  dsimp only
  rw [hcount, if_neg (by decide)]
  rfl

end SkibidiQL
