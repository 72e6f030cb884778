import SkibidiQL.Storage.Disk

/-!
# Writes that are cut short

A crash lets some of the writes through and cuts the next one off. What is left is again a list of writes
to the same paths (`cutShort`), so whatever holds of the effect of any writes holds after a crash.
-/

namespace SkibidiQL

/-- The contents of the files. -/
def contentOf (files : Files) (path : Path) : Option Bytes :=
  files[path]?

theorem ext_contentOf {files files' : Files} (h : contentOf files = contentOf files') : files = files' :=
  Std.ExtTreeMap.ext_getElem? fun {path} ↦ congrFun h path

/-! ### The effect of writes -/

/-- A write leaves the other files. -/
theorem Write.apply_of_ne (files : Files) {write : Write} {path : Path} (h : path ≠ write.path) :
    contentOf (write.apply files) path = contentOf files path := by
  have hcompare : compare write.path path ≠ .eq := fun heq ↦ h (Std.LawfulEqOrd.compare_eq_iff_eq.1 heq).symm
  cases write with
  | remove => exact (Std.ExtTreeMap.getElem?_erase ..).trans (if_neg hcompare)
  | _ => exact (Std.ExtTreeMap.getElem?_insert ..).trans (if_neg hcompare)

theorem applyAll_append (files : Files) (writes writes' : List Write) :
    applyAll files (writes ++ writes') = applyAll (applyAll files writes) writes' :=
  List.foldl_append

theorem applyAll_cons (files : Files) (write : Write) (writes : List Write) :
    applyAll files (write :: writes) = applyAll (write.apply files) writes :=
  rfl

/-- A file that no write is on keeps its content. -/
theorem applyAll_of_not_mem {writes : List Write} {path : Path} (h : ∀ write ∈ writes, path ≠ write.path)
    (files : Files) : contentOf (applyAll files writes) path = contentOf files path := by
  induction writes generalizing files with
  | nil => rfl
  | cons write writes ih =>
    obtain ⟨hwrite, hrest⟩ := List.forall_mem_cons.1 h
    rw [applyAll_cons, ih hrest, write.apply_of_ne files hwrite]

/-- Appending puts bytes behind the content. -/
theorem contentOf_append (files : Files) (path : Path) (data : Bytes) :
    contentOf ((Write.append path data).apply files) path = some ((contentOf files path).getD [] ++ data) := by
  show (files.insert path (files.getD path [] ++ data))[path]? = _
  rw [Std.ExtTreeMap.getElem?_insert_self, Std.ExtTreeMap.getD_eq_getD_getElem?]
  rfl

theorem contentOf_remove (files : Files) (path : Path) : contentOf ((Write.remove path).apply files) path = none :=
  Std.ExtTreeMap.getElem?_erase_self

/-- Emptying a file and writing it from the start. -/
theorem contentOf_rewrite (files : Files) (path : Path) (data : Bytes) :
    contentOf (applyAll files [.truncate path, .write path 0 data]) path = some data := by
  have hwrite : overwrite [] 0 data = data := by
    unfold overwrite
    cases data <;> simp
  show ((files.insert path []).insert path (overwrite ((files.insert path []).getD path []) 0 data))[path]? = _
  rw [Std.ExtTreeMap.getElem?_insert_self, Std.ExtTreeMap.getD_insert_self, hwrite]

/-- Removing a file that is not there. -/
theorem apply_remove_of_none {files : Files} {path : Path} (h : contentOf files path = none) :
    (Write.remove path).apply files = files := by
  refine ext_contentOf (funext fun other ↦ ?_)
  by_cases hother : other = path
  · rw [hother, contentOf_remove, h]
  · exact Write.apply_of_ne files hother

/-! ### Crashes -/

/-- The writes that a crash leaves. -/
def cutShort (writes : List Write) (n : Nat) (torn : Option Nat) : List Write :=
  writes.take n ++ (torn.bind fun k ↦ writes[n]?.map (Write.cut k)).toList

/-- A crash leaves the files that the writes before it made. -/
theorem crashAfter_eq (files : Files) (writes : List Write) (n : Nat) (torn : Option Nat) :
    crashAfter files writes n torn = applyAll files (cutShort writes n torn) := by
  rw [cutShort, applyAll_append]
  cases torn with
  | none => rfl
  | some k =>
    unfold crashAfter
    cases writes[n]? <;> rfl

theorem Write.path_cut (write : Write) (k : Nat) : (write.cut k).path = write.path := by
  cases write <;> rfl

/-- What was written before the crash was to be written. -/
theorem exists_of_mem_cutShort {writes : List Write} {n : Nat} {torn : Option Nat} {write : Write}
    (h : write ∈ cutShort writes n torn) : ∃ write' ∈ writes, write.path = write'.path := by
  rcases List.mem_append.1 h with h | h
  · exact ⟨write, List.mem_of_mem_take h, rfl⟩
  · obtain ⟨k, -, hcut⟩ := Option.bind_eq_some_iff.1 (Option.mem_toList.1 h)
    obtain ⟨next, hnext, rfl⟩ := Option.map_eq_some_iff.1 hcut
    exact ⟨next, List.mem_of_getElem? hnext, next.path_cut k⟩

theorem cutShort_of_lt {writes : List Write} {n : Nat} (h : n < writes.length) (writes' : List Write)
    (torn : Option Nat) : cutShort (writes ++ writes') n torn = cutShort writes n torn := by
  rw [cutShort, cutShort, List.take_append_of_le_length (Nat.le_of_lt h), List.getElem?_append_left h]

/-- A crash behind the first part leaves it written. -/
theorem cutShort_of_le {writes : List Write} {n : Nat} (h : writes.length ≤ n) (writes' : List Write)
    (torn : Option Nat) :
    cutShort (writes ++ writes') n torn = writes ++ cutShort writes' (n - writes.length) torn := by
  rw [cutShort, cutShort, List.take_append, List.take_of_length_le h, List.getElem?_append_right h,
    List.append_assoc]

/-- A crash of one write: it is done, cut off, or not begun. -/
theorem cutShort_singleton (write : Write) (n : Nat) (torn : Option Nat) :
    cutShort [write] n torn = [write] ∨ cutShort [write] n torn = [] ∨
      ∃ k, n = 0 ∧ torn = some k ∧ cutShort [write] n torn = [write.cut k] := by
  cases n with
  | zero =>
    cases torn with
    | none => exact .inr (.inl rfl)
    | some k => exact .inr (.inr ⟨k, rfl, rfl, rfl⟩)
  | succ n =>
    left
    cases torn <;> simp [cutShort]

end SkibidiQL
