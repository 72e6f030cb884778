import SkibidiQL.Base.Simulation
import SkibidiQL.Base.StateError
import SkibidiQL.Storage.FrameTable
import SkibidiQL.Storage.PageOnDisk

/-!
# The buffer pool is transparent

The frame table and the list of keys fit (`FrameTable.Fits`), and no written byte is lost: a frame has what
was last written to its page, and a page without a dirty frame has it on disk (`FrameTable.Holds`). Flushing,
erasing a clean frame and adding one that was read keep both, and the operations are made of these.
-/

namespace SkibidiQL

namespace FrameTable

/-- The frames and the list of keys belong together. -/
structure Fits (table : FrameTable) : Prop where
  capacity : 1 ≤ table.capacityPages
  room : table.frames.length ≤ table.capacityPages
  nodes : (table.lru.map (·.1)).Nodup
  keys : (table.frames.map (·.key)).Nodup
  paired : (table.frames.map fun frame ↦ (frame.lru, frame.key)).Perm table.lru
  made : ∀ frame ∈ table.frames, frame.lru < table.made

/-- The frames and the disk have the bytes that were last written to the pages. -/
structure Holds (written : PageKey → Option PageBytes) (table : FrameTable) : Prop where
  bytes : ∀ frame ∈ table.frames,
    frame.bytes = (written frame.key).getD (diskPage table.disk.files frame.key)
  dirty : ∀ frame ∈ table.frames, frame.dirty → (written frame.key).isSome
  backed : ∀ key bytes, written key = some bytes →
    (∃ frame ∈ table.frames, frame.key = key ∧ frame.dirty) ∨
      (table.disk.Stores key ∧ diskPage table.disk.files key = bytes)

/-- `table'` has no new frames, and all that were pinned. -/
structure Follows (table table' : FrameTable) : Prop where
  capacity : table'.capacityPages = table.capacityPages
  back : ∀ frame' ∈ table'.frames, ∃ frame ∈ table.frames,
    frame.lru = frame'.lru ∧ frame.key = frame'.key ∧ frame.pins = frame'.pins
  pinned : ∀ frame ∈ table.frames, frame.pins ≠ 0 → ∃ frame' ∈ table'.frames,
    frame'.lru = frame.lru ∧ frame'.key = frame.key ∧ frame'.pins = frame.pins

variable {table table' table'' : FrameTable} {written : PageKey → Option PageBytes} {frame other : TableFrame}
  {key : PageKey}

theorem Follows.refl (table : FrameTable) : Follows table table :=
  ⟨rfl, fun frame hmem ↦ ⟨frame, hmem, rfl, rfl, rfl⟩, fun frame hmem _ ↦ ⟨frame, hmem, rfl, rfl, rfl⟩⟩

/-- Following is transitive. -/
theorem Follows.trans (h : Follows table table') (h' : Follows table' table'') : Follows table table'' where
  capacity := h'.capacity.trans h.capacity
  back frame'' hmem'' := by
    obtain ⟨frame', hmem', hlru', hkey', hpins'⟩ := h'.back frame'' hmem''
    obtain ⟨frame, hmem, hlru, hkey, hpins⟩ := h.back frame' hmem'
    exact ⟨frame, hmem, hlru.trans hlru', hkey.trans hkey', hpins.trans hpins'⟩
  pinned frame hmem hpinned := by
    obtain ⟨frame', hmem', hlru', hkey', hpins'⟩ := h.pinned frame hmem hpinned
    obtain ⟨frame'', hmem'', hlru, hkey, hpins⟩ := h'.pinned frame' hmem' (hpins' ▸ hpinned)
    exact ⟨frame'', hmem'', hlru.trans hlru', hkey.trans hkey', hpins.trans hpins'⟩

/-! ### Finding frames -/

theorem find?_mem (h : table.find? key = some frame) : frame ∈ table.frames ∧ frame.key = key :=
  ⟨List.mem_of_find?_eq_some h, by simpa using List.find?_some h⟩

theorem frameAt?_mem {node : Nat} (h : table.frameAt? node = some frame) :
    frame ∈ table.frames ∧ frame.lru = node :=
  ⟨List.mem_of_find?_eq_some h, by simpa using List.find?_some h⟩

theorem find?_eq_none : table.find? key = none ↔ ∀ frame ∈ table.frames, frame.key ≠ key := by
  simp [find?, List.find?_eq_none]

theorem isSome_find? : (table.find? key).isSome ↔ ∃ frame ∈ table.frames, frame.key = key := by
  simp [find?]

namespace Fits

variable (h : table.Fits)

include h

theorem eq_of_key (hmem : frame ∈ table.frames) (hmem' : other ∈ table.frames)
    (hkey : frame.key = other.key) : frame = other :=
  List.inj_on_of_nodup_map h.keys hmem hmem' hkey

/-- No two frames have the same node. -/
theorem nodup_lru : (table.frames.map (·.lru)).Nodup := by
  have hperm := h.paired.map Prod.fst
  rw [List.map_map] at hperm
  exact hperm.nodup_iff.2 h.nodes

theorem eq_of_lru (hmem : frame ∈ table.frames) (hmem' : other ∈ table.frames)
    (hlru : frame.lru = other.lru) : frame = other :=
  List.inj_on_of_nodup_map h.nodup_lru hmem hmem' hlru

/-- A frame is found by its key. -/
theorem find?_eq (hmem : frame ∈ table.frames) : table.find? frame.key = some frame := by
  rcases hfind : table.find? frame.key with - | other
  · exact absurd rfl (find?_eq_none.1 hfind frame hmem)
  · obtain ⟨hmem', hkey⟩ := find?_mem hfind
    rw [h.eq_of_key hmem' hmem hkey]

/-- A frame is found by its node. -/
theorem frameAt?_eq (hmem : frame ∈ table.frames) : table.frameAt? frame.lru = some frame := by
  rcases hfind : table.frameAt? frame.lru with - | other
  · exact absurd (List.find?_eq_none.1 hfind frame hmem) (by simp)
  · obtain ⟨hmem', hlru⟩ := frameAt?_mem hfind
    rw [h.eq_of_lru hmem' hmem hlru]

end Fits

/-! ### Changing a frame -/

/-- An update changes the frame of its node only. -/
theorem mem_update {node : Nat} {f : Frame → Frame} :
    frame ∈ (table.update node f).frames ↔ ∃ old ∈ table.frames,
      frame = if old.lru = node then { old with toFrame := f old.toFrame } else old := by
  simp only [update, List.mem_map, eq_comm]

/-- Updating a frame keeps the table well formed. -/
theorem Fits.update (h : table.Fits) (node : Nat) {f : Frame → Frame} (hf : ∀ frame, (f frame).key = frame.key) :
    (table.update node f).Fits := by
  have hkey : ∀ old : TableFrame,
      (if old.lru = node then { old with toFrame := f old.toFrame } else old).key = old.key := by
    intro old
    split
    · exact hf _
    · rfl
  have hlru : ∀ old : TableFrame,
      (if old.lru = node then { old with toFrame := f old.toFrame } else old).lru = old.lru := by
    intro old
    split <;> rfl
  refine ⟨h.capacity, ?_, h.nodes, ?_, ?_, ?_⟩
  · show (table.frames.map _).length ≤ _
    rw [List.length_map]
    exact h.room
  · show ((table.frames.map _).map _).Nodup
    rw [List.map_map]
    refine (List.Perm.of_eq (List.map_congr_left fun old _ ↦ ?_)).nodup_iff.2 h.keys
    exact hkey old
  · show ((table.frames.map _).map _).Perm _
    rw [List.map_map]
    refine (List.Perm.of_eq (List.map_congr_left fun old _ ↦ ?_)).trans h.paired
    exact Prod.ext (hlru old) (hkey old)
  · intro frame hmem
    obtain ⟨old, hold, rfl⟩ := mem_update.1 hmem
    rw [hlru]
    exact h.made old hold

/-- A table whose frames keep their keys and pins follows. -/
theorem Follows.update (node : Nat) {f : Frame → Frame}
    (hf : ∀ frame, (f frame).key = frame.key ∧ (f frame).pins = frame.pins) :
    Follows table (table.update node f) := by
  have hsame : ∀ old : TableFrame, ∀ new, new = (if old.lru = node then { old with toFrame := f old.toFrame }
      else old) → new.lru = old.lru ∧ new.key = old.key ∧ new.pins = old.pins := by
    rintro old new rfl
    split
    · exact ⟨rfl, hf _⟩
    · exact ⟨rfl, rfl, rfl⟩
  refine ⟨rfl, fun frame hmem ↦ ?_, fun frame hmem _ ↦ ?_⟩
  · obtain ⟨old, hold, heq⟩ := mem_update.1 hmem
    obtain ⟨hlru, hkey, hpins⟩ := hsame old frame heq
    exact ⟨old, hold, hlru.symm, hkey.symm, hpins.symm⟩
  · exact ⟨_, mem_update.2 ⟨frame, hmem, rfl⟩, hsame frame _ rfl⟩

/-! ### Flushing -/

theorem Fits.flush (h : table.Fits) (frame : TableFrame) : (table.flush frame).Fits :=
  let updated := h.update frame.lru (f := ({ · with dirty := false })) fun _ ↦ rfl
  ⟨updated.capacity, updated.room, updated.nodes, updated.keys, updated.paired, updated.made⟩

/-- Flushing a frame leaves keys and pins. -/
theorem Follows.flush (frame : TableFrame) : Follows table (table.flush frame) :=
  have updated : Follows table (table.update frame.lru ({ · with dirty := false })) :=
    Follows.update frame.lru fun _ ↦ ⟨rfl, rfl⟩
  ⟨rfl, updated.back, updated.pinned⟩

theorem mem_flush : other ∈ (table.flush frame).frames ↔ ∃ old ∈ table.frames,
    other = if old.lru = frame.lru then { old with dirty := false } else old :=
  mem_update (f := ({ · with dirty := false }))

/-- Flushing changes the disk at most at the page that is flushed. -/
theorem diskPage_flushed (disk : Disk) (frame : Frame) (key : PageKey) :
    diskPage (Storage.flushed disk frame).files key =
      if key = frame.key ∧ frame.dirty then frame.bytes else diskPage disk.files key := by
  unfold Storage.flushed
  split
  · rename_i hdirty
    rw [diskPage_writePage]
    exact if_congr (by simp [hdirty]) rfl rfl
  · rename_i hclean
    rw [if_neg (by simp [hclean])]

/-- Flushing a frame keeps what the pages read as. -/
theorem Holds.flush (hfits : table.Fits) (h : table.Holds written) (hmem : frame ∈ table.frames) :
    (table.flush frame).Holds written := by
  have hstores : ∀ key, table.disk.Stores key →
      (Storage.flushed table.disk frame.toFrame).Stores key := by
    intro key hkey
    unfold Storage.flushed
    split
    · exact hkey.writePage _ _
    · exact hkey
  -- Only the page of the flushed frame changes on disk, and it then holds the bytes of the frame.
  have hbytes : ∀ old ∈ table.frames, old.bytes =
      (written old.key).getD (diskPage (Storage.flushed table.disk frame.toFrame).files old.key) := by
    intro old hold
    rw [diskPage_flushed]
    split
    · rename_i hflushed
      rw [hfits.eq_of_key hold hmem hflushed.1]
      obtain ⟨bytes, hwritten⟩ := Option.isSome_iff_exists.1 (h.dirty frame hmem hflushed.2)
      have heq := h.bytes frame hmem
      rw [hwritten, Option.getD_some] at heq ⊢
      exact heq
    · exact h.bytes old hold
  refine ⟨fun new hnew ↦ ?_, fun new hnew hdirty ↦ ?_, fun key bytes hwritten ↦ ?_⟩
  · obtain ⟨old, hold, rfl⟩ := mem_flush.1 hnew
    have hold := hbytes old hold
    split
    · exact hold
    · exact hold
  · obtain ⟨old, hold, rfl⟩ := mem_flush.1 hnew
    split at hdirty
    · exact nomatch hdirty
    · rename_i hne
      rw [if_neg hne]
      exact h.dirty old hold hdirty
  · show _ ∨ (Storage.flushed table.disk frame.toFrame).Stores key ∧
      diskPage (Storage.flushed table.disk frame.toFrame).files key = bytes
    rcases h.backed key bytes hwritten with ⟨old, hold, hkey, hdirty⟩ | ⟨hstored, hpage⟩
    · rcases em (old.lru = frame.lru) with hlru | hlru
      · -- the frame that was dirty is flushed
        obtain rfl := hfits.eq_of_lru hold hmem hlru
        have heq := h.bytes old hold
        rw [hkey, hwritten, Option.getD_some] at heq
        refine .inr ⟨?_, by rw [diskPage_flushed, if_pos ⟨hkey.symm, hdirty⟩, heq]⟩
        rw [Storage.flushed, if_pos hdirty, ← hkey]
        exact stores_writePage_self ..
      · exact .inl ⟨old, mem_flush.2 ⟨old, hold, (if_neg hlru).symm⟩, hkey, hdirty⟩
    · refine .inr ⟨hstores key hstored, ?_⟩
      rw [diskPage_flushed]
      split
      · rename_i hflushed
        have heq := h.bytes frame hmem
        rw [← hflushed.1, hwritten, Option.getD_some] at heq
        exact heq
      · exact hpage

/-- The frame that was flushed, as it is now. -/
theorem flushed_mem (hmem : frame ∈ table.frames) :
    { frame with dirty := false } ∈ (table.flush frame).frames :=
  mem_flush.2 ⟨frame, hmem, (if_pos rfl).symm⟩

/-! ### Erasing -/

theorem mem_erase : other ∈ (table.erase frame).frames ↔ other ∈ table.frames ∧ other.key ≠ frame.key := by
  simp [erase]

/-- Erasing a frame keeps the table well formed. -/
theorem Fits.erase (h : table.Fits) (hmem : frame ∈ table.frames) : (table.erase frame).Fits where
  capacity := h.capacity
  room := (List.length_filter_le _ _).trans h.room
  nodes := h.nodes.sublist (List.filter_sublist.map _)
  keys := h.keys.sublist (List.filter_sublist.map _)
  paired := by
    -- a frame goes by its key, and its entry in the list by its node
    have hsame : table.frames.filter (·.key != frame.key) = table.frames.filter (·.lru != frame.lru) := by
      apply List.filter_congr
      intro other hother
      rw [Bool.eq_iff_iff, bne_iff_ne, bne_iff_ne]
      exact not_congr ⟨fun hkey ↦ congrArg _ (h.eq_of_key hother hmem hkey),
        fun hlru ↦ congrArg (·.key) (h.eq_of_lru hother hmem hlru)⟩
    have hperm := h.paired.filter fun node ↦ node.1 != frame.lru
    rw [List.filter_map] at hperm
    show ((table.frames.filter (·.key != frame.key)).map _).Perm _
    rw [hsame]
    exact hperm
  made other hother := h.made other (mem_erase.1 hother).1

/-- A table less an unpinned frame follows. -/
theorem Follows.erase (hfits : table.Fits) (hmem : frame ∈ table.frames) (hpins : frame.pins = 0) :
    Follows table (table.erase frame) where
  capacity := rfl
  back other hother := ⟨other, (mem_erase.1 hother).1, rfl, rfl, rfl⟩
  pinned other hother hpinned := by
    refine ⟨other, mem_erase.2 ⟨hother, fun hkey ↦ hpinned ?_⟩, rfl, rfl, rfl⟩
    rw [hfits.eq_of_key hother hmem hkey, hpins]

/-- Erasing a frame makes room for one. -/
theorem length_erase (hfits : table.Fits) (hmem : frame ∈ table.frames) :
    (table.erase frame).frames.length + 1 = table.frames.length := by
  have hperm : (frame :: (table.erase frame).frames).Perm table.frames := by
    refine (List.perm_ext_iff_of_nodup ?_ hfits.keys.of_map).2 fun other ↦ ?_
    · refine List.nodup_cons.2 ⟨fun hin ↦ (mem_erase.1 hin).2 rfl, ?_⟩
      exact hfits.keys.of_map.sublist List.filter_sublist
    · rw [List.mem_cons, mem_erase]
      constructor
      · rintro (rfl | hother)
        · exact hmem
        · exact hother.1
      · intro hother
        rcases em (other.key = frame.key) with hkey | hkey
        · exact .inl (hfits.eq_of_key hother hmem hkey)
        · exact .inr ⟨hother, hkey⟩
  exact hperm.length_eq

/-- A frame that is not dirty may go. -/
theorem Holds.erase (hfits : table.Fits) (h : table.Holds written) (hmem : frame ∈ table.frames)
    (hclean : ¬frame.dirty) : (table.erase frame).Holds written where
  bytes other hother := h.bytes other (mem_erase.1 hother).1
  dirty other hother := h.dirty other (mem_erase.1 hother).1
  backed key bytes hwritten := by
    rcases h.backed key bytes hwritten with ⟨other, hother, hkey, hdirty⟩ | hdisk
    · refine .inl ⟨other, mem_erase.2 ⟨hother, fun hkey' ↦ hclean ?_⟩, hkey, hdirty⟩
      rwa [hfits.eq_of_key hother hmem hkey'] at hdirty
    · exact .inr hdisk

/-! ### Work of the pool -/

/-- Work that keeps all of it. -/
structure Worked (written : PageKey → Option PageBytes) (table table' : FrameTable) : Prop where
  fits : table'.Fits
  holds : table'.Holds written
  follows : Follows table table'
  disk : ∀ key, written key = none → diskPage table'.disk.files key = diskPage table.disk.files key

theorem Worked.refl (hfits : table.Fits) (h : table.Holds written) : Worked written table table :=
  ⟨hfits, h, .refl table, fun _ _ ↦ rfl⟩

theorem Worked.trans (h : Worked written table table') (h' : Worked written table' table'') :
    Worked written table table'' :=
  ⟨h'.fits, h'.holds, h.follows.trans h'.follows,
    fun key hkey ↦ (h'.disk key hkey).trans (h.disk key hkey)⟩

/-- Flushing a frame works. -/
theorem Worked.flush (hfits : table.Fits) (h : table.Holds written) (hmem : frame ∈ table.frames) :
    Worked written table (table.flush frame) where
  fits := hfits.flush frame
  holds := h.flush hfits hmem
  follows := .flush frame
  disk key hkey := by
    refine (diskPage_flushed ..).trans (if_neg ?_)
    rintro ⟨rfl, hdirty⟩
    have hsome := h.dirty frame hmem hdirty
    rw [hkey] at hsome
    exact nomatch hsome

/-- Flushing the frames of a list of keys works. -/
theorem Worked.flushKeys (hfits : table.Fits) (h : table.Holds written) (keys : List PageKey) :
    Worked written table (keys.foldl flushKey table) := by
  induction keys generalizing table with
  | nil => exact .refl hfits h
  | cons key keys ih =>
    rw [List.foldl_cons]
    have hround : Worked written table (table.flushKey key) := by
      unfold flushKey
      split
      · exact .refl hfits h
      · rename_i frame hfind
        exact .flush hfits h (find?_mem hfind).1
    exact hround.trans (ih hround.fits hround.holds)

/-- The eviction of a frame that is not pinned. -/
theorem Worked.evict (hfits : table.Fits) (h : table.Holds written) (hmem : frame ∈ table.frames)
    (hpins : frame.pins = 0) : Worked written table ((table.flush frame).erase frame) ∧
      ((table.flush frame).erase frame).frames.length + 1 = table.frames.length := by
  have hflushed := Worked.flush hfits h hmem
  -- the frame to be erased is the one that was flushed
  have hmem' := flushed_mem hmem
  set flushed : TableFrame := { frame with dirty := false }
  have hsame : (table.flush frame).erase frame = (table.flush frame).erase flushed := rfl
  rw [hsame]
  have herased : Worked written (table.flush frame) ((table.flush frame).erase flushed) :=
    ⟨hflushed.fits.erase hmem', hflushed.holds.erase hflushed.fits hmem' Bool.false_ne_true,
      .erase hflushed.fits hmem' hpins, fun _ _ ↦ rfl⟩
  refine ⟨hflushed.trans herased, (length_erase hflushed.fits hmem').trans ?_⟩
  exact List.length_map _

/-- `evictOne` evicts a frame that is not pinned, or there is none. -/
theorem evictOne_eq (hfits : table.Fits) :
    (∃ frame ∈ table.frames, frame.pins = 0 ∧
      evictOne table = .ok () ((table.flush frame).erase frame)) ∨
    ((∀ frame ∈ table.frames, frame.pins ≠ 0) ∧
      evictOne table = .error (lit "All buffer pool pages are pinned") table) := by
  simp only [evictOne, bind, EStateM.bind, get, getThe, MonadStateOf.get, EStateM.get]
  rcases hfound : table.lru.reverse.findSome? fun node ↦ (table.find? node.2).filter (·.pins == 0)
    with - | frame
  · refine .inr ⟨fun frame hmem hpins ↦ ?_, by rw [hfound]; rfl⟩
    have hnode : (frame.lru, frame.key) ∈ table.lru :=
      hfits.paired.mem_iff.1 (List.mem_map.2 ⟨frame, hmem, rfl⟩)
    have hnone := List.findSome?_eq_none_iff.1 hfound _ (List.mem_reverse.2 hnode)
    rw [hfits.find?_eq hmem, Option.filter_some, hpins] at hnone
    exact nomatch hnone
  · obtain ⟨node, -, hnode⟩ := List.exists_of_findSome?_eq_some hfound
    obtain ⟨hfind, hpins⟩ := Option.filter_eq_some_iff.1 hnode
    exact .inl ⟨frame, (find?_mem hfind).1, by simpa using hpins, by rw [hfound]; rfl⟩

/-- There is nothing to do where there is room. -/
theorem makeRoom_of_lt {rounds : Nat} (h : table.frames.length < table.capacityPages) :
    makeRoom rounds table = .ok () table := by
  cases rounds with
  | zero => rfl
  | succ rounds =>
    simp only [makeRoom, bind, EStateM.bind, get, getThe, MonadStateOf.get, EStateM.get,
      if_neg (Nat.not_le.2 h)]
    rfl

/-- As many rounds as there are frames make room, unless all frames are pinned. -/
theorem makeRoom_eq (hfits : table.Fits) (h : table.Holds written) :
    (∃ table', Worked written table table' ∧ table'.frames.length < table'.capacityPages ∧
      makeRoom table.frames.length table = .ok () table') ∨
    ((∀ frame ∈ table.frames, frame.pins ≠ 0) ∧ table.frames.length = table.capacityPages ∧
      makeRoom table.frames.length table = .error (lit "All buffer pool pages are pinned") table) := by
  rcases Nat.lt_or_ge table.frames.length table.capacityPages with hroom | hfull
  · exact .inl ⟨table, .refl hfits h, hroom, makeRoom_of_lt hroom⟩
  · obtain ⟨rounds, hrounds⟩ : ∃ rounds, table.frames.length = rounds + 1 :=
      Nat.exists_eq_succ_of_ne_zero (Nat.ne_of_gt (Nat.lt_of_lt_of_le hfits.capacity hfull))
    have hround : makeRoom (rounds + 1) table = (evictOne >>= fun _ ↦ makeRoom rounds) table := by
      simp only [makeRoom, bind, EStateM.bind, get, getThe, MonadStateOf.get, EStateM.get, if_pos hfull]
    rcases evictOne_eq hfits with ⟨frame, hmem, hpins, hevict⟩ | ⟨hpinned, hevict⟩
    · obtain ⟨hworked, hlength⟩ := Worked.evict hfits h hmem hpins
      -- one eviction is enough, for there never are more frames than may be
      have hroom : ((table.flush frame).erase frame).frames.length <
          ((table.flush frame).erase frame).capacityPages := by
        have := hfits.room
        rw [hworked.follows.capacity]
        omega
      refine .inl ⟨_, hworked, hroom, ?_⟩
      rw [hrounds, hround, EStateM.bind_of_ok hevict, makeRoom_of_lt hroom]
    · refine .inr ⟨hpinned, Nat.le_antisymm hfits.room hfull, ?_⟩
      rw [hrounds, hround, EStateM.bind_of_error hevict]

/-! ### Fetching -/

/-- Touching a node keeps the table well formed. -/
theorem Fits.touch (h : table.Fits) (node : Nat) : (table.touch node).Fits :=
  have hperm : (table.touch node).lru.Perm table.lru :=
    List.filter_append_perm (fun entry : Nat × PageKey ↦ entry.1 == node) table.lru
  ⟨h.capacity, h.room, (hperm.map _).nodup_iff.2 h.nodes, h.keys, h.paired.trans hperm.symm, h.made⟩

/-- A change of the pins is nothing to the bytes. -/
theorem Holds.setPins (h : table.Holds written) (node : Nat) (f : Nat → Nat) :
    (table.update node fun frame ↦ { frame with pins := f frame.pins }).Holds written := by
  refine ⟨fun new hnew ↦ ?_, fun new hnew ↦ ?_, fun key bytes hwritten ↦ ?_⟩
  · obtain ⟨old, hold, rfl⟩ := mem_update.1 hnew
    have hbytes := h.bytes old hold
    split <;> exact hbytes
  · obtain ⟨old, hold, rfl⟩ := mem_update.1 hnew
    have hdirty := h.dirty old hold
    split <;> exact hdirty
  · refine (h.backed key bytes hwritten).imp ?_ id
    rintro ⟨old, hold, hkey, hdirty⟩
    refine ⟨_, mem_update.2 ⟨old, hold, rfl⟩, ?_⟩
    split <;> exact ⟨hkey, hdirty⟩

/-- A new frame joins the others. -/
theorem mem_add (hnew : table.find? key = none) {bytes : PageBytes} :
    frame ∈ (table.add key bytes).frames ↔
      frame = { key, bytes, pins := 1, lru := table.made } ∨ frame ∈ table.frames := by
  rw [add, hnew]
  exact List.mem_cons

/-- A new frame keeps the table well formed where there is room. -/
theorem Fits.add (h : table.Fits) (hnew : table.find? key = none)
    (hroom : table.frames.length < table.capacityPages) (bytes : PageBytes) :
    (table.add key bytes).Fits := by
  have hframes : (table.add key bytes).frames =
      { key, bytes, pins := 1, lru := table.made } :: table.frames := by
    rw [FrameTable.add, hnew]
    rfl
  refine ⟨h.capacity, ?_, ?_, ?_, ?_, fun frame hmem ↦ ?_⟩
  · rw [hframes]
    exact hroom
  · refine List.nodup_cons.2 ⟨fun hin ↦ ?_, h.nodes⟩
    obtain ⟨node, hnode, hmade⟩ := List.mem_map.1 hin
    obtain ⟨frame, hmem, rfl⟩ := List.mem_map.1 (h.paired.mem_iff.2 hnode)
    exact absurd hmade (Nat.ne_of_lt (h.made frame hmem))
  · rw [hframes]
    refine List.nodup_cons.2 ⟨fun hin ↦ ?_, h.keys⟩
    obtain ⟨frame, hmem, hkey⟩ := List.mem_map.1 hin
    exact find?_eq_none.1 hnew frame hmem hkey
  · rw [hframes]
    exact h.paired.cons _
  · rcases (mem_add hnew).1 hmem with rfl | hmem
    · exact Nat.lt_succ_self _
    · exact Nat.lt_succ_of_lt (h.made frame hmem)

/-- A new frame with the bytes on disk keeps what the pages read as. -/
theorem Holds.add (h : table.Holds written) (hnew : table.find? key = none) :
    (table.add key (diskPage table.disk.files key)).Holds written := by
  have hdisk : ∀ bytes, written key = some bytes → diskPage table.disk.files key = bytes := by
    intro bytes hwritten
    rcases h.backed key bytes hwritten with ⟨frame, hmem, hkey, -⟩ | ⟨-, hpage⟩
    · exact absurd hkey (find?_eq_none.1 hnew frame hmem)
    · exact hpage
  refine ⟨fun frame hmem ↦ ?_, fun frame hmem hdirty ↦ ?_, fun other bytes hwritten ↦ ?_⟩
  · rcases (mem_add hnew).1 hmem with rfl | hmem
    · show diskPage table.disk.files key = (written key).getD (diskPage table.disk.files key)
      rcases hwritten : written key with - | bytes
      · rfl
      · exact hdisk bytes hwritten
    · exact h.bytes frame hmem
  · rcases (mem_add hnew).1 hmem with rfl | hmem
    · exact nomatch hdirty
    · exact h.dirty frame hmem hdirty
  · refine (h.backed other bytes hwritten).imp ?_ id
    rintro ⟨frame, hmem, hframe⟩
    exact ⟨frame, (mem_add hnew).2 (.inr hmem), hframe⟩

/-- Fetching a page that has a frame. -/
theorem fetch_hit (hfind : table.find? key = some frame) (create : Bool) :
    fetch key create table = .ok frame.lru
      ((table.update frame.lru fun frame ↦ { frame with pins := frame.pins + 1 }).touch frame.lru) := by
  simp only [fetch, bind, EStateM.bind, get, getThe, MonadStateOf.get, EStateM.get, hfind]
  rfl

/-- Fetching a page that has none: there is no room, or it cannot be read, or it gets a new frame. -/
theorem fetch_miss (hfits : table.Fits) (h : table.Holds written) (hfind : table.find? key = none)
    (create : Bool) :
    ((∀ frame ∈ table.frames, frame.pins ≠ 0) ∧ table.frames.length = table.capacityPages ∧
      fetch key create table = .error (lit "All buffer pool pages are pinned") table) ∨
    ∃ table', Worked written table table' ∧ table'.find? key = none ∧
      table'.frames.length < table'.capacityPages ∧
      fetch key create table = match Storage.readPage table'.disk key create with
        | .error error => .error error table'
        | .ok bytes => .ok table'.made (table'.add key bytes) := by
  have hfetch : fetch key create table = (makeRoom table.frames.length >>= fun _ ↦ do
      let table ← get
      match Storage.readPage table.disk key create with
      | .error error => throw error
      | .ok bytes =>
        set (table.add key bytes)
        pure table.made) table := by
    have hget : (get : FrameTableM FrameTable) table = .ok table table := rfl
    refine (EStateM.bind_of_ok hget).trans ?_
    -- Without a frame of the page, what is left of `fetch` is the room, the read and the new frame.
    generalize table.find? key = found at hfind ⊢
    subst hfind
    rfl
  rcases makeRoom_eq hfits h with ⟨table', hworked, hroom, hmake⟩ | ⟨hpinned, hfull, hmake⟩
  · have hnone : table'.find? key = none := by
      refine find?_eq_none.2 fun frame' hmem' hkey' ↦ ?_
      obtain ⟨frame, hmem, -, hkey, -⟩ := hworked.follows.back frame' hmem'
      exact find?_eq_none.1 hfind frame hmem (hkey.trans hkey')
    refine .inr ⟨table', hworked, hnone, hroom, ?_⟩
    rw [hfetch, EStateM.bind_of_ok hmake]
    simp only [bind, EStateM.bind, get, getThe, MonadStateOf.get, EStateM.get]
    rcases Storage.readPage table'.disk key create with error | bytes <;> rfl
  · refine .inl ⟨hpinned, hfull, ?_⟩
    rw [hfetch, EStateM.bind_of_error hmake]

/-! ### Throwing frames away -/

/-- `table'` has some of the frames, and all that were pinned. -/
structure Thinned (table table' : FrameTable) : Prop where
  fits : table'.Fits
  frames : ∀ frame ∈ table'.frames, frame ∈ table.frames
  disk : table'.disk = table.disk
  follows : Follows table table'

theorem Thinned.refl (hfits : table.Fits) : Thinned table table :=
  ⟨hfits, fun _ hmem ↦ hmem, rfl, .refl table⟩

/-- What throwing frames away does to a table that fits. -/
def Thins (table table' : FrameTable) : Prop :=
  table.Fits → Thinned table table'

instance : IsPreorder FrameTable Thins where
  refl _ hfits := .refl hfits
  trans _ _ _ h h' hfits :=
    let first := h hfits
    let second := h' first.fits
    ⟨second.fits, fun frame hmem ↦ first.frames frame (second.frames frame hmem),
      second.disk.trans first.disk, first.follows.trans second.follows⟩

/-- Invalidating a key throws unpinned frames away only. -/
theorem keeps_invalidateKey (key : PageKey) : EStateM.Keeps Thins (invalidateKey key) := by
  apply EStateM.Keeps.get_bind
  intro table hfits
  rcases hfind : table.find? key with - | frame
  · exact .refl hfits
  · obtain ⟨hmem, -⟩ := find?_mem hfind
    rcases hpins : frame.pins != 0 with - | -
    · have hzero : frame.pins = 0 := by simpa using hpins
      have herased : Thinned table (table.erase frame) :=
        ⟨hfits.erase hmem, fun other hother ↦ (mem_erase.1 hother).1, rfl, .erase hfits hmem hzero⟩
      simp only [hpins]
      exact herased
    · simp only [hpins]
      exact .refl hfits

/-- Invalidating a file throws its unpinned frames away only. -/
theorem keeps_invalidateFile (file : Path) : EStateM.Keeps Thins (invalidateFile file) := by
  apply EStateM.Keeps.get_bind
  intro table
  generalize table.keys.filter (·.file = file) = keys
  suffices h : EStateM.Keeps Thins (invalidateKeys keys) from h table
  induction keys with
  | nil => exact EStateM.Keeps.pure ()
  | cons key keys ih => exact (keeps_invalidateKey key).bind fun _ ↦ ih

/-- Discarding everything throws unpinned frames away only. -/
theorem keeps_discardAll : EStateM.Keeps Thins discardAll := by
  apply EStateM.Keeps.get_bind
  intro table hfits
  rcases hany : table.frames.any (fun frame ↦ frame.pins != 0) with - | -
  · have hunpinned : ∀ frame ∈ table.frames, frame.pins = 0 := by
      intro frame hmem
      simpa using List.any_eq_false.1 hany frame hmem
    have hdropped : Thinned table { table with frames := [], lru := [] } :=
      ⟨⟨hfits.capacity, Nat.zero_le _, .nil, .nil, .nil, nofun⟩, nofun, rfl, rfl, nofun,
        fun frame hmem hpins ↦ absurd (hunpinned frame hmem) hpins⟩
    exact hdropped
  · exact .refl hfits

end FrameTable

end SkibidiQL
