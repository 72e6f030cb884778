import SkibidiQL.Storage.PoolInvariant

/-!
# Pages under a guard

A use of a page through `Storage.withPage` is the pool bringing the page into its first frame, which
changes no row, and the use of that frame (`StorageOK.withPage`); what the use leaves there is the new
content of the page, and no other page changes (`StorageOK.setFirst`).
-/

namespace SkibidiQL

open SlottedPage

variable {heaps : Path → Prop} {s s' : Storage} {key : PageKey}

/-- The rows of a page, by slot. -/
abbrev Rows := Nat → Option Bytes

/-! ### The first frame -/

/-- The order of the frames does not matter. -/
theorem StorageOK.perm (h : StorageOK heaps s) {frames : List Frame}
    (hperm : frames.Perm s.pool.frames) : PoolStep heaps s (s.withFrames frames) := by
  have hnodup : (frames.map (·.key)).Nodup := (hperm.map _).nodup_iff.2 h.nodup
  have hok : StorageOK heaps (s.withFrames frames) :=
    ⟨h.capacity, hperm.length_eq ▸ h.room, hnodup, fun g hg ↦ h.unpinned g (hperm.mem_iff.1 hg),
      fun g hg ↦ h.heap g (hperm.mem_iff.1 hg), fun g hg ↦ h.frames g (hperm.mem_iff.1 hg), h.files⟩
  refine ⟨hok, fun key ↦ ?_, fun _ ↦ Iff.rfl, fun _ _ ↦ rfl, fun hsettled ↦ ?_,
    fun g hg _ ↦ hperm.mem_iff.1 hg, rfl⟩
  · by_cases hin : ∃ g ∈ s.pool.frames, g.key = key
    · obtain ⟨g, hg, rfl⟩ := hin
      rw [page_of_mem h.nodup hg, page_of_mem hok.nodup (hperm.mem_iff.2 hg)]
    · have hout : ∀ g ∈ s.pool.frames, g.key ≠ key := fun g hg hkey ↦ hin ⟨g, hg, hkey⟩
      rw [page_of_not_mem hout, page_of_not_mem (s := s.withFrames frames) fun g hg ↦
        hout g (hperm.mem_iff.1 hg)]
      rfl
  · exact ⟨fun g hg ↦ hsettled g (hperm.mem_iff.1 hg), fun _ ↦ rfl⟩

/-- A frame moved to the front, the others behind it. -/
theorem cons_others_perm (hnodup : (s.pool.frames.map (·.key)).Nodup) {frame : Frame}
    (hmem : frame ∈ s.pool.frames) : (frame :: s.others frame.key).Perm s.pool.frames := by
  have hothers : ∀ g, g ∈ s.others frame.key ↔ g ∈ s.pool.frames ∧ g.key ≠ frame.key := by
    intro g
    rw [Storage.others, List.mem_filter, bne_iff_ne]
  refine (List.perm_ext_iff_of_nodup ?_ hnodup.of_map).2 fun g ↦ ?_
  · exact List.nodup_cons.2 ⟨fun hin ↦ ((hothers frame).1 hin).2 rfl, hnodup.of_map.filter _⟩
  · rw [List.mem_cons, hothers]
    constructor
    · rintro (rfl | hg)
      · exact hmem
      · exact hg.1
    · intro hg
      by_cases hkey : g.key = frame.key
      · exact .inl (List.inj_on_of_nodup_map hnodup hg hmem hkey)
      · exact .inr ⟨hg, hkey⟩

/-- A page read from a heap file that exists is the page on disk. -/
theorem HeapFilesOK.readPage_eq {disk : Disk} (h : HeapFilesOK heaps disk.files)
    (hheap : heaps key.file) (hfile : key.file ∈ disk.files) (create : Bool) :
    Storage.readPage disk key create = .ok (diskPage disk.files key) := by
  have hsize : pageSize ∣ (disk.read key.file).length := h.size _ hheap
  have hlength : ((disk.read key.file).slice (key.page * pageSize) pageSize).length = 0 ∨
      ((disk.read key.file).slice (key.page * pageSize) pageSize).length = pageSize := by
    rw [List.slice, List.length_take, List.length_drop]
    rw [show pageSize = 4096 from rfl] at hsize ⊢
    omega
  have hcontains : disk.contains key.file := Std.ExtTreeMap.contains_iff_mem.2 hfile
  rw [Storage.readPage, if_pos hcontains]
  rcases hlength with hzero | hfull
  · rw [hzero]
    rfl
  · rw [hfull]
    rfl

/-- A clean frame for a page that has none. -/
theorem StorageOK.load (h : StorageOK heaps s) (hheap : heaps key.file)
    (hfile : key.file ∈ s.disk.files) (hroom : s.pool.frames.length < s.pool.capacityPages)
    (hnew : ∀ frame ∈ s.pool.frames, frame.key ≠ key) :
    PoolStep heaps s
      (s.withFrames ({ key, bytes := diskPage s.disk.files key } :: s.pool.frames)) := by
  set frame : Frame := { key, bytes := diskPage s.disk.files key } with hframe
  have hframeOK : FrameOK s.disk.files frame :=
    ⟨hfile, nofun, fun _ hin ↦ ⟨h.files.pages key hheap hin, rfl⟩,
      fun _ hout ↦ diskPage_beyond (h.files.size _ hheap) hout⟩
  have hok : StorageOK heaps (s.withFrames (frame :: s.pool.frames)) := by
    refine ⟨h.capacity, hroom, ?_, ?_, ?_, ?_, h.files⟩
    · refine List.nodup_cons.2 ⟨fun hin ↦ ?_, h.nodup⟩
      obtain ⟨g, hg, hkey⟩ := List.mem_map.1 hin
      exact hnew g hg hkey
    · exact List.forall_mem_cons.2 ⟨rfl, h.unpinned⟩
    · exact List.forall_mem_cons.2 ⟨hheap, h.heap⟩
    · exact List.forall_mem_cons.2 ⟨hframeOK, h.frames⟩
  refine ⟨hok, fun other ↦ ?_, fun _ ↦ Iff.rfl, fun _ _ ↦ rfl, fun hsettled ↦ ⟨?_, fun _ ↦ rfl⟩,
    List.forall_mem_cons.2 ⟨nofun, fun _ hg _ ↦ hg⟩, rfl⟩
  · by_cases hother : other = key
    · have hpage := page_of_mem hok.nodup (List.mem_cons_self (a := frame))
      rw [hother, page_of_not_mem hnew]
      exact congrArg rowAt hpage
    · by_cases hin : ∃ g ∈ s.pool.frames, g.key = other
      · obtain ⟨g, hg, rfl⟩ := hin
        rw [page_of_mem h.nodup hg, page_of_mem hok.nodup (List.mem_cons_of_mem _ hg)]
      · have hout : ∀ g ∈ s.pool.frames, g.key ≠ other := fun g hg hkey ↦ hin ⟨g, hg, hkey⟩
        rw [page_of_not_mem hout, page_of_not_mem (s := s.withFrames (frame :: s.pool.frames))
          (List.forall_mem_cons.2 ⟨fun hkey ↦ hother hkey.symm, hout⟩)]
        rfl
  · exact List.forall_mem_cons.2 ⟨nofun, hsettled⟩

/-- Fetching a page of a file that exists. -/
theorem StorageOK.fetch (h : StorageOK heaps s) (hheap : heaps key.file)
    (hfile : key.file ∈ s.disk.files) (create : Bool) :
    ∃ s' frame rest, PoolStep heaps s s' ∧ s'.pool.frames = frame :: rest ∧ frame.key = key ∧
      frame.bytes = s.page key ∧
      Storage.fetch key create s = .ok () (s'.withFrames ({ frame with pins := 1 } :: rest)) := by
  cases hfind : s.find? key with
  | some frame =>
    obtain ⟨hmem, rfl⟩ := find?_eq_some hfind
    refine ⟨s.withFrames (frame :: s.others frame.key), frame, s.others frame.key,
      h.perm (cons_others_perm h.nodup hmem), rfl, rfl, (page_of_mem h.nodup hmem).symm, ?_⟩
    simp only [Storage.fetch, bind, EStateM.bind, get, getThe, MonadStateOf.get, EStateM.get, hfind,
      h.unpinned frame hmem]
    rfl
  | none =>
    obtain ⟨s', hrun, hstep, hroom, hsub, hdisk⟩ := h.makeRoom (Nat.le_refl s.pool.frames.length)
    have hnew : ∀ frame ∈ s'.pool.frames, frame.key ≠ key := fun g hg ↦
      find?_eq_none hfind g (hsub g hg)
    have hfile' := (hstep.mem key.file).2 hfile
    have hload := hstep.ok.load hheap hfile' hroom hnew
    refine ⟨_, _, _, hstep.trans hload, rfl, rfl, ?_, ?_⟩
    · rw [page_of_not_mem (find?_eq_none hfind)]
      exact hdisk key (find?_eq_none hfind)
    have hread := hstep.ok.files.readPage_eq hheap hfile' create
    simp only [Storage.fetch, bind, EStateM.bind, get, getThe, MonadStateOf.get, EStateM.get, hfind,
      hrun, hread]
    rfl

/-- Fetching a page of a file that does not exist. -/
theorem StorageOK.fetch_missing (h : StorageOK heaps s) (key : PageKey) (hfile : key.file ∉ s.disk.files) :
    ∃ s', PoolStep heaps s s' ∧ Storage.fetch key false s =
      .error (lit "Cannot open heap file: " ++ s.disk.absolute key.file) s' := by
  have hfind : s.find? key = none := by
    cases hfind : s.find? key with
    | none => rfl
    | some frame =>
      obtain ⟨hmem, rfl⟩ := find?_eq_some hfind
      exact absurd (h.frames frame hmem).exists_file hfile
  obtain ⟨s', hrun, hstep, -, -, -⟩ := h.makeRoom (Nat.le_refl s.pool.frames.length)
  refine ⟨s', hstep, ?_⟩
  have hcontains : s'.disk.contains key.file = false := by
    rw [Disk.contains, ← Bool.not_eq_true, Std.ExtTreeMap.contains_iff_mem, hstep.mem]
    exact hfile
  simp only [Storage.fetch, bind, EStateM.bind, get, getThe, MonadStateOf.get, EStateM.get, hfind,
    hrun, Storage.readPage, hcontains, Bool.false_eq_true, if_false, Disk.absolute, ← hstep.root]
  rfl

/-! ### Using a page -/

/-- The storage with other bytes and another dirty flag in its first frame. -/
def Storage.setFirst (s : Storage) (guard : Guard) : Storage :=
  match s.pool.frames with
  | [] => s
  | frame :: rest => s.withFrames ({ frame with bytes := guard.bytes, dirty := guard.dirty } :: rest)

/-- The first frame is that of this page. -/
def Storage.HasFirst (s : Storage) (key : PageKey) (guard : Guard) : Prop :=
  ∃ frame rest, s.pool.frames = frame :: rest ∧ frame.key = key ∧ frame.bytes = guard.bytes ∧
    frame.dirty = guard.dirty

/-- The use of a page is the use of its frame, the first one, when the page has been brought in. -/
theorem StorageOK.withPage (h : StorageOK heaps s) (key : PageKey) (create : Bool) {α : Type}
    (use : GuardM α) (hheap : heaps key.file) (hfile : key.file ∈ s.disk.files) :
    ∃ s' guard, PoolStep heaps s s' ∧ s'.HasFirst key guard ∧ guard.bytes = s.page key ∧
      Storage.withPage key create use s = match use guard with
        | .ok a guard => .ok a (s'.setFirst guard)
        | .error error guard => .error error (s'.setFirst guard) := by
  obtain ⟨s', frame, rest, hstep, hframes, rfl, hbytes, hfetch⟩ := h.fetch hheap hfile create
  refine ⟨s', ⟨frame.bytes, frame.dirty⟩, hstep, ⟨frame, rest, hframes, rfl, rfl, rfl⟩, hbytes, ?_⟩
  have hnotin : ∀ g ∈ rest, g.key ≠ frame.key := by
    have hnodup := hstep.ok.nodup
    rw [hframes, List.map_cons, List.nodup_cons] at hnodup
    exact fun g hg hkey ↦ hnodup.1 (List.mem_map.2 ⟨g, hg, hkey⟩)
  have hpins : frame.pins = 0 := hstep.ok.unpinned frame (hframes ▸ List.mem_cons_self)
  set pinned := s'.withFrames ({ frame with pins := 1 } :: rest) with hpinned
  have hfind : pinned.find? frame.key = some { frame with pins := 1 } := by
    simp only [Storage.find?, hpinned, Storage.withFrames, List.find?_cons, beq_self_eq_true]
  have hrelease : ∀ guard, pinned.release frame.key guard = s'.setFirst guard := by
    intro guard
    have hrest : rest.map (fun g ↦ if g.key = frame.key then
        { g with bytes := guard.bytes, dirty := guard.dirty, pins := g.pins - 1 } else g) = rest := by
      conv_rhs => rw [← List.map_id rest]
      exact List.map_congr_left fun g hg ↦ if_neg (hnotin g hg)
    simp only [Storage.release, Storage.updateFrame, hpinned, Storage.withFrames, List.map_cons, if_true,
      hrest, Storage.setFirst, hframes, hpins]
  simp only [Storage.withPage, bind, EStateM.bind, hfetch, get, getThe, MonadStateOf.get, EStateM.get,
    hfind]
  cases use ⟨frame.bytes, frame.dirty⟩ with
  | ok a guard => exact congrArg (EStateM.Result.ok a) (hrelease guard)
  | error error guard => exact congrArg (EStateM.Result.error error) (hrelease guard)

/-- Putting the first frame back changes nothing. -/
theorem Storage.HasFirst.setFirst_self {guard : Guard} (h : s.HasFirst key guard) :
    s.setFirst guard = s := by
  obtain ⟨frame, rest, hframes, -, hbytes, hdirty⟩ := h
  rw [Storage.setFirst, hframes, ← hbytes, ← hdirty]
  show s.withFrames (frame :: rest) = s
  rw [← hframes]
  rfl

/-- The page of the first frame is its bytes. -/
theorem Storage.HasFirst.page_eq (h : StorageOK heaps s) {guard : Guard}
    (hfirst : s.HasFirst key guard) : s.page key = guard.bytes := by
  obtain ⟨frame, rest, hframes, rfl, hbytes, -⟩ := hfirst
  rw [page_of_mem h.nodup (hframes ▸ List.mem_cons_self), hbytes]

/-- What is known of a page that is used. -/
theorem Storage.HasFirst.frameOK (h : StorageOK heaps s) {guard : Guard}
    (hfirst : s.HasFirst key guard) : FrameOK s.disk.files { key, bytes := guard.bytes, dirty := guard.dirty } := by
  obtain ⟨frame, rest, hframes, rfl, hbytes, hdirty⟩ := hfirst
  have hok := h.frames frame (hframes ▸ List.mem_cons_self)
  rw [← hbytes, ← hdirty]
  exact ⟨hok.exists_file, hok.dirty_ok, hok.clean_in, hok.clean_out⟩

/-- The storage after a use of a page. -/
theorem StorageOK.setFirst (h : StorageOK heaps s) {guard : Guard} (hfirst : s.HasFirst key guard)
    (guard' : Guard)
    (hframe : FrameOK s.disk.files { key, bytes := guard'.bytes, dirty := guard'.dirty }) :
    StorageOK heaps (s.setFirst guard') ∧ (s.setFirst guard').page key = guard'.bytes ∧
      ∀ other, other ≠ key → (s.setFirst guard').page other = s.page other := by
  obtain ⟨frame, rest, hframes, rfl, -, -⟩ := hfirst
  set frame' : Frame := { frame with bytes := guard'.bytes, dirty := guard'.dirty } with hframe'
  have hset : s.setFirst guard' = s.withFrames (frame' :: rest) := by
    rw [Storage.setFirst, hframes]
  have hmem : ∀ g ∈ rest, g ∈ s.pool.frames := fun g hg ↦ hframes ▸ List.mem_cons_of_mem _ hg
  have hmem' : frame ∈ s.pool.frames := hframes ▸ List.mem_cons_self
  have hnodup := h.nodup
  rw [hframes] at hnodup
  have hok : StorageOK heaps (s.withFrames (frame' :: rest)) := by
    refine ⟨h.capacity, ?_, hnodup, ?_, ?_, ?_, h.files⟩
    · have hroom := h.room
      rwa [hframes] at hroom
    · exact List.forall_mem_cons.2 ⟨h.unpinned frame hmem', fun g hg ↦ h.unpinned g (hmem g hg)⟩
    · exact List.forall_mem_cons.2 ⟨h.heap frame hmem', fun g hg ↦ h.heap g (hmem g hg)⟩
    · exact List.forall_mem_cons.2
        ⟨⟨hframe.exists_file, hframe.dirty_ok, hframe.clean_in, hframe.clean_out⟩,
          fun g hg ↦ h.frames g (hmem g hg)⟩
  rw [hset]
  -- The page of the first frame reads as the guard left it, and every other one as before.
  refine ⟨hok, page_of_mem hok.nodup (List.mem_cons_self (a := frame')), fun other hother ↦ ?_⟩
  by_cases hin : ∃ g ∈ rest, g.key = other
  · obtain ⟨g, hg, rfl⟩ := hin
    rw [page_of_mem h.nodup (hmem g hg), page_of_mem hok.nodup (List.mem_cons_of_mem _ hg)]
  · have hout : ∀ g ∈ rest, g.key ≠ other := fun g hg hkey ↦ hin ⟨g, hg, hkey⟩
    rw [page_of_not_mem (s := s.withFrames (frame' :: rest))
        (List.forall_mem_cons.2 ⟨fun hkey ↦ hother hkey.symm, hout⟩),
      page_of_not_mem (by
        rw [hframes]
        exact List.forall_mem_cons.2 ⟨fun hkey ↦ hother hkey.symm, hout⟩)]
    rfl

/-! ### Pages of the file -/

theorem rowAt_zero (slot : Nat) : rowAt PageBytes.zero slot = none := by
  apply rowAt_of_ge
  rw [slotCount, valid_zero]
  exact Nat.zero_le _

/-- No row is read from an empty page. -/
theorem read_zero (slot : Nat) : SlottedPage.read PageBytes.zero slot = .ok none := by
  unfold SlottedPage.read
  rw [valid_zero]
  rfl

/-- What a guard shows of a heap page: a well-formed page, or zeros behind the end of the file. -/
theorem Storage.HasFirst.page_ok (h : StorageOK heaps s) {guard : Guard}
    (hfirst : s.HasFirst key guard) :
    PageOK guard.bytes ∨ guard.bytes = PageBytes.zero ∧ ¬guard.dirty ∧
      pagesOf s.disk.files key.file ≤ key.page := by
  have hframe := hfirst.frameOK h
  by_cases hdirty : guard.dirty
  · exact .inl (hframe.dirty_ok hdirty).1
  · by_cases hin : key.page < pagesOf s.disk.files key.file
    · exact .inl (hframe.clean_in hdirty hin).1
    · have hout := Nat.le_of_not_lt hin
      exact .inr ⟨hframe.clean_out hdirty hout, hdirty, hout⟩

/-- Pages behind the end have no rows. -/
theorem rowAt_beyond (h : StorageOK heaps s) (key : PageKey) (hsettled : Settled s) (hheap : heaps key.file)
    (hout : pagesOf s.disk.files key.file ≤ key.page) (slot : Nat) :
    rowAt (s.page key) slot = none := by
  by_cases hin : ∃ g ∈ s.pool.frames, g.key = key
  · obtain ⟨g, hg, rfl⟩ := hin
    have hclean : ¬g.dirty := fun hdirty ↦ Nat.not_lt.2 hout (hsettled g hg hdirty)
    rw [page_of_mem h.nodup hg, (h.frames g hg).clean_out hclean hout, rowAt_zero]
  · rw [page_of_not_mem fun g hg hkey ↦ hin ⟨g, hg, hkey⟩, diskPage_beyond (h.files.size _ hheap) hout,
      rowAt_zero]

/-- A page of the file has changed. -/
structure PageStep (heaps : Path → Prop) (key : PageKey) (s s' : Storage) : Prop where
  ok : StorageOK heaps s'
  settled : Settled s'
  rows : ∀ other, other ≠ key → rowAt (s'.page other) = rowAt (s.page other)
  mem : ∀ path, path ∈ s'.disk.files ↔ path ∈ s.disk.files
  other : ∀ path, ¬heaps path → s'.disk.files[path]? = s.disk.files[path]?
  pages : ∀ path, pagesOf s'.disk.files path = pagesOf s.disk.files path
  root : s'.disk.root = s.disk.root

/-- Looking at a page. -/
theorem StorageOK.viewPage (h : StorageOK heaps s) (key : PageKey) (create : Bool) {α : Type}
    (use : GuardM α) (post : Except Error α → Prop) (hheap : heaps key.file)
    (hfile : key.file ∈ s.disk.files)
    (huse : ∀ guard : Guard, PageOK guard.bytes ∨ guard.bytes = PageBytes.zero →
      rowAt guard.bytes = rowAt (s.page key) →
        ∃ result, use guard = EStateM.answer result guard ∧ post result) :
    ∃ s' result, PoolStep heaps s s' ∧
      Storage.withPage key create use s = EStateM.answer result s' ∧ post result := by
  obtain ⟨s', guard, hstep, hfirst, -, hrun⟩ := h.withPage key create use hheap hfile
  obtain ⟨result, hresult, hpost⟩ := huse guard ((hfirst.page_ok hstep.ok).imp_right (·.1)) (by
    rw [← hstep.rows key, hfirst.page_eq hstep.ok])
  refine ⟨s', result, hstep, ?_, hpost⟩
  rw [hrun, hresult]
  cases result with
  | ok a => exact congrArg (EStateM.Result.ok a) hfirst.setFirst_self
  | error error => exact congrArg (EStateM.Result.error error) hfirst.setFirst_self

/-- Changing a page of the file. -/
theorem StorageOK.changePage (h : StorageOK heaps s) (key : PageKey) (create : Bool) {α : Type}
    (use : GuardM α) (post : Rows → α → Rows → Prop) (hsettled : Settled s) (hheap : heaps key.file)
    (hfile : key.file ∈ s.disk.files) (hin : key.page < pagesOf s.disk.files key.file)
    (huse : ∀ guard : Guard, PageOK guard.bytes → guard.bytes = s.page key →
      ∃ a guard', use guard = .ok a guard' ∧ PageOK guard'.bytes ∧
        post (rowAt guard.bytes) a (rowAt guard'.bytes) ∧
        (guard'.dirty ∨ guard'.dirty = guard.dirty ∧ rowAt guard'.bytes = rowAt guard.bytes)) :
    ∃ a s', Storage.withPage key create use s = .ok a s' ∧ PageStep heaps key s s' ∧
      post (rowAt (s.page key)) a (rowAt (s'.page key)) := by
  obtain ⟨s₁, guard, hstep, hfirst, hbytes, hrun⟩ := h.withPage key create use hheap hfile
  obtain ⟨hsettled₁, hpages₁⟩ := hstep.settled hsettled
  have hin₁ : key.page < pagesOf s₁.disk.files key.file := by
    rw [hpages₁]
    exact hin
  have hpage : PageOK guard.bytes := by
    refine (hfirst.page_ok hstep.ok).resolve_right fun hout ↦ ?_
    exact Nat.not_lt.2 hout.2.2 hin₁
  obtain ⟨a, guard', hguard', hpage', hpost, hdirty⟩ := huse guard hpage hbytes
  have hold := hfirst.frameOK hstep.ok
  -- A use that leaves the guard clean has to leave the rows, which the disk still has.
  have hframe : FrameOK s₁.disk.files { key, bytes := guard'.bytes, dirty := guard'.dirty } := by
    refine ⟨hold.exists_file, fun _ ↦ ⟨hpage', Nat.le_of_lt hin₁⟩, fun hclean _ ↦ ⟨hpage', ?_⟩,
      fun _ hout ↦ absurd hin₁ (Nat.not_lt.2 hout)⟩
    obtain ⟨hflag, hrows⟩ := hdirty.resolve_left hclean
    have hclean' : ¬guard.dirty := fun hd ↦ hclean (hflag.trans hd)
    exact hrows.trans (hold.clean_in hclean' hin₁).2
  obtain ⟨hok, hself, hothers⟩ := hstep.ok.setFirst hfirst guard' hframe
  have hdisk : (s₁.setFirst guard').disk = s₁.disk := by
    unfold Storage.setFirst
    split <;> rfl
  refine ⟨a, s₁.setFirst guard', by rw [hrun, hguard'], ⟨hok, ?_, fun other hother ↦ ?_, ?_, ?_, ?_, ?_⟩, ?_⟩
  · intro g hg hgdirty
    obtain ⟨frame, rest, hframes, hkey, -, -⟩ := hfirst
    rw [Storage.setFirst, hframes] at hg
    rw [hdisk]
    rcases List.mem_cons.1 hg with rfl | hg
    · show frame.key.page < _
      rw [hkey]
      exact hin₁
    · exact hsettled₁ g (hframes ▸ List.mem_cons_of_mem _ hg) hgdirty
  · rw [hothers other hother, hstep.rows]
  · rw [hdisk]
    exact hstep.mem
  · rw [hdisk]
    exact hstep.other
  · rw [hdisk]
    exact hpages₁
  · rw [hdisk]
    exact hstep.root
  · rw [hself, ← hstep.rows key, hfirst.page_eq hstep.ok]
    exact hpost

/-! ### Growing a file -/

/-- Flushing a dirty frame grows its file up to the page. -/
theorem StorageOK.flushed_pages (h : StorageOK heaps s) {frame : Frame} (hmem : frame ∈ s.pool.frames)
    (path : Path) : pagesOf (Storage.flushed s.disk frame).files path =
      if frame.dirty ∧ path = frame.key.file then max (pagesOf s.disk.files path) (frame.key.page + 1)
      else pagesOf s.disk.files path := by
  have hok := h.frames frame hmem
  unfold Storage.flushed
  by_cases hdirty : frame.dirty
  · rw [if_pos hdirty, pagesOf_writePage (Std.ExtTreeMap.contains_iff_mem.2 hok.exists_file)
      (hok.dirty_ok hdirty).2 (h.files.size _ (h.heap frame hmem))]
    simp only [hdirty, true_and]
  · rw [if_neg hdirty, if_neg fun hand ↦ hdirty hand.1]

/-- The dirty frames of the pool after a frame was flushed. -/
theorem dirty_of_flushKey {key : PageKey} {frame : Frame}
    (hmem : frame ∈ (s.flushKey key).pool.frames) (hdirty : frame.dirty) :
    frame ∈ s.pool.frames ∧ (frame.key = key → s.find? key = none) := by
  unfold Storage.flushKey at hmem
  cases hfind : s.find? key with
  | none =>
    rw [hfind] at hmem
    exact ⟨hmem, fun _ ↦ rfl⟩
  | some found =>
    rw [hfind] at hmem
    obtain ⟨g, hg, heq⟩ := List.mem_map.1 hmem
    split at heq
    · rw [← heq] at hdirty
      cases hdirty
    · rename_i hkey
      subst heq
      exact ⟨hg, fun hk ↦ absurd hk hkey⟩

/-- The file has one page more than these counts say. -/
def Grown (counts : Path → Nat) (key : PageKey) (s : Storage) : Prop :=
  ∀ path, pagesOf s.disk.files path = if path = key.file then counts path + 1 else counts path

/-- A new page of the file is dirty, or has been written. -/
structure Growing (counts : Path → Nat) (key : PageKey) (s : Storage) : Prop where
  others : ∀ frame ∈ s.pool.frames, frame.dirty → frame.key ≠ key →
    frame.key.page < counts frame.key.file
  grows : (∃ frame ∈ s.pool.frames, frame.key = key ∧ frame.dirty) ∧
      (∀ path, pagesOf s.disk.files path = counts path) ∨ Grown counts key s

/-- While one page is new, flushing grows a file by that page only. -/
theorem StorageOK.flushKey_grows (h : StorageOK heaps s) {counts : Path → Nat}
    (hnew : key.page = counts key.file) (hgrowing : Growing counts key s) (other : PageKey) :
    Growing counts key (s.flushKey other) ∧
      (other = key ∨ Grown counts key s → Grown counts key (s.flushKey other)) := by
  have hothers : ∀ frame ∈ (s.flushKey other).pool.frames, frame.dirty → frame.key ≠ key →
      frame.key.page < counts frame.key.file := fun frame hmem hdirty ↦
    hgrowing.others frame (dirty_of_flushKey hmem hdirty).1 hdirty
  cases hfind : s.find? other with
  | none =>
    have hsame : s.flushKey other = s := by
      rw [Storage.flushKey, hfind]
    rw [hsame]
    refine ⟨hgrowing, fun hor ↦ hor.elim (fun heq ↦ hgrowing.grows.resolve_left ?_) id⟩
    rintro ⟨⟨frame, hmem, hkey, -⟩, -⟩
    exact find?_eq_none hfind frame hmem (hkey.trans heq.symm)
  | some found =>
    obtain ⟨hfound, rfl⟩ := find?_eq_some hfind
    have hpages : ∀ path, pagesOf (s.flushKey found.key).disk.files path =
        if found.dirty ∧ path = found.key.file then
          max (pagesOf s.disk.files path) (found.key.page + 1)
        else pagesOf s.disk.files path := by
      intro path
      rw [← h.flushed_pages hfound path, Storage.flushKey, hfind]
    by_cases hkey : found.key = key
    · -- the new page itself is written
      have hgrown : Grown counts key (s.flushKey found.key) := by
        intro path
        rw [hpages, hkey]
        rcases hgrowing.grows with ⟨⟨frame, hmem, hframe, hdirty⟩, hcounts⟩ | hgrown
        · obtain rfl := List.inj_on_of_nodup_map h.nodup hmem hfound (hframe.trans hkey.symm)
          simp only [hdirty, true_and, hcounts]
          split
          · rename_i hpath
            rw [hpath, hnew]
            omega
          · rfl
        · rw [hgrown path]
          split_ifs with hboth hpath hpath
          · rw [hpath, hnew]
            omega
          · exact absurd hboth.2 hpath
          · rfl
          · rfl
      exact ⟨⟨hothers, .inr hgrown⟩, fun _ ↦ hgrown⟩
    -- Another page is written over in place, since only the new one lies behind the pages of its file.
    · have hsame : ∀ path, pagesOf (s.flushKey found.key).disk.files path =
          pagesOf s.disk.files path := by
        intro path
        rw [hpages]
        split
        · rename_i hboth
          have hlt := hgrowing.others found hfound hboth.1 hkey
          have hcount : counts path ≤ pagesOf s.disk.files path := by
            rcases hgrowing.grows with ⟨-, hcounts⟩ | hgrown
            · rw [hcounts]
            · rw [hgrown]
              split <;> omega
          rw [← hboth.2] at hlt
          omega
        · rfl
      have hstays : Grown counts key s → Grown counts key (s.flushKey found.key) := fun hgrown path ↦
        (hsame path).trans (hgrown path)
      refine ⟨⟨hothers, ?_⟩, fun hor ↦ hstays (hor.resolve_left hkey)⟩
      rcases hgrowing.grows with ⟨⟨frame, hmem, hframe, hdirty⟩, hcounts⟩ | hgrown
      · refine .inl ⟨⟨frame, ?_, hframe, hdirty⟩, fun path ↦ (hsame path).trans (hcounts path)⟩
        rw [Storage.flushKey, hfind]
        exact List.mem_map.2 ⟨frame, hmem, if_neg fun hk ↦ hkey (hk.symm.trans hframe)⟩
      · exact .inr (hstays hgrown)

/-- While one page is new, flushing several pages grows its file by that page only. -/
theorem StorageOK.flushKeys_grows (h : StorageOK heaps s) {counts : Path → Nat}
    (hnew : key.page = counts key.file) (hgrowing : Growing counts key s) (keys : List PageKey) :
    Growing counts key (keys.foldl Storage.flushKey s) ∧
      (key ∈ keys ∨ Grown counts key s → Grown counts key (keys.foldl Storage.flushKey s)) := by
  induction keys generalizing s with
  | nil => exact ⟨hgrowing, fun hor ↦ hor.resolve_left List.not_mem_nil⟩
  | cons other keys ih =>
    obtain ⟨hstep, hself⟩ := h.flushKey_grows hnew hgrowing other
    obtain ⟨hrun, hgrown⟩ := ih (h.flushKey other).ok hstep
    refine ⟨hrun, fun hor ↦ hgrown ?_⟩
    rcases hor with hmem | hgrown
    · rcases List.mem_cons.1 hmem with rfl | hmem
      · exact .inr (hself (.inl rfl))
      · exact .inl hmem
    · exact .inr (hself (.inr hgrown))

/-- Flushing the file of a new dirty page puts the page at its end. -/
theorem StorageOK.flushFile_new (h : StorageOK heaps s) {frame : Frame} (hmem : frame ∈ s.pool.frames)
    (hdirty : frame.dirty) (hnew : frame.key.page = pagesOf s.disk.files frame.key.file)
    (hothers : ∀ g ∈ s.pool.frames, g.dirty → g.key ≠ frame.key →
      g.key.page < pagesOf s.disk.files g.key.file) :
    Settled (s.flushFile frame.key.file) ∧
      ∀ path, pagesOf (s.flushFile frame.key.file).disk.files path =
        if path = frame.key.file then pagesOf s.disk.files path + 1 else pagesOf s.disk.files path := by
  have hgrowing : Growing (pagesOf s.disk.files) frame.key s :=
    ⟨hothers, .inl ⟨⟨frame, hmem, rfl, hdirty⟩, fun _ ↦ rfl⟩⟩
  have hkeys : frame.key ∈ s.keys.filter (·.file = frame.key.file) := by
    rw [List.mem_filter, Storage.keys, (s.pool.iteration.perm _).mem_iff]
    exact ⟨List.mem_map.2 ⟨frame, hmem, rfl⟩, decide_eq_true rfl⟩
  obtain ⟨hrun, hgrown⟩ := h.flushKeys_grows hnew hgrowing (s.keys.filter (·.file = frame.key.file))
  have hpages : Grown (pagesOf s.disk.files) frame.key (s.flushFile frame.key.file) :=
    hgrown (.inl hkeys)
  refine ⟨fun g hg hgdirty ↦ ?_, hpages⟩
  rw [hpages]
  by_cases hkey : g.key = frame.key
  · rw [hkey, if_pos rfl, hnew]
    exact Nat.lt_succ_self _
  · have hlt := hrun.others g hg hgdirty hkey
    split
    · exact Nat.lt_succ_of_lt hlt
    · exact hlt

end SkibidiQL
