import SkibidiQL.Base.StateError
import SkibidiQL.Storage.SlottedPageSpec

/-!
# Inserting into a slotted page

`compact` moves the rows together without changing them, and `insert` binds a free slot to the row, or
leaves the rows as they are when the page is full.
-/

namespace SkibidiQL

namespace SlottedPage

open PageBytes

variable {page : PageBytes}

/-! ### Placing a row -/

/-- What an insertion that found a slot has done. -/
structure Placed (p : PageBytes) (row : Bytes) (slot : Nat) (q : PageBytes) : Prop where
  ok : PageOK q
  free : rowAt p slot = none
  slotCount_eq : slotCount q = max (slotCount p) (slot + 1)
  rowAt_eq : rowAt q = Function.update (rowAt p) slot (some row)

/-- A row is placed in a free slot. -/
theorem PageOK.placeRow_some (h : PageOK page) {slot : Nat} {row : Bytes}
    (hslot : slot < page.read16 4) (hflag : rowFlag page slot = 0)
    (hroom : page.read16 6 + row.length ≤ page.read16 8) :
    ∃ q, placeRow page (some slot) row = (slot, q) ∧ Placed page row slot q := by
  have hpage : pageSize = 4096 := rfl
  obtain ⟨hlow, -, hend⟩ := h.slot_bounds hslot
  have hbelow := slotOffset_le h hslot
  have hnewEnd : sub16 (page.read16 8) row.length = page.read16 8 - row.length :=
    sub16_of_le (by omega) (page.read16_lt 8)
  set e := page.read16 8 - row.length with he
  set q := writeSlot ((page.write e row).write16 8 e) slot e row.length with hq
  have hplace : placeRow page (some slot) row = (slot, q) := by
    rw [placeRow, hnewEnd]
  have hslice : ∀ {start size : Nat}, start + size ≤ slotOffset slot ∨ slotOffset slot + 6 ≤ start →
      start + size ≤ 8 ∨ 10 ≤ start → start + size ≤ e ∨ page.read16 8 ≤ start →
      q.bytes.slice start size = page.bytes.slice start size := by
    intro start size hentry hheader hrow
    rw [hq, slice_writeSlot (by omega) hentry, slice_write16_disjoint (by omega) (by omega),
      slice_write_disjoint (by omega) (by omega)]
  have hread : ∀ start, start + 2 ≤ 8 → q.read16 start = page.read16 start := by
    intro start hstart
    rw [read16, hslice (by omega) (by omega) (by omega), ← read16]
  have hcount := hread 4 (by omega)
  obtain ⟨hok, hfree, hslotCount, hrows⟩ := h.of_place (q := q) slot row
    (fun _ ↦ hflag) (by rw [read32, hslice (by omega) (by omega) (by omega), ← read32])
    (by rw [hcount]; omega) (Nat.le_of_lt hslot) (by rw [hcount, hread _ (by omega), h.start_eq])
    (by rw [hq, read16_writeSlot (by omega) (by omega),
          read16_write16_self (by omega) (by omega)])
    (by rw [hread _ (by omega)]; exact hroom)
    (fun s hs hne ↦ by
      have hbelow' := slotOffset_le h hs
      exact entry_congr (hslice (by unfold slotOffset; omega) (by unfold slotOffset; omega)
        (by omega)))
    (by rw [entry, hq, rowFlag_writeSlot (by omega), rowOffset_writeSlot (by omega) (by omega),
          rowLength_writeSlot (by omega) (by omega)])
    (fun hstart ↦ hslice (by omega) (by omega) (by omega))
    (by rw [hq, slice_writeSlot (by omega) (by omega), slice_write16_disjoint (by omega) (by omega),
          slice_write_self (by omega)])
  exact ⟨q, hplace, hok, hfree, hslotCount, hrows⟩

/-- Or in a new one. -/
theorem PageOK.placeRow_none (h : PageOK page) {row : Bytes}
    (hroom : page.read16 6 + row.length + 6 ≤ page.read16 8) :
    ∃ q, placeRow page none row = (page.read16 4, q) ∧ Placed page row (page.read16 4) q := by
  have hpage : pageSize = 4096 := rfl
  have hend := h.end_le
  have hstart := h.start_eq
  have hoffset : slotOffset (page.read16 4) = page.read16 6 := by
    rw [slotOffset, hstart]
    omega
  have hnewEnd : sub16 (page.read16 8) row.length = page.read16 8 - row.length :=
    sub16_of_le (by omega) (page.read16_lt 8)
  set e := page.read16 8 - row.length with he
  set p' := (page.write e row).write16 8 e with hp'
  have hcount' : p'.read16 4 = page.read16 4 := by
    rw [hp', read16_write16_disjoint (by omega) (by omega),
      read16_write_disjoint (by omega) (by omega)]
  set slot := page.read16 4 with hslot
  set q := writeSlot ((p'.write16 4 (slot + 1)).write16 6 (16 + (slot + 1) * 6)) slot e row.length
    with hq
  have hplace : placeRow page none row = (slot, q) := by
    simp only [placeRow, hnewEnd]
    rw [← hp', hcount']
  -- Only the new entry, the header and the bytes of the row are written.
  have hslice : ∀ {start size : Nat}, start + size ≤ slotOffset slot ∨ slotOffset slot + 6 ≤ start →
      start + size ≤ 4 ∨ 10 ≤ start → start + size ≤ e ∨ page.read16 8 ≤ start →
      q.bytes.slice start size = page.bytes.slice start size := by
    intro start size hentry hheader hrow
    rw [hq, slice_writeSlot (by omega) hentry, slice_write16_disjoint (by omega) (by omega),
      slice_write16_disjoint (by omega) (by omega), hp', slice_write16_disjoint (by omega) (by omega),
      slice_write_disjoint (by omega) (by omega)]
  have hcount : q.read16 4 = slot + 1 := by
    rw [hq, read16_writeSlot (by omega) (by omega), read16_write16_disjoint (by omega) (by omega),
      read16_write16_self (by omega) (by omega)]
  have hnewStart : q.read16 6 = 16 + (slot + 1) * 6 := by
    rw [hq, read16_writeSlot (by omega) (by omega), read16_write16_self (by omega) (by omega)]
  obtain ⟨hok, hfree, hslotCount, hrows⟩ := h.of_place (q := q) slot row
    (fun hlt ↦ absurd hlt (Nat.lt_irrefl _))
    (by rw [read32, hslice (by omega) (by omega) (by omega), ← read32])
    (by rw [hcount]; omega) (Nat.le_refl _) (by rw [hcount, hnewStart]; omega)
    (by rw [hq, read16_writeSlot (by omega) (by omega), read16_write16_disjoint (by omega) (by omega),
          read16_write16_disjoint (by omega) (by omega), hp', read16_write16_self (by omega) (by omega)])
    (by rw [hnewStart]; omega)
    (fun s hs hne ↦ by
      have hbelow := slotOffset_le h hs
      exact entry_congr (hslice (by omega) (by unfold slotOffset; omega) (by omega)))
    (by rw [entry, hq, rowFlag_writeSlot (by omega), rowOffset_writeSlot (by omega) (by omega),
          rowLength_writeSlot (by omega) (by omega)])
    (fun hstart ↦ hslice (by omega) (by omega) (by omega))
    (by rw [hq, slice_writeSlot (by omega) (by omega), slice_write16_disjoint (by omega) (by omega),
          slice_write16_disjoint (by omega) (by omega), hp',
          slice_write16_disjoint (by omega) (by omega), slice_write_self (by omega)])
  exact ⟨q, hplace, hok, hfree, hslotCount, hrows⟩

/-! ### Compaction -/

/-- The rows of a page with their slots, in the order of the slots. -/
def rowList (page : PageBytes) : List (Nat × Bytes) :=
  (List.range (slotCount page)).filterMap fun slot ↦ (rowAt page slot).map fun row ↦ (slot, row)

/-- The rows of a page are listed with their slots. -/
theorem mem_rowList {item : Nat × Bytes} :
    item ∈ rowList page ↔ rowAt page item.1 = some item.2 := by
  rw [rowList, List.mem_filterMap]
  constructor
  · rintro ⟨slot, -, hslot⟩
    obtain ⟨row, hrow, rfl⟩ := Option.map_eq_some_iff.1 hslot
    exact hrow
  · intro hrow
    refine ⟨item.1, List.mem_range.2 ?_, by rw [hrow]; rfl⟩
    by_contra hge
    rw [rowAt_of_ge (Nat.le_of_not_lt hge)] at hrow
    cases hrow

/-- Each slot once. -/
theorem rowList_slots_nodup (page : PageBytes) : ((rowList page).map Prod.fst).Nodup := by
  have hslots : (rowList page).map Prod.fst =
      (List.range (slotCount page)).filter fun slot ↦ (rowAt page slot).isSome := by
    rw [rowList, List.map_filterMap, ← List.filterMap_eq_filter]
    refine List.filterMap_congr fun slot _ ↦ ?_
    cases hrow : rowAt page slot <;> simp [Option.guard, hrow]
  rw [hslots]
  exact List.nodup_range.filter _

/-- Their lengths make up the used space. -/
theorem sum_rowList (page : PageBytes) :
    ((rowList page).map fun item ↦ item.2.length).sum = usedSpace page := by
  unfold rowList usedSpace
  induction slotCount page with
  | zero => rfl
  | succ n ih =>
    rw [List.range_succ, List.filterMap_append, List.map_append, List.sum_append, ih,
      Finset.sum_range_succ]
    cases hrow : rowAt page n <;> simp [hrow]

/-- The rows that compaction collects are the rows of the page. -/
theorem PageOK.liveRows_eq (h : PageOK page) : liveRows page = .ok (rowList page) := by
  have hmapM : ∀ slots : List Nat, (slots.mapM fun slot ↦ do
      pure ((← read page slot).map fun row ↦ (slot, row)) : Except Error _) =
      .ok (slots.map fun slot ↦ (rowAt page slot).map fun row ↦ (slot, row)) := by
    intro slots
    induction slots with
    | nil => rfl
    | cons slot slots ih =>
      rw [List.mapM_cons, ih, h.read_eq]
      rfl
  rw [liveRows, hmapM, rowList]
  show Except.ok _ = Except.ok _
  rw [List.filterMap_map]
  rfl

/-- The state of the second loop of `compact` after the rows `done`. -/
structure Compacted (p : PageBytes) (done : List (Nat × Bytes)) (q : PageBytes) (e : Nat) :
    Prop where
  header_eq : header q = header p
  end_eq : e + (done.map fun item ↦ item.2.length).sum = pageSize
  placed : ∀ item ∈ done, rowFlag q item.1 = 1 ∧ rowLength q item.1 = item.2.length ∧
    e ≤ rowOffset q item.1 ∧ rowOffset q item.1 + item.2.length ≤ pageSize ∧
    q.bytes.slice (rowOffset q item.1) item.2.length = item.2
  apart : ∀ a ∈ done, ∀ b ∈ done, a.1 ≠ b.1 →
    rowOffset q a.1 + a.2.length ≤ rowOffset q b.1 ∨ rowOffset q b.1 + b.2.length ≤ rowOffset q a.1
  others : ∀ s < p.read16 4, s ∉ done.map Prod.fst → entry q s = entry p s

/-- One more row is put back behind the others. -/
theorem Compacted.step {p q : PageBytes} (hp : PageOK p) {done : List (Nat × Bytes)} {e : Nat}
    (h : Compacted p done q e) {item : Nat × Bytes} (hitem : item.1 < p.read16 4)
    (hdone : ∀ other ∈ done, other.1 < p.read16 4 ∧ other.1 ≠ item.1)
    (hroom : p.read16 6 + item.2.length ≤ e) :
    Compacted p (done ++ [item]) (compactRow (q, e) item).1 (compactRow (q, e) item).2 := by
  obtain ⟨slot, row⟩ := item
  simp only at hitem hdone hroom
  have hpage : pageSize = 4096 := rfl
  have he := h.end_eq
  have hnewEnd : sub16 e row.length = e - row.length := sub16_of_le (by omega) (by omega)
  obtain ⟨hlow, -, -⟩ := hp.slot_bounds hitem
  have hbelow := slotOffset_le hp hitem
  set e' := e - row.length with he'
  set q' := writeSlot (q.write e' row) slot e' row.length with hq'
  have hstep : compactRow (q, e) (slot, row) = (q', e') := by
    rw [compactRow, hnewEnd]
  -- Only the entry of the slot and the bytes of the row below the old end are written.
  have hslice : ∀ {start size : Nat}, start + size ≤ slotOffset slot ∨ slotOffset slot + 6 ≤ start →
      start + size ≤ e' ∨ e ≤ start → q'.bytes.slice start size = q.bytes.slice start size := by
    intro start size hentry hrow
    rw [hq', slice_writeSlot (by omega) hentry, slice_write_disjoint (by omega) (by omega)]
  have hentry : ∀ s < p.read16 4, s ≠ slot → entry q' s = entry q s := by
    intro s hs hne
    have hbelow' := slotOffset_le hp hs
    exact entry_congr (hslice (by unfold slotOffset; omega) (by omega))
  have hflag : rowFlag q' slot = 1 := rowFlag_writeSlot (by omega)
  have hoffset : rowOffset q' slot = e' := rowOffset_writeSlot (by omega) (by omega)
  have hlength : rowLength q' slot = row.length := rowLength_writeSlot (by omega) (by omega)
  have hrow : q'.bytes.slice e' row.length = row := by
    rw [hq', slice_writeSlot (by omega) (by omega), slice_write_self (by omega)]
  have hold : ∀ item ∈ done, rowFlag q' item.1 = 1 ∧ rowLength q' item.1 = item.2.length ∧
      rowOffset q' item.1 = rowOffset q item.1 := by
    intro item hmem
    obtain ⟨hlt, hne⟩ := hdone item hmem
    have hsame := hentry item.1 hlt hne
    simp only [entry, Prod.mk.injEq] at hsame
    obtain ⟨hf, hl, -⟩ := h.placed item hmem
    exact ⟨hsame.1.trans hf, hsame.2.2.trans hl, hsame.2.1⟩
  rw [hstep]
  show Compacted p (done ++ [(slot, row)]) q' e'
  refine ⟨?_, ?_, ?_, ?_, ?_⟩
  · have hread : ∀ start, start + 2 ≤ 16 → q'.read16 start = q.read16 start := by
      intro start hstart
      rw [read16, hslice (by omega) (by omega), ← read16]
    have hmagic : q'.read32 0 = q.read32 0 := by
      rw [read32, hslice (by omega) (by omega), ← read32]
    rw [← h.header_eq, header, hmagic, hread 4 (by omega), hread 6 (by omega), hread 8 (by omega)]
    rfl
  · rw [List.map_append, List.sum_append, List.map_singleton, List.sum_singleton]
    simp only
    omega
  · intro other hmem
    rcases List.mem_append.1 hmem with hmem | hmem
    · obtain ⟨hf, hl, ho⟩ := hold other hmem
      obtain ⟨-, -, hlow', hhigh', hbytes⟩ := h.placed other hmem
      refine ⟨hf, hl, by omega, by omega, ?_⟩
      rw [ho, hslice (by omega) (by omega)]
      exact hbytes
    · rw [List.mem_singleton.1 hmem]
      exact ⟨hflag, hlength, by rw [hoffset], by rw [hoffset]; simp only; omega,
        by rw [hoffset]; exact hrow⟩
  -- Rows put back before stand above the old end, and the new one below it.
  · intro a ha b hb hne
    rcases List.mem_append.1 ha with ha | ha <;> rcases List.mem_append.1 hb with hb | hb
    · rw [(hold a ha).2.2, (hold b hb).2.2]
      exact h.apart a ha b hb hne
    · have hplaced := (h.placed a ha).2.2.1
      rw [List.mem_singleton.1 hb, (hold a ha).2.2, hoffset]
      simp only
      omega
    · have hplaced := (h.placed b hb).2.2.1
      rw [List.mem_singleton.1 ha, (hold b hb).2.2, hoffset]
      simp only
      omega
    · rw [List.mem_singleton.1 ha, List.mem_singleton.1 hb] at hne
      exact absurd rfl hne
  · intro s hs hmem
    rw [List.map_append, List.mem_append, not_or] at hmem
    have hne : s ≠ slot := fun heq ↦ hmem.2 (by rw [heq]; exact List.mem_singleton_self _)
    rw [hentry s hs hne]
    exact h.others s hs hmem.1

/-- All rows are put back one behind the other. -/
theorem Compacted.run {p q : PageBytes} (hp : PageOK p) {done : List (Nat × Bytes)} {e : Nat}
    (h : Compacted p done q e) (todo : List (Nat × Bytes)) (hslots : ∀ item ∈ done ++ todo, item.1 < p.read16 4)
    (hnodup : ((done ++ todo).map Prod.fst).Nodup)
    (hroom : p.read16 6 + (todo.map fun item ↦ item.2.length).sum ≤ e) :
    Compacted p (done ++ todo) (todo.foldl compactRow (q, e)).1
      (todo.foldl compactRow (q, e)).2 := by
  induction todo generalizing done q e with
  | nil => rwa [List.append_nil]
  | cons item todo ih =>
    rw [List.map_cons, List.sum_cons] at hroom
    have hnodup' := hnodup
    rw [List.map_append, List.map_cons, List.nodup_append] at hnodup'
    have hitem : item.1 < p.read16 4 := hslots item (by simp)
    have hstep := h.step hp hitem (fun other hmem ↦ ⟨hslots other (by simp [hmem]), fun heq ↦
      hnodup'.2.2 _ (List.mem_map_of_mem hmem) _ (List.mem_cons_self ..) heq⟩) (by omega)
    have he := hstep.end_eq
    have hend := h.end_eq
    rw [List.map_append, List.sum_append, List.map_singleton, List.sum_singleton] at he
    have hrun := ih hstep (by rwa [List.append_assoc]) (by rwa [List.append_assoc]) (by omega)
    rwa [List.append_assoc] at hrun

section Finished

variable {done : List (Nat × Bytes)} {q : PageBytes} {e : Nat}

/-- `compact` ends by writing the end of the free space: outside that field the page is as the loop
left it. -/
theorem slice_writeEnd {start size : Nat} (hdisjoint : start + size ≤ 8 ∨ 10 ≤ start) :
    (q.write16 8 e).bytes.slice start size = q.bytes.slice start size :=
  slice_write16_disjoint (by have : pageSize = 4096 := rfl; omega) hdisjoint

/-- The slots are as the loop left them. -/
theorem fields_writeEnd (slot : Nat) : rowFlag (q.write16 8 e) slot = rowFlag q slot ∧
    rowOffset (q.write16 8 e) slot = rowOffset q slot ∧ rowLength (q.write16 8 e) slot = rowLength q slot := by
  have hentry : entry (q.write16 8 e) slot = entry q slot :=
    entry_congr (slice_writeEnd (by unfold slotOffset; omega))
  simpa only [entry, Prod.mk.injEq] using hentry

/-- The other fields of the header are those of the page that is compacted. -/
theorem Compacted.header_writeEnd (h : PageOK page) (hrun : Compacted page done q e) :
    (q.write16 8 e).read32 0 = pageMagic ∧ (q.write16 8 e).read16 4 = page.read16 4 ∧
      (q.write16 8 e).read16 6 = page.read16 6 ∧ (q.write16 8 e).read16 8 = e := by
  have hpage : pageSize = 4096 := rfl
  have he := hrun.end_eq
  have hheader := hrun.header_eq
  simp only [header, Prod.mk.injEq] at hheader
  obtain ⟨hmagic, hcount, hstart, -⟩ := hheader
  refine ⟨?_, ?_, ?_, read16_write16_self (by omega) (by omega)⟩
  · rw [read32, slice_writeEnd (by omega), ← read32, hmagic, h.magic]
  · rw [read16, slice_writeEnd (by omega), ← read16, hcount]
  · rw [read16, slice_writeEnd (by omega), ← read16, hstart]

theorem Compacted.slotCount_writeEnd (h : PageOK page) (hrun : Compacted page done q e) :
    slotCount (q.write16 8 e) = slotCount page := by
  obtain ⟨hmagic, hcount, -, -⟩ := hrun.header_writeEnd h
  rw [slotCount, SlottedPage.valid, hmagic, beq_self_eq_true, if_pos rfl, hcount, h.slotCount_eq]

/-- A slot that is in use after the loop is that of a row that was placed. -/
theorem Compacted.mem_of_live (h : PageOK page) (hrun : Compacted page (rowList page) q e) {slot : Nat}
    (hslot : slot < page.read16 4) (hlive : rowFlag q slot ≠ 0) : ∃ row, (slot, row) ∈ rowList page := by
  by_contra hnone
  have hmem : slot ∉ (rowList page).map Prod.fst := by
    rintro hmem
    obtain ⟨⟨slot', row⟩, hitem, rfl⟩ := List.mem_map.1 hmem
    exact hnone ⟨row, hitem⟩
  have hsame := hrun.others slot hslot hmem
  simp only [entry, Prod.mk.injEq] at hsame
  rw [hsame.1] at hlive
  obtain ⟨row, hrow, -⟩ := h.rowAt_length hslot hlive
  exact hnone ⟨row, mem_rowList.2 hrow⟩

/-- Every slot still holds its row, at another place. -/
theorem Compacted.rowAt_writeEnd (h : PageOK page) (hrun : Compacted page (rowList page) q e) :
    rowAt (q.write16 8 e) = rowAt page := by
  have hpage : pageSize = 4096 := rfl
  have hslotCount := hrun.slotCount_writeEnd h
  have he : 16 ≤ e := by
    have hend := hrun.end_eq
    rw [sum_rowList] at hend
    have hspace := h.space
    have hstartLe := h.start_le
    have hstartEq := h.start_eq
    omega
  funext slot
  obtain ⟨hflag, hoffset, hlength⟩ := fields_writeEnd (q := q) (e := e) slot
  rcases hrow : rowAt page slot with - | row
  · rw [rowAt, if_neg]
    rintro ⟨hslot, hlive⟩
    rw [hslotCount, h.slotCount_eq] at hslot
    rw [hflag] at hlive
    obtain ⟨row, hmem⟩ := hrun.mem_of_live h hslot hlive
    rw [mem_rowList.1 hmem] at hrow
    cases hrow
  · have hmem : (slot, row) ∈ rowList page := mem_rowList.2 hrow
    obtain ⟨hf, hl, hlow, hhigh, hbytes⟩ := hrun.placed _ hmem
    simp only at hf hl hlow hhigh hbytes
    rw [rowAt, hslotCount, h.slotCount_eq, hflag, hoffset, hlength, hf, hl,
      if_pos ⟨(rowAt_eq_some h hrow).1, by omega⟩, slice_writeEnd (by omega), hbytes]

/-- The rows lie behind the new end of the free space, apart from each other. -/
theorem Compacted.rowsOK_writeEnd (h : PageOK page) (hrun : Compacted page (rowList page) q e) :
    RowsOK (q.write16 8 e) (page.read16 4) e := by
  refine ⟨fun slot hslot hlive ↦ ?_, fun s hs t ht hst hslive htlive ↦ ?_⟩
  · obtain ⟨hflag, hoffset, hlength⟩ := fields_writeEnd (q := q) (e := e) slot
    rw [hflag] at hlive
    obtain ⟨row, hmem⟩ := hrun.mem_of_live h hslot hlive
    obtain ⟨-, hl, hlow, hhigh, -⟩ := hrun.placed _ hmem
    rw [hoffset, hlength, hl]
    exact ⟨hlow, hhigh⟩
  · obtain ⟨hflag, hoffset, hlength⟩ := fields_writeEnd (q := q) (e := e) s
    obtain ⟨hflag', hoffset', hlength'⟩ := fields_writeEnd (q := q) (e := e) t
    rw [hflag] at hslive
    rw [hflag'] at htlive
    obtain ⟨row, hmem⟩ := hrun.mem_of_live h hs hslive
    obtain ⟨row', hmem'⟩ := hrun.mem_of_live h ht htlive
    rw [hoffset, hlength, hoffset', hlength', (hrun.placed _ hmem).2.1, (hrun.placed _ hmem').2.1]
    exact hrun.apart _ hmem _ hmem' hst

/-- With the end of the free space written, the page is well formed again. -/
theorem Compacted.pageOK (h : PageOK page) (hrun : Compacted page (rowList page) q e) :
    PageOK (q.write16 8 e) := by
  obtain ⟨hmagic, hcount, hstart, hend⟩ := hrun.header_writeEnd h
  have he := hrun.end_eq
  rw [sum_rowList] at he
  have hspace := h.space
  have hstartLe := h.start_le
  have hused : usedSpace (q.write16 8 e) = usedSpace page := by
    rw [usedSpace, usedSpace, hrun.slotCount_writeEnd h, hrun.rowAt_writeEnd h]
  constructor
  case magic => exact hmagic
  case start_eq => rw [hstart, hcount, h.start_eq]
  case start_le => rw [hstart, hend]; omega
  case end_le => rw [hend]; omega
  case rows => rw [hcount, hend]; exact hrun.rowsOK_writeEnd h
  case space => rw [hend, hused]; omega

end Finished

/-- The loop over all rows of the page. -/
theorem PageOK.compacted (h : PageOK page) :
    Compacted page (rowList page) ((rowList page).foldl compactRow (page, pageSize)).1
      ((rowList page).foldl compactRow (page, pageSize)).2 := by
  have hinit : Compacted page [] page pageSize :=
    ⟨rfl, rfl, List.forall_mem_nil _, List.forall_mem_nil _, fun _ _ _ ↦ rfl⟩
  have hspace := h.space
  have hstartLe := h.start_le
  exact hinit.run h (rowList page) (fun item hmem ↦ (rowAt_eq_some h (mem_rowList.1 hmem)).1)
    (rowList_slots_nodup page) (by rw [sum_rowList]; omega)

/-- Compaction keeps the rows and the slots, and all that the rows do not take is free. -/
theorem PageOK.compact_spec (h : PageOK page) :
    ∃ q, compact page = .ok () q ∧ PageOK q ∧ slotCount q = slotCount page ∧
      rowAt q = rowAt page ∧ q.read16 6 = page.read16 6 ∧
      q.read16 8 = pageSize - usedSpace page ∧
      ∀ slot < page.read16 4, rowFlag page slot = 0 → rowFlag q slot = 0 := by
  have hrun := h.compacted
  set final := (rowList page).foldl compactRow (page, pageSize) with hfinal
  obtain ⟨r, e⟩ := final
  have hcompact : compact page = .ok () (r.write16 8 e) := by
    rw [compact, EStateM.bind_of_ok (show (get : PageM PageBytes) page = .ok page page from rfl), h.liveRows_eq]
    simp only
    rw [← hfinal]
    rfl
  obtain ⟨-, -, hstart, hend⟩ := hrun.header_writeEnd h
  have he := hrun.end_eq
  rw [sum_rowList] at he
  refine ⟨_, hcompact, hrun.pageOK h, hrun.slotCount_writeEnd h, hrun.rowAt_writeEnd h, hstart,
    by rw [hend]; omega, fun slot hslot hdead ↦ ?_⟩
  -- A slot in use after the loop has its row from the page, where it was in use too.
  rw [(fields_writeEnd slot).1]
  by_contra hlive
  obtain ⟨row, hmem⟩ := hrun.mem_of_live h hslot hlive
  exact (rowAt_eq_some h (mem_rowList.1 hmem)).2.1 hdead

/-! ### Insertion -/

/-- The run of `insert` on a valid page. -/
theorem insert_eq (hvalid : SlottedPage.valid page) {row : Bytes} (hrow : row.length ≤ 65535) :
    insert row page = insertInto (freeSlot page) row page := by
  have hsmall : ¬row.length > 65535 := Nat.not_lt.2 hrow
  simp only [insert, bind, EStateM.bind, get, getThe, MonadStateOf.get, EStateM.get, hvalid,
    Bool.not_true, Bool.false_eq_true, if_false, if_neg hsmall]

/-- A row longer than 64 kilobytes is refused. -/
theorem insert_too_large (hvalid : SlottedPage.valid page) {row : Bytes} (hrow : row.length > 65535) :
    insert row page = .error (lit "Tuple is too large") page := by
  simp only [insert, bind, EStateM.bind, get, getThe, MonadStateOf.get, EStateM.get, hvalid,
    Bool.not_true, Bool.false_eq_true, if_false, if_pos hrow]
  rfl

/-- With room the row is placed. -/
theorem insertInto_of_room {reusable : Option Nat} {row : Bytes}
    (hroom : needed reusable row ≤ freeSpace page) :
    insertInto reusable row page =
      .ok (some (placeRow page reusable row).1) (placeRow page reusable row).2 := by
  simp only [insertInto, bind, EStateM.bind, get, getThe, MonadStateOf.get, EStateM.get,
    if_neg (Nat.not_lt.2 hroom), pure, EStateM.pure]
  rfl

/-- Without room the page is compacted first. -/
theorem insertInto_of_full {reusable : Option Nat} {row : Bytes}
    (hroom : freeSpace page < needed reusable row) {q : PageBytes} (hcompact : compact page = .ok () q) :
    insertInto reusable row page =
      if freeSpace q < needed reusable row then .ok none q
      else .ok (some (placeRow q reusable row).1) (placeRow q reusable row).2 := by
  simp only [insertInto, bind, EStateM.bind, get, getThe, MonadStateOf.get, EStateM.get,
    if_pos hroom, hcompact, pure]
  split <;> rfl

/-- Placing a row where the page has room for it: in the slot that is reused, or a new one. -/
theorem PageOK.placeRow_spec (h : PageOK page) {reusable : Option Nat} {row : Bytes}
    (hreusable : ∀ slot ∈ reusable, slot < page.read16 4 ∧ rowFlag page slot = 0)
    (hroom : needed reusable row ≤ freeSpace page) :
    ∃ q, placeRow page reusable row = (reusable.getD (slotCount page), q) ∧
      Placed page row (reusable.getD (slotCount page)) q := by
  have hstart := h.start_le
  rw [h.freeSpace_eq, needed] at hroom
  cases reusable with
  | some slot =>
    obtain ⟨hslot, hflag⟩ := hreusable slot rfl
    simp only [Option.isSome_some, if_true] at hroom
    exact h.placeRow_some hslot hflag (by omega)
  | none =>
    simp only [Option.isSome_none, Bool.false_eq_true, if_false] at hroom
    rw [Option.getD_none, h.slotCount_eq]
    exact h.placeRow_none (by omega)

/-- The slot that is reused is erased. -/
theorem PageOK.freeSlot_spec (h : PageOK page) :
    ∀ slot ∈ freeSlot page, slot < page.read16 4 ∧ rowFlag page slot = 0 := by
  intro slot hslot
  have hmem := List.mem_of_find?_eq_some hslot
  have hflag := List.find?_some hslot
  rw [← h.slotCount_eq]
  exact ⟨List.mem_range.1 hmem, beq_iff_eq.1 hflag⟩

/-- The slot that an insertion takes: the lowest one without a row. -/
def nextSlot (page : PageBytes) : Nat :=
  (freeSlot page).getD (slotCount page)

/-- The page has room for the row, when its rows are moved together at the latest. -/
def HasRoom (page : PageBytes) (row : Bytes) : Prop :=
  page.read16 6 + needed (freeSlot page) row + usedSpace page ≤ pageSize

instance (page : PageBytes) (row : Bytes) : Decidable (HasRoom page row) :=
  inferInstanceAs (Decidable (_ ≤ _))

/-- A page that has room for the row takes it in its lowest free slot. -/
theorem PageOK.insert_of_room (h : PageOK page) {row : Bytes} (hrow : row.length ≤ 65535)
    (hroom : HasRoom page row) :
    ∃ q, insert row page = .ok (some (nextSlot page)) q ∧ Placed page row (nextSlot page) q := by
  rw [insert_eq h.valid hrow]
  by_cases hdirect : needed (freeSlot page) row ≤ freeSpace page
  · obtain ⟨q, hplace, hplaced⟩ := h.placeRow_spec h.freeSlot_spec hdirect
    refine ⟨q, ?_, hplaced⟩
    rw [insertInto_of_room hdirect, hplace]
    rfl
  · obtain ⟨q, hcompact, hq, hcount, hrows, hstart, hend, hflags⟩ := h.compact_spec
    have hspace := h.space
    have hfull : ¬freeSpace q < needed (freeSlot page) row := by
      rw [HasRoom] at hroom
      rw [hq.freeSpace_eq, hstart, hend]
      omega
    have hfree : ∀ slot ∈ freeSlot page, slot < q.read16 4 ∧ rowFlag q slot = 0 := by
      intro slot hslot
      obtain ⟨hlt, hflag⟩ := h.freeSlot_spec slot hslot
      rw [← hq.slotCount_eq, hcount, h.slotCount_eq]
      exact ⟨hlt, hflags slot hlt hflag⟩
    obtain ⟨r, hplace, hplaced⟩ := hq.placeRow_spec hfree (Nat.le_of_not_lt hfull)
    rw [hcount] at hplace hplaced
    refine ⟨r, ?_, hplaced.ok, ?_, ?_, ?_⟩
    · rw [insertInto_of_full (Nat.lt_of_not_le hdirect) hcompact, if_neg hfull, hplace]
      rfl
    · rw [← hrows]
      exact hplaced.free
    · rw [nextSlot, hplaced.slotCount_eq, hcount]
    · rw [nextSlot, hplaced.rowAt_eq, hrows]

/-- A page without room for the row keeps its rows. -/
theorem PageOK.insert_of_full (h : PageOK page) {row : Bytes} (hrow : row.length ≤ 65535)
    (hroom : ¬HasRoom page row) :
    ∃ q, insert row page = .ok none q ∧ PageOK q ∧ slotCount q = slotCount page ∧
      rowAt q = rowAt page := by
  have hspace := h.space
  have hstart := h.start_le
  rw [HasRoom] at hroom
  have hdirect : freeSpace page < needed (freeSlot page) row := by
    rw [h.freeSpace_eq]
    omega
  obtain ⟨q, hcompact, hq, hcount, hrows, hstart', hend, -⟩ := h.compact_spec
  have hfull : freeSpace q < needed (freeSlot page) row := by
    rw [hq.freeSpace_eq, hstart', hend]
    omega
  refine ⟨q, ?_, hq, hcount, hrows⟩
  rw [insert_eq h.valid hrow, insertInto_of_full hdirect hcompact, if_pos hfull]

/-- A row of at most 4074 bytes fits on a formatted page, in its first slot. -/
theorem insert_formatted {row : Bytes} (hrow : row.length + 22 ≤ pageSize) :
    ∃ q, insert row formatted = .ok (some 0) q ∧ Placed formatted row 0 q := by
  have hpage : pageSize = 4096 := rfl
  obtain ⟨hok, hrows⟩ := formatted_ok
  have hcount : slotCount formatted = 0 := by
    rw [hok.slotCount_eq]
    unfold formatted
    rw [read16_write16_disjoint (by omega) (by omega), read16_write16_disjoint (by omega) (by omega),
      read16_write16_self (by omega) (by omega)]
  have hslot : freeSlot formatted = none := by
    rw [freeSlot, hcount]
    rfl
  have hroom : HasRoom formatted row := by
    have hused : usedSpace formatted = 0 := by
      rw [usedSpace, hcount, Finset.range_zero, Finset.sum_empty]
    rw [HasRoom, hok.start_eq, ← hok.slotCount_eq, hcount, hused, hslot, needed]
    simp only [Option.isSome_none, Bool.false_eq_true, if_false]
    omega
  obtain ⟨q, hinsert, hplaced⟩ := hok.insert_of_room (by omega) hroom
  rw [nextSlot, hslot, Option.getD_none, hcount] at hinsert hplaced
  exact ⟨q, hinsert, hplaced⟩

end SlottedPage

end SkibidiQL
