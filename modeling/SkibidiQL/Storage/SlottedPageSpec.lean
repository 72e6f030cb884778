import SkibidiQL.Base.ExceptRules
import SkibidiQL.Storage.SlottedPage
import Mathlib.Algebra.BigOperators.Fin
import Mathlib.Algebra.BigOperators.Group.Finset.Basic
import Mathlib.Algebra.Order.BigOperators.Group.Finset

/-!
# Slotted pages hold rows

A page in which the rows lie between the free space and the end, without overlap (`PageOK`), is a
partial map from slots to rows (`rowAt`). Reading is this map; inserting binds a slot that is free,
erasing frees one, and updating in place rebinds one.
-/

namespace SkibidiQL

namespace PageBytes

/-! ### Fields of a page -/

variable {page : PageBytes}

/-- A page is its bytes. -/
theorem bytes_injective {p q : PageBytes} (h : p.bytes = q.bytes) : p = q := by
  cases p
  cases q
  cases h
  rfl

/-- What stands beside a write is left. -/
theorem slice_write_disjoint {offset start size : Nat} {data : Bytes}
    (h : offset + data.length ≤ pageSize)
    (hdisjoint : start + size ≤ offset ∨ offset + data.length ≤ start) :
    (page.write offset data).bytes.slice start size = page.bytes.slice start size :=
  List.slice_patch_disjoint (by rw [page.size_eq]; exact h) hdisjoint

theorem slice_write_self {offset : Nat} {data : Bytes} (h : offset + data.length ≤ pageSize) :
    (page.write offset data).bytes.slice offset data.length = data :=
  List.slice_patch_self (by rw [page.size_eq]; exact h)

/-- What stands beside a 16-bit write is left. -/
theorem slice_write16_disjoint {offset value start size : Nat} (h : offset + 2 ≤ pageSize)
    (hdisjoint : start + size ≤ offset ∨ offset + 2 ≤ start) :
    (page.write16 offset value).bytes.slice start size = page.bytes.slice start size := by
  refine slice_write_disjoint ?_ ?_ <;> rw [LittleEndian.length_encode]
  · exact h
  · exact hdisjoint

/-- A 16-bit field beside a write is left. -/
theorem read16_write_disjoint {offset start : Nat} {data : Bytes}
    (h : offset + data.length ≤ pageSize)
    (hdisjoint : start + 2 ≤ offset ∨ offset + data.length ≤ start) :
    (page.write offset data).read16 start = page.read16 start := by
  rw [read16, read16, slice_write_disjoint h hdisjoint]

/-- A 16-bit field beside another is left. -/
theorem read16_write16_disjoint {offset value start : Nat} (h : offset + 2 ≤ pageSize)
    (hdisjoint : start + 2 ≤ offset ∨ offset + 2 ≤ start) :
    (page.write16 offset value).read16 start = page.read16 start := by
  rw [read16, read16, slice_write16_disjoint h hdisjoint]

/-- A 32-bit field beside a 16-bit one is left. -/
theorem read32_write16_disjoint {offset value start : Nat} (h : offset + 2 ≤ pageSize)
    (hdisjoint : start + 4 ≤ offset ∨ offset + 2 ≤ start) :
    (page.write16 offset value).read32 start = page.read32 start := by
  rw [read32, read32, slice_write16_disjoint h hdisjoint]

/-- A 16-bit field is read back. -/
theorem read16_write16_self {offset value : Nat} (h : offset + 2 ≤ pageSize)
    (hvalue : value < 65536) : (page.write16 offset value).read16 offset = value := by
  have hslice : (page.write16 offset value).bytes.slice offset 2 = LittleEndian.encode 2 value := by
    have hself := @slice_write_self page offset (LittleEndian.encode 2 value)
      (by rw [LittleEndian.length_encode]; exact h)
    rwa [LittleEndian.length_encode] at hself
  rw [read16, hslice, LittleEndian.decode_encode_of_lt (by omega)]

/-- A 32-bit field is read back. -/
theorem read32_write32_self {offset value : Nat} (h : offset + 4 ≤ pageSize)
    (hvalue : value < 4294967296) : (page.write32 offset value).read32 offset = value := by
  have hslice : (page.write32 offset value).bytes.slice offset 4 = LittleEndian.encode 4 value := by
    have hself := @slice_write_self page offset (LittleEndian.encode 4 value)
      (by rw [LittleEndian.length_encode]; exact h)
    rwa [LittleEndian.length_encode] at hself
  rw [read32, hslice, LittleEndian.decode_encode_of_lt (by omega)]

/-- A 16-bit field holds less than `2 ^ 16`. -/
theorem read16_lt (page : PageBytes) (offset : Nat) : page.read16 offset < 65536 := by
  have hlt := LittleEndian.decode_lt (page.bytes.slice offset 2)
  have hlength : (page.bytes.slice offset 2).length ≤ 2 := List.length_take_le _ _
  have hpow : 256 ^ (page.bytes.slice offset 2).length ≤ 256 ^ 2 :=
    Nat.pow_le_pow_right (by omega) hlength
  rw [read16]
  omega

end PageBytes

theorem sub16_of_le {a b : Nat} (h : b ≤ a) (ha : a < 65536) : sub16 a b = a - b := by
  unfold sub16
  omega

namespace SlottedPage

open PageBytes

/-- The row in a slot: what `read` returns. -/
def rowAt (page : PageBytes) (slot : Nat) : Option Bytes :=
  if slot < slotCount page ∧ rowFlag page slot ≠ 0 then
    some (page.bytes.slice (rowOffset page slot) (rowLength page slot))
  else none

/-- The bytes that the rows of a page take. -/
def usedSpace (page : PageBytes) : Nat :=
  ∑ slot ∈ Finset.range (slotCount page), ((rowAt page slot).getD []).length

/-- The rows in use lie behind the free space, and apart from each other. -/
structure RowsOK (page : PageBytes) (count rowsEnd : Nat) : Prop where
  range : ∀ s < count, rowFlag page s ≠ 0 →
    rowsEnd ≤ rowOffset page s ∧ rowOffset page s + rowLength page s ≤ pageSize
  disjoint : ∀ s < count, ∀ t < count, s ≠ t → rowFlag page s ≠ 0 → rowFlag page t ≠ 0 →
    rowOffset page s + rowLength page s ≤ rowOffset page t ∨
      rowOffset page t + rowLength page t ≤ rowOffset page s

/-- A well-formed page. -/
structure PageOK (page : PageBytes) : Prop where
  magic : page.read32 0 = pageMagic
  start_eq : page.read16 6 = 16 + 6 * page.read16 4
  start_le : page.read16 6 ≤ page.read16 8
  end_le : page.read16 8 ≤ pageSize
  rows : RowsOK page (page.read16 4) (page.read16 8)
  space : page.read16 8 + usedSpace page ≤ pageSize

variable {page : PageBytes}

theorem PageOK.valid (h : PageOK page) : valid page := by
  rw [SlottedPage.valid, h.magic, beq_self_eq_true]

theorem PageOK.slotCount_eq (h : PageOK page) : slotCount page = page.read16 4 := by
  rw [slotCount, if_pos h.valid]

theorem PageOK.freeSpace_eq (h : PageOK page) : freeSpace page = page.read16 8 - page.read16 6 := by
  rw [freeSpace, if_pos h.valid]

/-- Reading a well-formed page does not throw. -/
theorem PageOK.read_eq (h : PageOK page) (slot : Nat) : read page slot = .ok (rowAt page slot) := by
  unfold read rowAt
  rw [h.valid, h.slotCount_eq]
  by_cases hslot : slot < page.read16 4
  · by_cases hflag : rowFlag page slot = 0
    · simp [hflag, Nat.not_le.2 hslot]
    · have hrange := (h.rows.range slot hslot hflag).2
      simp [hflag, hslot, Nat.not_le.2 hslot, Nat.not_lt.2 hrange]
  · simp [hslot, Nat.le_of_not_lt hslot]

/-- The row of a live slot has the length that the slot says. -/
theorem PageOK.rowAt_length (h : PageOK page) {slot : Nat} (hslot : slot < page.read16 4)
    (hflag : rowFlag page slot ≠ 0) :
    ∃ row, rowAt page slot = some row ∧ row.length = rowLength page slot ∧
      row = page.bytes.slice (rowOffset page slot) (rowLength page slot) := by
  have hrange := (h.rows.range slot hslot hflag).2
  refine ⟨_, ?_, List.length_slice ?_, rfl⟩
  · rw [rowAt, h.slotCount_eq, if_pos ⟨hslot, hflag⟩]
  · rw [page.size_eq]
    exact hrange

/-- Pages with the same entry and the same bytes of a row agree on it. -/
theorem rowAt_congr {p q : PageBytes} {slot : Nat} (hcount : slot < slotCount p ↔ slot < slotCount q)
    (hflag : rowFlag p slot = rowFlag q slot) (hoffset : rowOffset p slot = rowOffset q slot)
    (hlength : rowLength p slot = rowLength q slot)
    (hbytes : slot < slotCount q → rowFlag q slot ≠ 0 →
      p.bytes.slice (rowOffset q slot) (rowLength q slot) =
        q.bytes.slice (rowOffset q slot) (rowLength q slot)) :
    rowAt p slot = rowAt q slot := by
  unfold rowAt
  rw [hflag, hoffset, hlength]
  by_cases h : slot < slotCount q ∧ rowFlag q slot ≠ 0
  · rw [if_pos ⟨hcount.2 h.1, h.2⟩, if_pos h, hbytes h.1 h.2]
  · rw [if_neg h, if_neg fun h' ↦ h ⟨hcount.1 h'.1, h'.2⟩]

/-! ### Directory entries -/

/-- The slots stand before the free space. -/
theorem slotOffset_le (h : PageOK page) {slot : Nat} (hslot : slot < page.read16 4) :
    slotOffset slot + 6 ≤ page.read16 6 := by
  rw [h.start_eq, slotOffset]
  omega

section WriteSlot

variable {slot offset length : Nat} (hslot : slotOffset slot + 6 ≤ pageSize)

include hslot

/-- A slot that was written has its offset. -/
theorem rowOffset_writeSlot (hoffset : offset < 65536) :
    rowOffset (writeSlot page slot offset length) slot = offset := by
  unfold rowOffset writeSlot
  rw [read16_write16_disjoint (by omega) (by omega), read16_write16_disjoint (by omega) (by omega),
    read16_write16_self (by omega) hoffset]

/-- A slot that was written has its length. -/
theorem rowLength_writeSlot (hlength : length < 65536) :
    rowLength (writeSlot page slot offset length) slot = length := by
  unfold rowLength writeSlot
  rw [read16_write16_disjoint (by omega) (by omega), read16_write16_self (by omega) hlength]

theorem rowFlag_writeSlot : rowFlag (writeSlot page slot offset length) slot = 1 := by
  unfold rowFlag writeSlot
  rw [read16_write16_self (by omega) (by omega)]

/-- What stands beside a slot is left. -/
theorem slice_writeSlot {start size : Nat}
    (hdisjoint : start + size ≤ slotOffset slot ∨ slotOffset slot + 6 ≤ start) :
    (writeSlot page slot offset length).bytes.slice start size = page.bytes.slice start size := by
  unfold writeSlot
  rw [slice_write16_disjoint (by omega) (by omega), slice_write16_disjoint (by omega) (by omega),
    slice_write16_disjoint (by omega) (by omega)]

theorem read16_writeSlot {start : Nat}
    (hdisjoint : start + 2 ≤ slotOffset slot ∨ slotOffset slot + 6 ≤ start) :
    (writeSlot page slot offset length).read16 start = page.read16 start := by
  rw [read16, read16, slice_writeSlot hslot hdisjoint]

end WriteSlot

/-- The three numbers of a directory entry. -/
def entry (page : PageBytes) (slot : Nat) : Nat × Nat × Nat :=
  (rowFlag page slot, rowOffset page slot, rowLength page slot)

/-- Pages with the same bytes in an entry have the same entry. -/
theorem entry_congr {p q : PageBytes} {slot : Nat}
    (h : p.bytes.slice (slotOffset slot) 6 = q.bytes.slice (slotOffset slot) 6) :
    entry p slot = entry q slot := by
  have hread : ∀ k, k + 2 ≤ 6 → p.read16 (slotOffset slot + k) = q.read16 (slotOffset slot + k) := by
    intro k hk
    rw [read16, read16, ← List.slice_slice (l := p.bytes) hk, ← List.slice_slice (l := q.bytes) hk, h]
  have hfirst : p.read16 (slotOffset slot) = q.read16 (slotOffset slot) := hread 0 (by omega)
  rw [entry, rowFlag, rowOffset, rowLength, hread 4 (by omega), hread 2 (by omega), hfirst]
  rfl

/-- Pages with the same slot and the same bytes behind it have the same row there. -/
theorem rowAt_of_entry {p q : PageBytes} {slot : Nat}
    (hcount : slot < slotCount p ↔ slot < slotCount q)
    (hentry : slot < slotCount q → entry p slot = entry q slot)
    (hbytes : slot < slotCount q → rowFlag q slot ≠ 0 →
      p.bytes.slice (rowOffset q slot) (rowLength q slot) =
        q.bytes.slice (rowOffset q slot) (rowLength q slot)) :
    rowAt p slot = rowAt q slot := by
  by_cases hslot : slot < slotCount q
  · have he := hentry hslot
    simp only [entry, Prod.mk.injEq] at he
    exact rowAt_congr hcount he.1 he.2.1 he.2.2 hbytes
  · rw [rowAt, rowAt, if_neg fun h ↦ hslot (hcount.1 h.1), if_neg fun h ↦ hslot h.1]

/-! ### Changing one row -/

theorem rowAt_of_ge {page : PageBytes} {slot : Nat} (h : slotCount page ≤ slot) :
    rowAt page slot = none := by
  rw [rowAt, if_neg fun hlive ↦ Nat.not_lt.2 h hlive.1]

/-- Slots behind the last one take no space. -/
theorem usedSpace_eq_sum {page : PageBytes} {n : Nat} (h : slotCount page ≤ n) :
    usedSpace page = ∑ slot ∈ Finset.range n, ((rowAt page slot).getD []).length := by
  refine Finset.sum_subset (Finset.range_mono h) fun slot _ hslot ↦ ?_
  rw [rowAt_of_ge (Nat.le_of_not_lt fun hlt ↦ hslot (Finset.mem_range.2 hlt))]
  rfl

/-- The bytes taken change with the row that changes. -/
theorem usedSpace_update {p q : PageBytes} {slot : Nat} {row : Option Bytes}
    (hcount : slotCount p ≤ slotCount q) (hslot : slot < slotCount q)
    (hrows : rowAt q = Function.update (rowAt p) slot row) :
    usedSpace q + ((rowAt p slot).getD []).length = usedSpace p + (row.getD []).length := by
  have hmem : slot ∈ Finset.range (slotCount q) := Finset.mem_range.2 hslot
  have hupdate : ∀ s, ((rowAt q s).getD []).length =
      Function.update (fun s ↦ ((rowAt p s).getD []).length) slot (row.getD []).length s := by
    intro s
    rw [hrows]
    by_cases hs : s = slot
    · rw [hs, Function.update_self, Function.update_self]
    · rw [Function.update_of_ne hs, Function.update_of_ne hs]
  rw [usedSpace_eq_sum hcount, usedSpace, Finset.sum_congr rfl fun s _ ↦ hupdate s,
    Finset.sum_update_of_mem hmem,
    Finset.sum_eq_add_sum_sdiff_singleton_of_mem hmem fun s ↦ ((rowAt p s).getD []).length]
  omega

/-- A row stands in a live slot and is the bytes that the slot points to. -/
theorem rowAt_eq_some (h : PageOK page) {slot : Nat} {row : Bytes}
    (hrow : rowAt page slot = some row) :
    slot < page.read16 4 ∧ rowFlag page slot ≠ 0 ∧ row.length = rowLength page slot ∧
      page.bytes.slice (rowOffset page slot) (rowLength page slot) = row := by
  have hlive : slot < page.read16 4 ∧ rowFlag page slot ≠ 0 := by
    by_contra hdead
    rw [rowAt, h.slotCount_eq, if_neg hdead] at hrow
    cases hrow
  obtain ⟨row', hrow', hlength, hslice⟩ := h.rowAt_length hlive.1 hlive.2
  obtain rfl : row' = row := by
    rw [hrow'] at hrow
    exact Option.some.inj hrow
  exact ⟨hlive.1, hlive.2, hlength, hslice.symm⟩

/-- The header of a page: magic number, slot count and the bounds of the free space. -/
def header (page : PageBytes) : Nat × Nat × Nat × Nat :=
  (page.read32 0, page.read16 4, page.read16 6, page.read16 8)

/-- Changing one row within the space it has. -/
theorem PageOK.of_change {p q : PageBytes} (h : PageOK p) {slot : Nat} (hslot : slot < p.read16 4)
    (hheader : header q = header p)
    (hentry : ∀ s < p.read16 4, s ≠ slot → entry q s = entry p s)
    (hshrink : rowFlag q slot ≠ 0 → rowFlag p slot ≠ 0 ∧ rowOffset q slot = rowOffset p slot ∧
      rowLength q slot ≤ rowLength p slot)
    (hbytes : ∀ s < p.read16 4, s ≠ slot → rowFlag p s ≠ 0 →
      q.bytes.slice (rowOffset p s) (rowLength p s) = p.bytes.slice (rowOffset p s) (rowLength p s))
    (hlength : ((rowAt q slot).getD []).length ≤ ((rowAt p slot).getD []).length) :
    PageOK q ∧ slotCount q = slotCount p ∧
      rowAt q = Function.update (rowAt p) slot (rowAt q slot) := by
  simp only [header, Prod.mk.injEq] at hheader
  obtain ⟨hmagic, hcount, hstart, hend⟩ := hheader
  have hslotCount : slotCount q = slotCount p := by
    unfold slotCount SlottedPage.valid
    rw [hmagic, hcount]
  have hrows : rowAt q = Function.update (rowAt p) slot (rowAt q slot) := by
    funext s
    by_cases hs : s = slot
    · rw [hs, Function.update_self]
    · rw [Function.update_of_ne hs]
      exact rowAt_of_entry (by rw [hslotCount]) (fun hlt ↦ hentry s (h.slotCount_eq ▸ hlt) hs)
        fun hlt hflag ↦ hbytes s (h.slotCount_eq ▸ hlt) hs hflag
  -- A live row of `q` lies within the space of the same row of `p`, so it stays apart from the others.
  have hfields : ∀ s < p.read16 4, rowFlag q s ≠ 0 → rowFlag p s ≠ 0 ∧
      rowOffset q s = rowOffset p s ∧ rowLength q s ≤ rowLength p s := by
    intro s hs hflag
    by_cases hne : s = slot
    · rw [hne] at hflag ⊢
      exact hshrink hflag
    · have he := hentry s hs hne
      simp only [entry, Prod.mk.injEq] at he
      exact ⟨he.1 ▸ hflag, he.2.1, Nat.le_of_eq he.2.2⟩
  have hused := usedSpace_update (Nat.le_of_eq hslotCount.symm)
    (by rw [hslotCount, h.slotCount_eq]; exact hslot) hrows
  refine ⟨⟨?_, ?_, ?_, ?_, ⟨?_, ?_⟩, ?_⟩, hslotCount, hrows⟩
  · rw [hmagic, h.magic]
  · rw [hstart, hcount, h.start_eq]
  · rw [hstart, hend]
    exact h.start_le
  · rw [hend]
    exact h.end_le
  · intro s hs hflag
    rw [hcount] at hs
    obtain ⟨hflag', hoffset, hlen⟩ := hfields s hs hflag
    have hrange := h.rows.range s hs hflag'
    rw [hend]
    omega
  · intro s hs t ht hst hsflag htflag
    rw [hcount] at hs ht
    obtain ⟨hsflag', hsoffset, hslen⟩ := hfields s hs hsflag
    obtain ⟨htflag', htoffset, htlen⟩ := hfields t ht htflag
    have hdisjoint := h.rows.disjoint s hs t ht hst hsflag' htflag'
    omega
  · have hspace := h.space
    rw [hend]
    omega

/-- A slot lies between the header and the rows. -/
theorem PageOK.slot_bounds (h : PageOK page) {slot : Nat} (hslot : slot < page.read16 4) :
    16 ≤ slotOffset slot ∧ slotOffset slot + 6 ≤ page.read16 8 ∧ page.read16 8 ≤ pageSize := by
  have hle := slotOffset_le h hslot
  have hstart := h.start_le
  have hend := h.end_le
  unfold slotOffset at hle ⊢
  omega

/-- Erasing a row that is there. -/
theorem PageOK.erase_some (h : PageOK page) {slot : Nat} {row : Bytes}
    (hrow : rowAt page slot = some row) :
    ∃ q, erase page slot = some q ∧ PageOK q ∧ slotCount q = slotCount page ∧
      rowAt q = Function.update (rowAt page) slot none := by
  obtain ⟨hslot, hflag, -, -⟩ := rowAt_eq_some h hrow
  obtain ⟨hlow, hhigh, hend⟩ := h.slot_bounds hslot
  have herase : erase page slot = some
      ((page.write16 (slotOffset slot + 4) 0).write16 (slotOffset slot + 2) 0) := by
    simp only [erase, h.valid, h.slotCount_eq, beq_iff_eq, if_neg hflag]
    simp [Nat.not_le.2 hslot]
  set q := (page.write16 (slotOffset slot + 4) 0).write16 (slotOffset slot + 2) 0 with hq
  have hslice : ∀ {start size : Nat},
      start + size ≤ slotOffset slot ∨ slotOffset slot + 6 ≤ start →
      q.bytes.slice start size = page.bytes.slice start size := by
    intro start size hdisjoint
    rw [hq, slice_write16_disjoint (by omega) (by omega), slice_write16_disjoint (by omega) (by omega)]
  have hdead : rowFlag q slot = 0 := by
    rw [rowFlag, hq, read16_write16_disjoint (by omega) (by omega),
      read16_write16_self (by omega) (by omega)]
  have hnone : rowAt q slot = none := by
    rw [rowAt, if_neg fun hlive ↦ hlive.2 hdead]
  obtain ⟨hok, hcount, hrows⟩ := h.of_change (q := q) hslot
    (by simp only [header, read16, read32, hslice (Or.inl (show 0 + 4 ≤ slotOffset slot by omega)),
          hslice (Or.inl (show 4 + 2 ≤ slotOffset slot by omega)),
          hslice (Or.inl (show 6 + 2 ≤ slotOffset slot by omega)),
          hslice (Or.inl (show 8 + 2 ≤ slotOffset slot by omega))])
    (fun s _ hs ↦ entry_congr (hslice (by unfold slotOffset; omega)))
    (fun hlive ↦ absurd hdead hlive)
    (fun s hs _ hlive ↦ hslice (Or.inr (by have := (h.rows.range s hs hlive).1; omega)))
    (by rw [hnone]; exact Nat.zero_le _)
  rw [hnone] at hrows
  exact ⟨q, herase, hok, hcount, hrows⟩

/-- Erasing a row that is not there. -/
theorem PageOK.erase_none (h : PageOK page) {slot : Nat} (hrow : rowAt page slot = none) :
    erase page slot = none := by
  by_cases hslot : slot < page.read16 4
  · have hflag : rowFlag page slot = 0 := by
      by_contra hflag
      rw [rowAt, h.slotCount_eq, if_pos ⟨hslot, hflag⟩] at hrow
      cases hrow
    simp [erase, hflag]
  · simp [erase, h.slotCount_eq, Nat.le_of_not_lt hslot]

/-- Updating a row in place. -/
theorem PageOK.update_some (h : PageOK page) {slot : Nat} {old row : Bytes}
    (hold : rowAt page slot = some old) (hlength : row.length ≤ old.length) :
    ∃ q, update page slot row = some q ∧ PageOK q ∧ slotCount q = slotCount page ∧
      rowAt q = Function.update (rowAt page) slot (some row) := by
  obtain ⟨hslot, hflag, holdLength, -⟩ := rowAt_eq_some h hold
  obtain ⟨hlow, hhigh, hend⟩ := h.slot_bounds hslot
  obtain ⟨hrangeLow, hrangeHigh⟩ := h.rows.range slot hslot hflag
  have hpage : pageSize = 4096 := rfl
  have hupdate : update page slot row = some
      ((page.write (rowOffset page slot) row).write16 (slotOffset slot + 2) row.length) := by
    simp only [update, h.valid, h.slotCount_eq, beq_iff_eq, if_neg hflag,
      if_neg (show ¬row.length > rowLength page slot by omega)]
    simp [Nat.not_le.2 hslot]
  set q := (page.write (rowOffset page slot) row).write16 (slotOffset slot + 2) row.length with hq
  -- Only the bytes of the row and the length in its entry are written.
  have hslice : ∀ {start size : Nat},
      start + size ≤ slotOffset slot + 2 ∨ slotOffset slot + 4 ≤ start →
      start + size ≤ rowOffset page slot ∨ rowOffset page slot + row.length ≤ start →
      q.bytes.slice start size = page.bytes.slice start size := by
    intro start size hdisjoint hdisjoint'
    rw [hq, slice_write16_disjoint (by omega) (by omega), slice_write_disjoint (by omega) hdisjoint']
  have hflag' : rowFlag q slot = rowFlag page slot := by
    rw [rowFlag, rowFlag, read16, hslice (by omega) (by omega), ← read16]
  have hoffset' : rowOffset q slot = rowOffset page slot := by
    rw [rowOffset, read16, hslice (by omega) (by omega), ← read16]
    rfl
  have hlength' : rowLength q slot = row.length := by
    rw [rowLength, hq, read16_write16_self (by omega) (by omega)]
  have hheader : header q = header page := by
    simp only [header, read16, read32]
    rw [hslice (by omega) (by omega), hslice (by omega) (by omega), hslice (by omega) (by omega),
      hslice (by omega) (by omega)]
  have hcount' : slotCount q = slotCount page := by
    simp only [header, Prod.mk.injEq] at hheader
    unfold slotCount SlottedPage.valid
    rw [hheader.1, hheader.2.1]
  have hrow : rowAt q slot = some row := by
    rw [rowAt, hcount', h.slotCount_eq, if_pos ⟨hslot, hflag' ▸ hflag⟩, hoffset', hlength', hq,
      slice_write16_disjoint (by omega) (by omega), slice_write_self (by omega)]
  obtain ⟨hok, hcount, hrows⟩ := h.of_change (q := q) hslot hheader
    (fun s hs hne ↦ by
      have hbounds := h.slot_bounds hs
      exact entry_congr (hslice (by unfold slotOffset; omega) (by omega)))
    (fun _ ↦ ⟨hflag, hoffset', by omega⟩)
    (fun s hs hne hlive ↦ by
      have hdisjoint := h.rows.disjoint s hs slot hslot hne hlive hflag
      have hrange := h.rows.range s hs hlive
      exact hslice (by omega) (by omega))
    (by rw [hrow, hold]; exact hlength)
  rw [hrow] at hrows
  exact ⟨q, hupdate, hok, hcount, hrows⟩

/-- A row is not updated in place when it is not there or does not fit. -/
theorem PageOK.update_none (h : PageOK page) {slot : Nat} {row : Bytes}
    (hrow : ∀ old, rowAt page slot = some old → old.length < row.length) :
    update page slot row = none := by
  by_cases hslot : slot < page.read16 4
  · by_cases hflag : rowFlag page slot = 0
    · simp [update, hflag]
    · obtain ⟨old, hold, hlength, -⟩ := h.rowAt_length hslot hflag
      have hlt := hrow old hold
      rw [hlength] at hlt
      simp [update, hlt]
  · simp [update, h.slotCount_eq, Nat.le_of_not_lt hslot]

/-! ### Inserting -/

/-- An empty page is not valid. -/
theorem valid_zero : valid PageBytes.zero = false := by
  have hslice : PageBytes.zero.bytes.slice 0 4 = [0, 0, 0, 0] := by
    show (List.drop 0 (List.replicate pageSize 0)).take 4 = _
    rw [List.drop_zero, List.take_replicate]
    rfl
  rw [valid, read32, hslice]
  rfl

/-- A formatted page is well-formed and empty. -/
theorem formatted_ok : PageOK formatted ∧ ∀ slot, rowAt formatted slot = none := by
  have hpage : pageSize = 4096 := rfl
  have hmagic : formatted.read32 0 = pageMagic := by
    unfold formatted
    rw [read32_write16_disjoint (by omega) (by omega), read32_write16_disjoint (by omega) (by omega),
      read32_write16_disjoint (by omega) (by omega), read32_write32_self (by omega) (by decide)]
  have hcount : formatted.read16 4 = 0 := by
    unfold formatted
    rw [read16_write16_disjoint (by omega) (by omega), read16_write16_disjoint (by omega) (by omega),
      read16_write16_self (by omega) (by omega)]
  have hstart : formatted.read16 6 = 16 := by
    unfold formatted
    rw [read16_write16_disjoint (by omega) (by omega), read16_write16_self (by omega) (by omega)]
  have hend : formatted.read16 8 = 4096 := by
    unfold formatted
    rw [read16_write16_self (by omega) (by decide), hpage]
  have hslotCount : slotCount formatted = 0 := by
    rw [slotCount, valid, hmagic, hcount, ite_self]
  have hnone : ∀ slot, rowAt formatted slot = none := fun slot ↦
    rowAt_of_ge (by rw [hslotCount]; exact Nat.zero_le _)
  refine ⟨⟨hmagic, by rw [hstart, hcount], by rw [hstart, hend]; omega, by rw [hend, hpage],
    ⟨fun s hs ↦ ?_, fun s hs ↦ ?_⟩, ?_⟩, hnone⟩
  · rw [hcount] at hs
    exact absurd hs (Nat.not_lt_zero s)
  · rw [hcount] at hs
    exact absurd hs (Nat.not_lt_zero s)
  · rw [hend, usedSpace, hslotCount, Finset.range_zero, Finset.sum_empty]
    omega

/-- Placing a row below the others, in a slot that is free or new. -/
theorem PageOK.of_place {p q : PageBytes} (h : PageOK p) (slot : Nat) (row : Bytes)
    (hfree : slot < p.read16 4 → rowFlag p slot = 0) (hmagic : q.read32 0 = p.read32 0)
    (hcount : q.read16 4 = max (p.read16 4) (slot + 1)) (hslot : slot ≤ p.read16 4)
    (hstart : q.read16 6 = 16 + 6 * q.read16 4) (hend : q.read16 8 = p.read16 8 - row.length)
    (hroom : q.read16 6 + row.length ≤ p.read16 8)
    (hentry : ∀ s < p.read16 4, s ≠ slot → entry q s = entry p s)
    (hslotEntry : entry q slot = (1, p.read16 8 - row.length, row.length))
    (hbytes : ∀ {start size : Nat}, p.read16 8 ≤ start →
      q.bytes.slice start size = p.bytes.slice start size)
    (hrow : q.bytes.slice (p.read16 8 - row.length) row.length = row) :
    PageOK q ∧ rowAt p slot = none ∧ slotCount q = max (slotCount p) (slot + 1) ∧
      rowAt q = Function.update (rowAt p) slot (some row) := by
  have hslotCount : slotCount q = max (slotCount p) (slot + 1) := by
    rw [slotCount, SlottedPage.valid, hmagic, h.magic, beq_self_eq_true, if_pos rfl, h.slotCount_eq,
      hcount]
  simp only [entry, Prod.mk.injEq] at hslotEntry
  obtain ⟨hflag, hoffset, hlength⟩ := hslotEntry
  have hnone : rowAt p slot = none := by
    rw [rowAt, h.slotCount_eq, if_neg fun hlive ↦ hlive.2 (hfree hlive.1)]
  -- The slot has the row; the other entries are those of before and point above the old end.
  have hrowsAt : rowAt q = Function.update (rowAt p) slot (some row) := by
    funext s
    by_cases hs : s = slot
    · rw [hs, Function.update_self, rowAt, hslotCount, hflag, hoffset, hlength, hrow,
        if_pos ⟨by omega, by omega⟩]
    · rw [Function.update_of_ne hs]
      by_cases hlt : s < p.read16 4
      · refine rowAt_of_entry ?_ (fun _ ↦ hentry s hlt hs) fun _ hlive ↦
          hbytes (h.rows.range s hlt hlive).1
        rw [hslotCount, h.slotCount_eq]
        omega
      · rw [rowAt_of_ge (by rw [hslotCount, h.slotCount_eq]; omega),
          rowAt_of_ge (by rw [h.slotCount_eq]; omega)]
  have hused := usedSpace_update (p := p) (q := q) (by rw [hslotCount]; omega)
    (by rw [hslotCount]; omega) hrowsAt
  rw [hnone] at hused
  have hspace := h.space
  have hendle := h.end_le
  have hfields : ∀ s < q.read16 4, s ≠ slot → rowFlag q s ≠ 0 → s < p.read16 4 ∧
      rowFlag p s ≠ 0 ∧ rowOffset q s = rowOffset p s ∧ rowLength q s = rowLength p s := by
    intro s hs hne hlive
    have hlt : s < p.read16 4 := by omega
    have he := hentry s hlt hne
    simp only [entry, Prod.mk.injEq] at he
    exact ⟨hlt, he.1 ▸ hlive, he.2.1, he.2.2⟩
  refine ⟨⟨?_, hstart, ?_, ?_, ⟨?_, ?_⟩, ?_⟩, hnone, hslotCount, hrowsAt⟩
  · rw [hmagic, h.magic]
  · omega
  · omega
  · intro s hs hlive
    by_cases hne : s = slot
    · rw [hne, hoffset, hlength]
      omega
    · obtain ⟨hlt, hlive', ho, hl⟩ := hfields s hs hne hlive
      have hrange := h.rows.range s hlt hlive'
      omega
  -- Two live rows: the new one ends where the others begin, and these were apart before.
  · intro s hs t ht hst hslive htlive
    by_cases hsslot : s = slot
    · obtain ⟨hlt, htlive', hto, htl⟩ := hfields t ht (by omega) htlive
      have hrange := h.rows.range t hlt htlive'
      subst hsslot
      omega
    · obtain ⟨hslt, hslive', hso, hsl⟩ := hfields s hs hsslot hslive
      have hrange := h.rows.range s hslt hslive'
      by_cases htslot : t = slot
      · subst htslot
        omega
      · obtain ⟨htlt, htlive', hto, htl⟩ := hfields t ht htslot htlive
        have hdisjoint := h.rows.disjoint s hslt t htlt hst hslive' htlive'
        omega
  · simp only [Option.getD_none, List.length_nil, Option.getD_some] at hused
    omega

end SlottedPage

end SkibidiQL
