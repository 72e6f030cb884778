import SkibidiQL.Base.ListRules
import SkibidiQL.Base.Simulation
import SkibidiQL.Storage.SlottedPageInsert

/-!
# Slotted pages refine maps

Over every sequence of operations from an empty page, a slotted page stays well-formed and behaves as the
list of its slots (`Slots`), each with the bytes stored last or free.
-/

namespace SkibidiQL

open SlottedPage

/-! ### Operations on a page -/

/-- The operations on a page. -/
inductive PageOp where
  | insert (row : Bytes)
  | update (slot : Nat) (row : Bytes)
  | erase (slot : Nat)
  | read (slot : Nat)

/-- What an operation answers. -/
inductive PageAnswer where
  | inserted (slot : Option Nat)
  | changed (done : Bool)
  | found (row : Option Bytes)
  | thrown (error : Error)
deriving DecidableEq

/-- An operation on a page, as `SlottedPage` performs it. -/
def PageOp.run (op : PageOp) (page : PageBytes) : PageAnswer × PageBytes :=
  match op with
  | .insert row =>
    match SlottedPage.insert row page with
    | .ok slot page => (.inserted slot, page)
    | .error error page => (.thrown error, page)
  | .update slot row =>
    match SlottedPage.update page slot row with
    | some page => (.changed true, page)
    | none => (.changed false, page)
  | .erase slot =>
    match SlottedPage.erase page slot with
    | some page => (.changed true, page)
    | none => (.changed false, page)
  | .read slot =>
    match SlottedPage.read page slot with
    | .ok row => (.found row, page)
    | .error error => (.thrown error, page)

/-! ### Slots -/

/-- The slots of a page, each with its bytes or free. -/
abbrev Slots := List (Option Bytes)

namespace Slots

/-- The bytes in the slots. -/
def used (slots : Slots) : Nat :=
  (slots.map fun row ↦ (row.getD []).length).sum

/-- The slot that a new row takes: the first free one, or else a new one. -/
def next (slots : Slots) : Nat :=
  (slots.findIdx? (·.isNone)).getD slots.length

/-- The slots with a row in the next slot. -/
def store (slots : Slots) (row : Bytes) : Slots :=
  if slots.next < slots.length then slots.set slots.next (some row) else slots ++ [some row]

/-- With the row stored, the header, the directory and the rows fit on a page. -/
def Fits (slots : Slots) (row : Bytes) : Prop :=
  16 + 6 * (slots.store row).length + (slots.store row).used ≤ pageSize

instance (slots : Slots) (row : Bytes) : Decidable (slots.Fits row) :=
  inferInstanceAs (Decidable (_ ≤ _))

end Slots

/-- An operation on slots. -/
def PageOp.runSlots (op : PageOp) (slots : Slots) : PageAnswer × Slots :=
  match op with
  | .insert row =>
    if row.length > 65535 then (.thrown (lit "Tuple is too large"), slots)
    else if slots.Fits row then (.inserted (some slots.next), slots.store row)
    else (.inserted none, slots)
  | .update slot row =>
    match slots[slot]? with
    | some (some old) =>
      if row.length ≤ old.length then (.changed true, slots.set slot (some row))
      else (.changed false, slots)
    | _ => (.changed false, slots)
  | .erase slot =>
    match slots[slot]? with
    | some (some _) => (.changed true, slots.set slot none)
    | _ => (.changed false, slots)
  | .read slot => (.found (slots[slot]?.getD none), slots)

/-! ### The slots of a page -/

/-- The slots that a page holds. -/
def slotsOf (page : PageBytes) : Slots :=
  (List.range (slotCount page)).map (rowAt page)

variable {page : PageBytes}

@[simp]
theorem length_slotsOf : (slotsOf page).length = slotCount page := by
  rw [slotsOf, List.length_map, List.length_range]

/-- It holds the row of the slot. -/
theorem getElem?_slotsOf (slot : Nat) :
    (slotsOf page)[slot]? = if slot < slotCount page then some (rowAt page slot) else none := by
  rw [slotsOf, List.getElem?_map]
  split
  · next h => rw [List.getElem?_range h, Option.map_some]
  · next h => rw [List.getElem?_eq_none (by rwa [List.length_range, ← Nat.not_lt]), Option.map_none]

/-- A slot that is not there holds none. -/
theorem getElem?_slotsOf_getD (slot : Nat) : (slotsOf page)[slot]?.getD none = rowAt page slot := by
  rw [getElem?_slotsOf]
  split
  · rfl
  · next h => exact (rowAt_of_ge (Nat.le_of_not_lt h)).symm

/-- The slots use the space of their rows. -/
theorem used_slotsOf : (slotsOf page).used = usedSpace page := by
  rw [Slots.used, slotsOf, List.map_map, usedSpace, Finset.sum_range, ← List.sum_ofFn]
  congr 1
  apply List.ext_getElem <;> simp

/-- A change of one slot. -/
theorem slotsOf_update {q : PageBytes} {slot : Nat} {row : Option Bytes} (hcount : slotCount q = slotCount page)
    (hrows : rowAt q = Function.update (rowAt page) slot row) :
    slotsOf q = (slotsOf page).set slot row := by
  apply List.ext_getElem?
  intro i
  rw [List.getElem?_set, length_slotsOf, getElem?_slotsOf, getElem?_slotsOf, hcount, hrows]
  by_cases hi : slot = i
  · rw [if_pos hi, hi, Function.update_self]
  · rw [if_neg hi, Function.update_of_ne (Ne.symm hi)]

/-- The slot that `insert` looks for is the first one without a row. -/
theorem freeSlot_eq (page : PageBytes) : freeSlot page = (slotsOf page).findIdx? (·.isNone) := by
  have hfree (slot : Nat) (hslot : slot < slotCount page) :
      (rowFlag page slot == 0) = (rowAt page slot).isNone := by
    rw [rowAt]
    by_cases hflag : rowFlag page slot = 0
    · simp [hflag]
    · simp [hflag, hslot]
  apply Option.ext
  intro slot
  rw [freeSlot, List.find?_range_eq_some, List.findIdx?_eq_some_iff_getElem]
  simp only [slotsOf, List.length_map, List.length_range, List.getElem_map, List.getElem_range,
    List.mem_range, Bool.not_eq_true', Bool.not_eq_true, exists_prop]
  constructor
  · rintro ⟨hflag, hslot, hbefore⟩
    refine ⟨hslot, hfree slot hslot ▸ hflag, fun i hi ↦ ?_⟩
    exact hfree i (Nat.lt_trans hi hslot) ▸ hbefore i hi
  · rintro ⟨hslot, hflag, hbefore⟩
    refine ⟨hfree slot hslot ▸ hflag, hslot, fun i hi ↦ ?_⟩
    exact hfree i (Nat.lt_trans hi hslot) ▸ hbefore i hi

theorem next_slotsOf (page : PageBytes) : (slotsOf page).next = nextSlot page := by
  rw [Slots.next, nextSlot, freeSlot_eq, length_slotsOf]

/-! ### Storing a row -/

namespace Slots

variable {slots : Slots}

/-- The next slot is free, or the one behind the last. -/
theorem next_cases (slots : Slots) :
    (slots.next < slots.length ∧ (slots.findIdx? (·.isNone)).isSome ∧ slots[slots.next]? = some none) ∨
      (slots.next = slots.length ∧ slots.findIdx? (·.isNone) = none) := by
  cases hfind : slots.findIdx? (·.isNone) with
  | none => exact .inr ⟨by rw [next, hfind, Option.getD_none], rfl⟩
  | some slot =>
    obtain ⟨hslot, hnone, -⟩ := List.findIdx?_eq_some_iff_getElem.1 hfind
    have hnext : slots.next = slot := by rw [next, hfind, Option.getD_some]
    refine .inl ⟨hnext ▸ hslot, rfl, ?_⟩
    rw [hnext, List.getElem?_eq_getElem hslot, Option.isNone_iff_eq_none.1 hnone]

/-- Storing a row uses its length. -/
theorem used_store (slots : Slots) (row : Bytes) : (slots.store row).used = slots.used + row.length := by
  rcases slots.next_cases with ⟨hlt, -, hfree⟩ | ⟨hnext, -⟩
  · rw [store, if_pos hlt, used, List.sum_map_set _ hfree]
    rfl
  · rw [store, if_neg (by omega), used, List.map_append, List.sum_append]
    rfl

/-- Storing takes a new slot when none is free. -/
theorem length_store (slots : Slots) (row : Bytes) : (slots.store row).length =
    if (slots.findIdx? (·.isNone)).isSome then slots.length else slots.length + 1 := by
  rcases slots.next_cases with ⟨hlt, hsome, -⟩ | ⟨hnext, hnone⟩
  · rw [store, if_pos hlt, List.length_set, if_pos hsome]
  · rw [store, if_neg (by omega), List.length_append, hnone]
    rfl

end Slots

/-- The room that `insert` makes by compaction is what the slots leave. -/
theorem SlottedPage.PageOK.hasRoom_iff (h : PageOK page) (row : Bytes) :
    HasRoom page row ↔ (slotsOf page).Fits row := by
  rw [HasRoom, Slots.Fits, Slots.used_store, Slots.length_store, ← freeSlot_eq, length_slotsOf, used_slotsOf,
    h.start_eq, ← h.slotCount_eq, needed]
  split <;> omega

/-- A placed row is stored in the next slot. -/
theorem SlottedPage.Placed.slotsOf_eq {row : Bytes} {q : PageBytes} (h : Placed page row (nextSlot page) q) :
    slotsOf q = (slotsOf page).store row := by
  rcases (slotsOf page).next_cases with ⟨hlt, -, -⟩ | ⟨hnext, -⟩
  · rw [Slots.store, if_pos hlt, next_slotsOf]
    rw [next_slotsOf, length_slotsOf] at hlt
    exact slotsOf_update (by rw [h.slotCount_eq]; omega) h.rowAt_eq
  · rw [Slots.store, if_neg (by omega)]
    rw [next_slotsOf, length_slotsOf] at hnext
    have hcount : slotCount q = slotCount page + 1 := by
      rw [h.slotCount_eq]
      omega
    rw [slotsOf, hcount, List.range_succ, List.map_append, List.map_singleton, h.rowAt_eq, hnext,
      Function.update_self]
    congr 1
    refine List.map_congr_left fun slot hslot ↦ Function.update_of_ne ?_ _ _
    exact Nat.ne_of_lt (List.mem_range.1 hslot)

/-! ### One operation -/

/-- A well-formed page with these slots. -/
def HoldsSlots (page : PageBytes) (slots : Slots) : Prop :=
  PageOK page ∧ slotsOf page = slots

/-- An insertion does to the slots what it does to the page. -/
theorem holdsSlots_insert (h : PageOK page) (row : Bytes) :
    ((PageOp.insert row).run page).1 = ((PageOp.insert row).runSlots (slotsOf page)).1 ∧
      HoldsSlots ((PageOp.insert row).run page).2 ((PageOp.insert row).runSlots (slotsOf page)).2 := by
  simp only [PageOp.run, PageOp.runSlots]
  by_cases hrow : row.length > 65535
  · rw [insert_too_large h.valid hrow, if_pos hrow]
    exact ⟨rfl, h, rfl⟩
  · rw [if_neg hrow]
    by_cases hroom : HasRoom page row
    · obtain ⟨q, hinsert, hplaced⟩ := h.insert_of_room (Nat.not_lt.1 hrow) hroom
      rw [hinsert, if_pos ((h.hasRoom_iff row).1 hroom), next_slotsOf]
      exact ⟨rfl, hplaced.ok, hplaced.slotsOf_eq⟩
    · obtain ⟨q, hinsert, hok, hcount, hrows⟩ := h.insert_of_full (Nat.not_lt.1 hrow) hroom
      rw [hinsert, if_neg fun hfits ↦ hroom ((h.hasRoom_iff row).2 hfits)]
      exact ⟨rfl, hok, by rw [slotsOf, hcount, hrows, slotsOf]⟩

/-- A well-formed page answers like its slots. -/
theorem page_simulates : IsSimulation HoldsSlots PageOp.run PageOp.runSlots := by
  rintro op page _ ⟨h, rfl⟩
  cases op with
  | insert row => exact holdsSlots_insert h row
  | update slot row =>
    simp only [PageOp.run, PageOp.runSlots, getElem?_slotsOf]
    cases hold : rowAt page slot with
    | none =>
      rw [h.update_none (by rw [hold]; nofun)]
      split_ifs <;> exact ⟨rfl, h, rfl⟩
    | some old =>
      have hslot : slot < slotCount page := h.slotCount_eq ▸ (rowAt_eq_some h hold).1
      rw [if_pos hslot]
      by_cases hlength : row.length ≤ old.length
      · obtain ⟨q, hupdate, hok, hcount, hrows⟩ := h.update_some hold hlength
        simp only [hupdate, if_pos hlength]
        exact ⟨trivial, hok, slotsOf_update hcount hrows⟩
      · rw [h.update_none fun old' hold' ↦ Option.some.inj (hold.symm.trans hold') ▸ Nat.lt_of_not_le hlength]
        simp only [if_neg hlength]
        exact ⟨trivial, h, rfl⟩
  | erase slot =>
    simp only [PageOp.run, PageOp.runSlots, getElem?_slotsOf]
    cases hold : rowAt page slot with
    | none =>
      rw [h.erase_none hold]
      split_ifs <;> exact ⟨rfl, h, rfl⟩
    | some old =>
      have hslot : slot < slotCount page := h.slotCount_eq ▸ (rowAt_eq_some h hold).1
      obtain ⟨q, herase, hok, hcount, hrows⟩ := h.erase_some hold
      rw [if_pos hslot, herase]
      exact ⟨rfl, hok, slotsOf_update hcount hrows⟩
  | read slot =>
    simp only [PageOp.run, PageOp.runSlots, h.read_eq, getElem?_slotsOf_getD]
    exact ⟨trivial, h, rfl⟩

/-! ### Runs -/

/-- The operation stores into the slot or frees it, whatever is in it. -/
def PageOp.Aims (slot : Nat) : PageOp → Prop
  | .insert _ | .read _ => False
  | .update target _ | .erase target => target = slot

/-- A row stays in its slot until an operation aims there. -/
theorem PageOp.runSlots_keeps {slots : Slots} {slot : Nat} {row : Bytes} (h : slots[slot]? = some (some row))
    {op : PageOp} (hop : ¬op.Aims slot) : (op.runSlots slots).2[slot]? = some (some row) := by
  have hset {target : Nat} {new : Option Bytes} (hne : target ≠ slot) :
      (slots.set target new)[slot]? = some (some row) := by
    rw [List.getElem?_set_ne hne, h]
  cases op with
  | insert new =>
    have hstore : (slots.store new)[slot]? = some (some row) := by
      rcases slots.next_cases with ⟨hlt, -, hfree⟩ | ⟨hnext, -⟩
      · rw [Slots.store, if_pos hlt]
        refine hset fun heq ↦ ?_
        rw [heq, h] at hfree
        cases hfree
      · rw [Slots.store, if_neg (by omega), List.getElem?_append_left (List.getElem?_eq_some_iff.1 h).1, h]
    simp only [runSlots]
    split_ifs <;> first | exact h | exact hstore
  | update target new =>
    simp only [runSlots]
    split
    · split_ifs
      · exact hset hop
      · exact h
    · exact h
  | erase target =>
    simp only [runSlots]
    split
    · exact hset hop
    · exact h
  | read target => exact h

/-- Over every run from an empty page, the header and the rows are well-formed, the answers are those of the
slots with the bytes stored last, and the next operation leaves all rows alone that it does not aim at. -/
theorem slottedPage_refines_slots (ops : List PageOp) :
    PageOK (runOps PageOp.run ops formatted).2 ∧
      (runOps PageOp.run ops formatted).1 = (runOps PageOp.runSlots ops []).1 ∧
      slotsOf (runOps PageOp.run ops formatted).2 = (runOps PageOp.runSlots ops []).2 ∧
      ∀ (op : PageOp) (slot : Nat) (row : Bytes), rowAt (runOps PageOp.run ops formatted).2 slot = some row →
        ¬op.Aims slot → rowAt (op.run (runOps PageOp.run ops formatted).2).2 slot = some row := by
  have hempty : HoldsSlots formatted [] := by
    refine ⟨formatted_ok.1, ?_⟩
    rw [slotsOf, formatted_ok.1.slotCount_eq, show formatted.read16 4 = 0 by decide +kernel]
    rfl
  obtain ⟨hanswers, hok, hslots⟩ := page_simulates.run hempty ops
  refine ⟨hok, hanswers, hslots, fun op slot row hrow hop ↦ ?_⟩
  generalize (runOps PageOp.run ops formatted).2 = page at hok hrow ⊢
  have hnext := (page_simulates op page _ ⟨hok, rfl⟩).2.2
  have hget : (slotsOf page)[slot]? = some (some row) := by
    rw [getElem?_slotsOf, if_pos (hok.slotCount_eq ▸ (rowAt_eq_some hok hrow).1), hrow]
  rw [← getElem?_slotsOf_getD, hnext, PageOp.runSlots_keeps hget hop, Option.getD_some]

end SkibidiQL
