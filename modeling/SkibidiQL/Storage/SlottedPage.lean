import SkibidiQL.Base.LittleEndian
import SkibidiQL.Base.Patch
import SkibidiQL.Storage.Value

/-!
# Slotted pages

A heap page of 4096 bytes. The header holds a magic number, the number of slots, and the bounds of the
free space; the slot directory grows upwards from byte 16 and the rows grow downwards from the end:

    0 magic (4)   4 slot count (2)   6 free start (2)   8 free end (2)   16 slots …   … rows 4096

A slot is six bytes: the offset of its row, the length, and whether it is in use.
-/

namespace SkibidiQL

/-- `SlottedPage::PAGE_SIZE`. -/
def pageSize : Nat := 4096

/-- `SlottedPage::MAGIC`. -/
def pageMagic : Nat := 0x534B5047

/-- `std::array<std::uint8_t, PAGE_SIZE>`. -/
structure PageBytes where
  bytes : Bytes
  size_eq : bytes.length = pageSize

/-- Computations on the bytes of a page that may throw. -/
abbrev PageM := EStateM Error PageBytes

namespace PageBytes

/-- A page of zeros. -/
def zero : PageBytes :=
  ⟨List.replicate pageSize 0, List.length_replicate⟩

/-- `std::memcpy` into the page. -/
def write (page : PageBytes) (offset : Nat) (data : Bytes) : PageBytes :=
  ⟨page.bytes.patch offset data, by rw [List.length_patch, page.size_eq]⟩

/-- `SlottedPage::read16`. -/
def read16 (page : PageBytes) (offset : Nat) : Nat :=
  LittleEndian.decode (page.bytes.slice offset 2)

/-- `SlottedPage::read32`. -/
def read32 (page : PageBytes) (offset : Nat) : Nat :=
  LittleEndian.decode (page.bytes.slice offset 4)

/-- `SlottedPage::write16`. -/
def write16 (page : PageBytes) (offset value : Nat) : PageBytes :=
  page.write offset (LittleEndian.encode 2 value)

/-- `SlottedPage::write32`. -/
def write32 (page : PageBytes) (offset value : Nat) : PageBytes :=
  page.write offset (LittleEndian.encode 4 value)

end PageBytes

open PageBytes

/-- `static_cast<std::uint16_t>(a - b)`. -/
def sub16 (a b : Nat) : Nat :=
  (a + 65536 - b % 65536) % 65536

namespace SlottedPage

/-- `SlottedPage::slotOffset`. -/
def slotOffset (slot : Nat) : Nat :=
  16 + slot * 6

/-- `SlottedPage::initialize`. -/
def formatted : PageBytes :=
  ((((PageBytes.zero.write32 0 pageMagic).write16 4 0).write16 6 16).write16 8 pageSize)

/-- `SlottedPage::valid`. -/
def valid (page : PageBytes) : Bool :=
  page.read32 0 == pageMagic

/-- `SlottedPage::freeSpace`. -/
def freeSpace (page : PageBytes) : Nat :=
  if valid page then page.read16 8 - page.read16 6 else 0

/-- `SlottedPage::slotCount`. -/
def slotCount (page : PageBytes) : Nat :=
  if valid page then page.read16 4 else 0

/-- The offset, the length and the flag in the directory entry of a slot. -/
def rowOffset (page : PageBytes) (slot : Nat) : Nat := page.read16 (slotOffset slot)

@[inherit_doc rowOffset]
def rowLength (page : PageBytes) (slot : Nat) : Nat := page.read16 (slotOffset slot + 2)

@[inherit_doc rowOffset]
def rowFlag (page : PageBytes) (slot : Nat) : Nat := page.read16 (slotOffset slot + 4)

/-- `SlottedPage::read`, and `SlottedPage::readView`, which has the same checks. -/
def read (page : PageBytes) (slot : Nat) : Except Error (Option Bytes) :=
  if !valid page || slot ≥ slotCount page then pure none
  else if rowFlag page slot == 0 then pure none
  else if rowOffset page slot + rowLength page slot > pageSize then
    throw (lit "Corrupt slotted page")
  else pure (some (page.bytes.slice (rowOffset page slot) (rowLength page slot)))

/-- `SlottedPage::erase`; `none` stands for `false`. -/
def erase (page : PageBytes) (slot : Nat) : Option PageBytes :=
  if !valid page || slot ≥ slotCount page then none
  else if rowFlag page slot == 0 then none
  else some ((page.write16 (slotOffset slot + 4) 0).write16 (slotOffset slot + 2) 0)

/-- `SlottedPage::update`; `none` stands for `false`. -/
def update (page : PageBytes) (slot : Nat) (row : Bytes) : Option PageBytes :=
  if !valid page || slot ≥ slotCount page then none
  else if rowFlag page slot == 0 then none
  else if row.length > rowLength page slot then none
  else some ((page.write (rowOffset page slot) row).write16 (slotOffset slot + 2) row.length)

/-- The directory entry of a row that is in use. -/
def writeSlot (page : PageBytes) (slot offset length : Nat) : PageBytes :=
  ((page.write16 (slotOffset slot) offset).write16 (slotOffset slot + 2) length).write16
    (slotOffset slot + 4) 1

/-- The rows that `SlottedPage::compact` collects. -/
def liveRows (page : PageBytes) : Except Error (List (Nat × Bytes)) := do
  let rows ← (List.range (slotCount page)).mapM fun slot ↦ do
    pure ((← read page slot).map fun row ↦ (slot, row))
  pure (rows.filterMap id)

/-- One round of the second loop of `SlottedPage::compact`: the row goes below the rows before it. -/
def compactRow (state : PageBytes × Nat) (item : Nat × Bytes) : PageBytes × Nat :=
  let rowsEnd := sub16 state.2 item.2.length
  (writeSlot (state.1.write rowsEnd item.2) item.1 rowsEnd item.2.length, rowsEnd)

/-- `SlottedPage::compact`. -/
def compact : PageM Unit := do
  let page ← get
  match liveRows page with
  | .error error => throw error
  | .ok rows =>
    let (page, rowsEnd) := rows.foldl compactRow (page, pageSize)
    set (page.write16 8 rowsEnd)

/-- The end of `SlottedPage::insert`: the row goes to the end of the free space and its slot to the
directory, where a new slot is counted. -/
def placeRow (page : PageBytes) (reusable : Option Nat) (row : Bytes) : Nat × PageBytes :=
  let rowsEnd := sub16 (page.read16 8) row.length
  let page := (page.write rowsEnd row).write16 8 rowsEnd
  match reusable with
  | some slot => (slot, writeSlot page slot rowsEnd row.length)
  | none =>
    let slot := page.read16 4
    let page := (page.write16 4 (slot + 1)).write16 6 (16 + (slot + 1) * 6)
    (slot, writeSlot page slot rowsEnd row.length)

/-- The bytes that a row needs, with a directory entry for it when no slot is reused. -/
def needed (reusable : Option Nat) (row : Bytes) : Nat :=
  row.length + if reusable.isSome then 0 else 6

/-- The first slot that is free. -/
def freeSlot (page : PageBytes) : Option Nat :=
  (List.range (slotCount page)).find? fun slot ↦ rowFlag page slot == 0

/-- `SlottedPage::insert`, from the search for room on. -/
def insertInto (reusable : Option Nat) (row : Bytes) : PageM (Option Nat) := do
  if freeSpace (← get) < needed reusable row then compact
  let page ← get
  if freeSpace page < needed reusable row then return none
  let (slot, page) := placeRow page reusable row
  set page
  return some slot

/-- `SlottedPage::insert`. -/
def insert (row : Bytes) : PageM (Option Nat) := do
  if !valid (← get) then set formatted
  if row.length > 65535 then throw (lit "Tuple is too large")
  insertInto (freeSlot (← get)) row

end SlottedPage

end SkibidiQL
