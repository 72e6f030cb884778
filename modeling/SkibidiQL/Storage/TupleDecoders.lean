import SkibidiQL.Base.OffsetReader
import SkibidiQL.Base.Utf8
import SkibidiQL.Storage.TupleCodec

/-!
# The decoders of tuples

Tuples are decoded in five places, all of which walk over the bytes with an offset: `decodeTuple` and its
projection build values, two functions of the raw scans build `RawField`s, and one is in Python. Here they are
as in the source, with every access to memory; `HeapFile.decodeTupleProjected` and its parts describe what
they have in common.
-/

namespace SkibidiQL

/-- `struct RawField`. -/
structure RawField where
  type : ValueType := .null
  isNull : Bool := true
  integer : Int64 := 0
  real : UInt64 := 0
  boolean : Bool := false
  text : Bytes := []
  blob : Bytes := []

/-- `RawField::toValue`. -/
def RawField.toValue (field : RawField) : Value :=
  if field.isNull then .null
  else match field.type with
    | .integer => .integer field.integer
    | .real => .real field.real
    | .text => .text field.text
    | .boolean => .boolean field.boolean
    | .blob => .blob field.blob
    | .null => .null

namespace TupleBytes

open OffsetReader

/-- The decoders of the engine, which throw a message. -/
abbrev Decoder := OffsetReader Error

section Fields

variable (data : Bytes)

/-- `readPod` and `readRawPod` of an unsigned number of this width. -/
def readPod (width : Nat) : Decoder Nat := do
  let bytes ← check (fun offset ↦ offset + width > data.length) (lit "Corrupt tuple payload") >>= fun _ ↦
    nextSlice data width
  pure (LittleEndian.decode bytes)

/-- The payload of a text or a blob, which is copied only when it is wanted. -/
def readBytes (error : String) (materialize : Bool) : Decoder Bytes := do
  let length ← readPod data 4
  if materialize then
    check (fun offset ↦ offset + length > data.length) (lit error) >>= fun _ ↦ nextSlice data length
  else do
    check (fun offset ↦ offset + length > data.length) (lit error) >>= fun _ ↦ skip length
    pure []

/-- The type tag of a field. -/
def readTag : Decoder UInt8 :=
  check (fun offset ↦ offset ≥ data.length) (lit "Corrupt tuple type tag") >>= fun _ ↦ next data

/-- A field in the loop of `decodeTupleProjected`; the value counts only when it is wanted. -/
def readValue (materialize : Bool) : Decoder Value := do
  match (← readTag data).toNat with
  | 0 => pure .null
  | 1 => do
    let n ← readPod data 8
    pure (.integer (UInt64.ofNat n).toInt64)
  | 2 => do
    let n ← readPod data 8
    pure (.real (UInt64.ofNat n))
  | 3 => do
    let text ← readBytes data "Corrupt text tuple field" materialize
    pure (.text text)
  | 4 =>
    if materialize then do
      let b ← check (fun offset ↦ offset ≥ data.length) (lit "Corrupt boolean tuple field") >>= fun _ ↦ next data
      pure (.boolean (b != 0))
    -- A boolean that is not wanted is skipped unread.
    else do
      check (fun offset ↦ offset ≥ data.length) (lit "Corrupt boolean tuple field") >>= fun _ ↦ skip 1
      pure (.boolean false)
  | 5 => do
    let blob ← readBytes data "Corrupt blob tuple field" materialize
    pure (.blob blob)
  | _ => fail (lit "Unknown tuple field type")

/-- A field in the loops of `decodeRawProjectedInto` and `decodeRawColumn`. -/
def readRawField (materialize : Bool) : Decoder RawField := do
  match (← readTag data).toNat with
  | 0 => pure { type := .null, isNull := true }
  | 1 => do
    let n ← readPod data 8
    pure { type := .integer, isNull := false, integer := (UInt64.ofNat n).toInt64 }
  | 2 => do
    let n ← readPod data 8
    pure { type := .real, isNull := false, real := UInt64.ofNat n }
  | 3 => do
    let text ← readBytes data "Corrupt text tuple field" materialize
    pure { type := .text, isNull := false, text }
  | 4 => do
    -- A boolean is decoded whether it is wanted or not.
    let b ← check (fun offset ↦ offset ≥ data.length) (lit "Corrupt boolean tuple field") >>= fun _ ↦ next data
    pure { type := .boolean, isNull := false, boolean := b != 0 }
  | 5 => do
    let blob ← readBytes data "Corrupt blob tuple field" materialize
    pure { type := .blob, isNull := false, blob }
  | _ => fail (lit "Unknown tuple field type")

/-! ### The loops -/

/-- The loop of a projected decoder, with the rounds left, the index of the field, how many columns have been
found and what is stored of them. -/
def projectedLoop {α β : Type} (read : Bool → Decoder α) (store : Nat → α → β → β) (columns : List Nat) :
    Nat → Nat → Nat → β → Decoder β
  | 0, _, _, stored => pure stored
  | rounds + 1, index, projected, stored => do
    let materialize := columns[projected]? == some index
    let field ← read materialize
    if materialize then
      -- The source breaks out of the loop here.
      if projected + 1 = columns.length then pure (store projected field stored)
      else projectedLoop read store columns rounds (index + 1) (projected + 1) (store projected field stored)
    else projectedLoop read store columns rounds (index + 1) projected stored

/-- The check of the columns in `decodeTupleProjected` and `decodeRawProjectedInto`. -/
def invalidColumns (columns : List Nat) (last count : Nat) : Bool :=
  last ≥ count || !HeapFile.sortedUnique columns

/-- `HeapFile::decodeTupleProjected`. -/
def decodeTupleProjected (columns : List Nat) : Decoder Tuple :=
  match columns.getLast? with
  | none => pure []
  | some last => do
    let count ← readPod data 2
    if invalidColumns columns last count then fail (lit "Invalid projected tuple columns")
    else projectedLoop (readValue data) (fun _ value tuple ↦ tuple ++ [value]) columns count 0 0 []

/-- `HeapFile::decodeTuple`. -/
def decodeTuple : Decoder Tuple := do
  let count ← readPod data 2
  set 0
  decodeTupleProjected data (List.range count)

/-- `decodeRawProjectedInto`. -/
def decodeRawProjectedInto (columns : List Nat) : Decoder (List RawField) :=
  match columns.getLast? with
  | none => pure []
  | some last => do
    let count ← readPod data 2
    if invalidColumns columns last count then fail (lit "Invalid projected tuple columns")
    else
      projectedLoop (readRawField data) (fun projected field fields ↦ fields.set projected field) columns count 0 0
        (List.replicate columns.length {})

/-- The loop of `decodeRawColumn`. -/
def rawColumnLoop (column : Nat) : Nat → Nat → Decoder RawField
  | 0, _ => fail (lit "Invalid projected tuple column")
  | rounds + 1, index => do
    let materialize := index == column
    let field ← readRawField data materialize
    if materialize then pure field else rawColumnLoop column rounds (index + 1)

/-- `decodeRawColumn`. -/
def decodeRawColumn (column : Nat) : Decoder RawField := do
  let count ← readPod data 2
  if column ≥ count then fail (lit "Invalid projected tuple column")
  else rawColumnLoop data column count 0

end Fields

/-- What a decoder makes of the bytes. -/
def run {α : Type} (decoder : Decoder α) : Except (ReadFailure Error) α :=
  (decoder 0).map Prod.fst

end TupleBytes

/-! ### The decoder in Python -/

/-- The values that `_decode_tuple` makes, a `float` by its bits. -/
inductive PyValue where
  | none
  | int (n : Int)
  | float (bits : UInt64)
  | str (text : List Char)
  | bool (b : Bool)
  | bytes (data : Bytes)

/-- What may be raised. -/
inductive PyError where
  | indexError
  | structError
  | unicodeDecodeError
  | valueError (tag : Nat)

/-- `bytes.decode("utf-8")`. -/
def decodeUtf8 (bytes : Bytes) : Option (List Char) :=
  bytes.toByteArray.utf8Decode?.map Array.toList

namespace PyTuple

/-- `payload[offset]`. -/
def item (payload : Bytes) (offset : Nat) : Except PyError UInt8 :=
  match payload[offset]? with
  | some b => .ok b
  | none => .error .indexError

/-- `struct.unpack_from` of an unsigned number of this width. -/
def unpackFrom (width : Nat) (payload : Bytes) (offset : Nat) : Except PyError Nat :=
  if offset + width ≤ payload.length then .ok (LittleEndian.decode (payload.slice offset width))
  else .error .structError

/-- One round of the loop of `_decode_tuple`: the value and the offset behind it. -/
def decodeField (payload : Bytes) (offset : Nat) : Except PyError (PyValue × Nat) := do
  let tag ← item payload offset
  let offset := offset + 1
  match tag.toNat with
  | 0 => pure (.none, offset)
  | 1 => pure (.int (UInt64.ofNat (← unpackFrom 8 payload offset)).toInt64.toInt, offset + 8)
  | 2 => pure (.float (UInt64.ofNat (← unpackFrom 8 payload offset)), offset + 8)
  | 3 => do
    let length ← unpackFrom 4 payload offset
    match decodeUtf8 (payload.slice (offset + 4) length) with
    | none => throw .unicodeDecodeError
    | some text => pure (.str text, offset + 4 + length)
  | 4 => pure (.bool ((← item payload offset) != 0), offset + 1)
  | 5 => do
    let length ← unpackFrom 4 payload offset
    pure (.bytes (payload.slice (offset + 4) length), offset + 4 + length)
  | tag => throw (.valueError tag)

/-- The loop of `_decode_tuple`. -/
def decodeFields (payload : Bytes) : Nat → Nat → Except PyError (List PyValue)
  | 0, _ => pure []
  | rounds + 1, offset => do
    let (value, offset) ← decodeField payload offset
    pure (value :: (← decodeFields payload rounds offset))

/-- `_decode_tuple`. -/
def decodeTuple (payload : Bytes) : Except PyError (List PyValue) := do
  let count ← unpackFrom 2 payload 0
  decodeFields payload count 2

end PyTuple

end SkibidiQL
