import SkibidiQL.Base.LittleEndian
import SkibidiQL.Base.RecordLog
import SkibidiQL.Storage.Disk

/-!
# The write-ahead log

`NativeWal`: the images of files before a transaction changes them, in the file `skibidi.wal`. A record is a
type, the id of a transaction, the sizes of a path and of data, whether the file existed, the path and the
data. Recovery puts the images of the transactions without a commit record back and removes the log.
-/

namespace SkibidiQL

namespace NativeWal

/-- `NativeWal::walPath`. -/
def walPath : Path :=
  lit "skibidi.wal"

/-- `kBegin`. -/
def kBegin : UInt8 := 66

/-- `kFileBefore`. -/
def kFileBefore : UInt8 := 70

/-- `kCommit`. -/
def kCommit : UInt8 := 67

/-- What `appendRecord` writes and `recover` reads. -/
structure WalRecord where
  type : UInt8
  transactionId : UInt64
  relativePath : Bytes := []
  existed : Bool := false
  bytes : Bytes := []
deriving DecidableEq

/-- `struct WalFileImage`. -/
structure WalFileImage where
  existed : Bool := false
  bytes : Bytes := []
deriving DecidableEq

/-! ### Writing the log -/

/-- The bytes that `appendRecord` writes; the sizes are those of `std::uint32_t` and `std::uint64_t`. -/
def encodeRecord (record : WalRecord) : Bytes :=
  record.type :: LittleEndian.encode 8 record.transactionId.toNat ++
    LittleEndian.encode 4 record.relativePath.length ++ LittleEndian.encode 8 record.bytes.length ++
    [if record.existed then 1 else 0] ++ record.relativePath ++ record.bytes

/-- `NativeWal::appendRecord`. -/
def appendRecord (record : WalRecord) : Write :=
  .append walPath (encodeRecord record)

/-- `NativeWal::begin`, with the id that the clock gives. -/
def begin (transactionId : UInt64) : Write :=
  appendRecord { type := kBegin, transactionId }

/-- The record of `NativeWal::logBefore`. -/
def beforeRecord (transactionId : UInt64) (path : Path) (before : Option Bytes) : WalRecord where
  type := kFileBefore
  transactionId
  relativePath := path
  existed := before.isSome
  bytes := before.getD []

/-- `NativeWal::logBefore`. -/
def logBefore (transactionId : UInt64) (path : Path) (before : Option Bytes) : Write :=
  appendRecord (beforeRecord transactionId path before)

/-- `NativeWal::commit`. -/
def commit (transactionId : UInt64) : Write :=
  appendRecord { type := kCommit, transactionId }

/-- `NativeWal::checkpoint`. -/
def checkpoint : Write :=
  .remove walPath

/-! ### Reading the log -/

/-- `readPod`, of an unsigned integer. -/
def readPod (size : Nat) : FrontReader UInt8 Nat := do
  pure (LittleEndian.decode (← FrontReader.take size))

/-- The body of the loop that reads the log in `recover`. -/
def readRecord : FrontReader UInt8 WalRecord := do
  let type ← readPod 1
  let transactionId ← readPod 8
  let pathSize ← readPod 4
  let dataSize ← readPod 8
  let existedByte ← readPod 1
  let relative ← FrontReader.take pathSize
  let bytes ← FrontReader.take dataSize
  pure {
    type := UInt8.ofNat type
    transactionId := UInt64.ofNat transactionId
    relativePath := relative
    existed := existedByte != 0
    bytes }

/-- The records of the log. -/
def format : RecordFormat WalRecord UInt8 where
  encode := encodeRecord
  read := readRecord

/-- `struct Transaction` in `recover`. -/
structure Transaction where
  committed : Bool := false
  beforeImages : NameMap WalFileImage := ∅

/-- The `std::map` of the transactions in `recover`. -/
abbrev Transactions := Std.ExtTreeMap UInt64 Transaction compare

/-- What one record does to its transaction. -/
def Transaction.add (transaction : Transaction) (record : WalRecord) : Transaction :=
  if record.type = kCommit then { transaction with committed := true }
  else if record.type = kFileBefore && !record.relativePath.isEmpty then
    { transaction with
      beforeImages := transaction.beforeImages.insertIfNew record.relativePath ⟨record.existed, record.bytes⟩ }
  else transaction

/-- The loop of `recover` over the records. -/
def transactions (records : List WalRecord) : Transactions :=
  records.foldl (fun transactions record ↦
    transactions.insert record.transactionId ((transactions.getD record.transactionId {}).add record)) ∅

/-- The images that `recover` puts back, in its order. -/
def uncommitted (transactions : Transactions) : List (Path × WalFileImage) :=
  transactions.toList.flatMap fun entry ↦
    if entry.2.committed then [] else entry.2.beforeImages.toList.reverse

/-- `restoreFile`. -/
def restoreFile (path : Path) (image : WalFileImage) : List Write :=
  if image.existed then
    .truncate path :: if image.bytes.isEmpty then [] else [.write path 0 image.bytes]
  else [.remove path]

/-- What `NativeWal::recover` writes. -/
def recoverWrites (files : Files) : List Write :=
  match files[walPath]? with
  | none => []
  | some log =>
    (uncommitted (transactions (format.records log))).flatMap (fun file ↦ restoreFile file.1 file.2) ++ [checkpoint]

/-- `NativeWal::recover`. -/
def recover (disk : Disk) : Disk :=
  (recoverWrites disk.files).foldl Disk.perform disk

end NativeWal

end SkibidiQL
