import SkibidiQL.Base.Patch
import SkibidiQL.Catalog.Metadata

/-!
# The disk

The database directory: a map from the paths below the root to the bytes of the files. Every change is one
of four `Write`s and is remembered in a trace, because a crash may stop the program after any prefix of
them and in the middle of the last one (`crashAfter`).
-/

namespace SkibidiQL

/-- A path, relative to the root of the database. -/
abbrev Path := Bytes

/-- The regular files of the database directory. -/
abbrev Files := NameMap Bytes

/-- A change of one file. -/
inductive Write where
  /-- Opening a `std::ofstream`: the file is created, or emptied. -/
  | truncate (path : Path)
  /-- Writing at a position of a file. -/
  | write (path : Path) (offset : Nat) (data : Bytes)
  /-- Writing at the end of a file opened with `std::ios::app`. -/
  | append (path : Path) (data : Bytes)
  /-- `std::filesystem::remove`. -/
  | remove (path : Path)
deriving DecidableEq

/-- The bytes of a file after writing at a position; a gap in front of it reads as zeros. -/
def overwrite (file : Bytes) (offset : Nat) (data : Bytes) : Bytes :=
  if data.isEmpty then file
  else
    file.take offset ++ List.replicate (offset - file.length) 0 ++ data ++
      file.drop (offset + data.length)

namespace Write

/-- The path that is written. -/
def path : Write → Path
  | truncate path => path
  | write path _ _ => path
  | append path _ => path
  | remove path => path

/-- The effect on the files. -/
def apply (files : Files) : Write → Files
  | truncate path => files.insert path []
  | write path offset data => files.insert path (overwrite (files.getD path []) offset data)
  | append path data => files.insert path (files.getD path [] ++ data)
  | remove path => files.erase path

/-- The part of the write that is done when it is cut off after `k` bytes: creating, emptying and
removing a file is done at once. -/
def cut (k : Nat) : Write → Write
  | truncate path => truncate path
  | write path offset data => write path offset (data.take k)
  | append path data => append path (data.take k)
  | remove path => remove path

end Write

/-- The files after all of the writes. -/
def applyAll (files : Files) (writes : List Write) : Files :=
  writes.foldl Write.apply files

/-- The files after a crash that lets `n` writes through, and of the next one `k` bytes when `torn`. -/
def crashAfter (files : Files) (writes : List Write) (n : Nat) (torn : Option Nat) : Files :=
  let done := applyAll files (writes.take n)
  match torn, writes[n]? with
  | some k, some write => (write.cut k).apply done
  | _, _ => done

/-- The database directory, with its absolute path and the writes done so far. -/
structure Disk where
  root : Bytes := []
  files : Files := ∅
  trace : List Write := []
deriving DecidableEq

namespace Disk

/-- A change of the disk. -/
def perform (disk : Disk) (write : Write) : Disk :=
  { disk with files := write.apply disk.files, trace := disk.trace ++ [write] }

/-- The absolute path, as error messages show it. -/
def absolute (disk : Disk) (path : Path) : Bytes :=
  disk.root ++ [47] ++ path

/-- `std::filesystem::exists`. -/
def contains (disk : Disk) (path : Path) : Bool :=
  disk.files.contains path

/-- The bytes of a file, none when it does not exist. -/
def read (disk : Disk) (path : Path) : Bytes :=
  disk.files.getD path []

end Disk

end SkibidiQL
