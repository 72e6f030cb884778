import SkibidiQL.Prompt.ContextMeta
import Std.Data.ExtTreeMap

/-!
# The catalog

`Catalog` holds the tables, the dataset snapshots and the conversation contexts by name, and a revision
that every change increments. The source keeps them in hash tables; a `NameMap` is the same finite map,
listed in the order of the names.
-/

namespace SkibidiQL

/-- A `std::unordered_map` whose keys are names. -/
abbrev NameMap (β : Type) := Std.ExtTreeMap Bytes β compare

/-- `struct ColumnMeta`. -/
structure ColumnMeta where
  name : Bytes := []
  type : Bytes := []
  primaryKey : Bool := false
  notNull : Bool := false
  fkTable : Bytes := []
  fkCol : Bytes := []
deriving DecidableEq

/-- `struct TableMeta`. -/
structure TableMeta where
  name : Bytes := []
  columns : List ColumnMeta := []
deriving DecidableEq

/-- `struct SnapshotFeatureMeta`. -/
structure SnapshotFeatureMeta where
  name : Bytes := []
  spec : Bytes := []
deriving DecidableEq

/-- `struct SnapshotRowMeta`. -/
structure SnapshotRowMeta where
  rowid : Bytes := []
  split : Bytes := []
deriving DecidableEq

/-- `struct DatasetSnapshotMeta`. -/
structure DatasetSnapshotMeta where
  name : Bytes := []
  queryText : Bytes := []
  sourceTable : Bytes := []
  schemaFingerprint : Bytes := []
  tableVersion : Bytes := []
  splitBy : Bytes := []
  seed : UInt64 := 0
  features : List SnapshotFeatureMeta := []
  label : SnapshotFeatureMeta := {}
  rows : List SnapshotRowMeta := []
  warnings : List Bytes := []
deriving DecidableEq

/-- `class Catalog`. -/
structure Catalog where
  tables : NameMap TableMeta := ∅
  snapshots : NameMap DatasetSnapshotMeta := ∅
  contexts : NameMap ConversationContextMeta := ∅
  revision : UInt64 := 0
deriving DecidableEq

namespace Catalog

/-- `Catalog::addTable`. -/
def addTable (catalog : Catalog) (table : TableMeta) : Catalog :=
  { catalog with
    tables := catalog.tables.insert table.name table
    revision := catalog.revision + 1 }

/-- `Catalog::removeTable`: the snapshots of the table go with it. -/
def removeTable (catalog : Catalog) (name : Bytes) : Catalog :=
  if name ∈ catalog.tables then
    { catalog with
      tables := catalog.tables.erase name
      snapshots := catalog.snapshots.filter fun _ snapshot ↦ snapshot.sourceTable != name
      revision := catalog.revision + 1 }
  else catalog

/-- `Catalog::addSnapshot`. -/
def addSnapshot (catalog : Catalog) (snapshot : DatasetSnapshotMeta) : Catalog :=
  { catalog with
    snapshots := catalog.snapshots.insert snapshot.name snapshot
    revision := catalog.revision + 1 }

/-- `Catalog::addContext`. -/
def addContext (catalog : Catalog) (context : ConversationContextMeta) : Catalog :=
  { catalog with
    contexts := catalog.contexts.insert context.name context
    revision := catalog.revision + 1 }

end Catalog

end SkibidiQL
