import SkibidiQL.Catalog.CatalogFile
import SkibidiQL.Prompt.Session

/-!
# The changes of the catalog

What the statements of the engine do to the catalog: `executeCreate` and `executeDrop` with their checks,
`executeCreateSnapshot`, the context statements, and the reload from a saved file. `Reachable` is any run
of them.
-/

namespace SkibidiQL

open Bytes

/-- `struct ColumnDef`. -/
structure ColumnDef where
  name : Bytes
  type : Bytes
  primaryKey : Bool := false
  notNull : Bool := false
  fkTable : Bytes := []
  fkCol : Bytes := []

/-- `struct CreateStmt`. -/
structure CreateStmt where
  table : Bytes
  columns : List ColumnDef
  ifNotExists : Bool := false

/-- `struct DropStmt`. -/
structure DropStmt where
  table : Bytes
  ifExists : Bool := false

/-- `upper`. -/
def upper (value : Bytes) : Bytes :=
  value.map toUpper

/-- The column types that `executeCreate` accepts. -/
def columnTypes : List Bytes :=
  ["INTEGER", "INT", "REAL", "FLOAT", "DOUBLE", "TEXT", "VARCHAR", "STRING", "BLOB"].map lit

namespace Catalog

/-- The checks of `executeCreate` on the target of a foreign key. -/
def checkForeignKey (catalog : Catalog) (fkTable fkCol : Bytes) : Except Error Unit :=
  match catalog.tables[fkTable]? with
  | none => throw (lit "Foreign key table does not exist: " ++ fkTable)
  | some foreign =>
    if foreign.columns.any fun target ↦ target.name == fkCol then pure ()
    else throw (lit "Foreign key column does not exist: " ++ fkCol)

/-- The column that `executeCreate` makes of a definition. -/
def columnOf (definition : ColumnDef) : ColumnMeta :=
  { name := definition.name
    type := upper definition.type
    primaryKey := definition.primaryKey
    notNull := definition.notNull || definition.primaryKey
    fkTable := definition.fkTable
    fkCol := definition.fkCol }

/-- The checks of `executeCreate` on the next column, behind these. -/
def checkColumn (catalog : Catalog) (columns : List ColumnMeta) (definition : ColumnDef) :
    Except Error Unit :=
  if columns.any fun column ↦ column.name == definition.name then
    throw (lit "Duplicate column: " ++ definition.name)
  else if upper definition.type ∉ columnTypes then
    throw (lit "Unsupported column type: " ++ definition.type)
  else if definition.primaryKey && columns.any (·.primaryKey) then
    throw (lit "Only one primary key column is supported")
  else if definition.fkTable.isEmpty then pure ()
  else catalog.checkForeignKey definition.fkTable definition.fkCol

/-- One round of the loop of `executeCreate`. -/
def createColumn (catalog : Catalog) (columns : List ColumnMeta) (definition : ColumnDef) :
    Except Error (List ColumnMeta) := do
  catalog.checkColumn columns definition
  pure (columns ++ [columnOf definition])

/-- What `executeCreate` does to the catalog. -/
def executeCreate (catalog : Catalog) (statement : CreateStmt) : Except Error Catalog :=
  if statement.table ∈ catalog.tables then
    if statement.ifNotExists then pure catalog
    else throw (lit "Table already exists: " ++ statement.table)
  else do
    let columns ← statement.columns.foldlM catalog.createColumn []
    pure (catalog.addTable { name := statement.table, columns })

/-- Another table has a foreign key into the table. -/
def isReferenced (catalog : Catalog) (table : Bytes) : Bool :=
  catalog.tables.toList.any fun item ↦
    item.2.name != table && item.2.columns.any fun column ↦ column.fkTable == table

/-- What `executeDrop` does to the catalog. -/
def executeDrop (catalog : Catalog) (statement : DropStmt) : Except Error Catalog :=
  if statement.table ∈ catalog.tables then
    if catalog.isReferenced statement.table then
      throw (lit "Cannot drop referenced table " ++ statement.table)
    else pure (catalog.removeTable statement.table)
  else if statement.ifExists then pure catalog
  else throw (lit "Unknown table: " ++ statement.table)

/-- One change of the catalog by the engine. -/
inductive Step (catalog : Catalog) : Catalog → Prop where
  /-- `executeCreate`. -/
  | create (statement : CreateStmt) {catalog' : Catalog} :
    catalog.executeCreate statement = .ok catalog' → Step catalog catalog'
  /-- The handler of `executeCreate`, when the catalog cannot be saved. -/
  | undoCreate (statement : CreateStmt) {catalog' : Catalog} :
    statement.table ∉ catalog.tables → catalog.executeCreate statement = .ok catalog' →
    Step catalog (catalog'.removeTable statement.table)
  /-- `executeDrop`. -/
  | drop (statement : DropStmt) {catalog' : Catalog} :
    catalog.executeDrop statement = .ok catalog' → Step catalog catalog'
  /-- The handler of `executeDrop`, before or after the table is removed. -/
  | undoDrop {name : Bytes} {backup : TableMeta} (removed : Bool) :
    catalog.tables[name]? = some backup →
    Step catalog ((if removed then catalog.removeTable name else catalog).addTable backup)
  /-- `executeCreateSnapshot`, whatever the snapshot it has computed. -/
  | snapshot (snapshot : DatasetSnapshotMeta) : Step catalog (catalog.addSnapshot snapshot)
  /-- A context statement, with any content of the result cache. -/
  | context (contextResultCache : NameMap NativeQueryResult) (statement : PromptStatement) :
    Step catalog (PromptState.step { catalog, contextResultCache } statement).catalog

/-- A catalog that the engine can get to: from a new database, by changes, and by loading a file that was
saved before, at the start or after a rollback. -/
inductive Reachable : Catalog → Prop where
  | new : Reachable {}
  | step {catalog catalog' : Catalog} : Reachable catalog → Step catalog catalog' → Reachable catalog'
  | reload {saved : Catalog} : Reachable saved → Reachable (load {} (some saved.save))

end Catalog

end SkibidiQL
