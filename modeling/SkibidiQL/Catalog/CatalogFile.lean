import SkibidiQL.Catalog.JsonReader
import SkibidiQL.Catalog.Metadata

/-!
# The catalog file

`Catalog::save` writes the catalog as JSON, and `Catalog::load` reads it back. The entries are written in
the order of their names, and a field that the reader does not know is skipped.
-/

namespace SkibidiQL

open Bytes

/-! ### Writing -/

/-- The escape of one byte in `escapeJson`. -/
def escapeByte (ch : UInt8) : Bytes :=
  if ch = 34 then [92, 34]
  else if ch = 92 then [92, 92]
  else if ch = 8 then [92, 98]
  else if ch = 12 then [92, 102]
  else if ch = 10 then [92, 110]
  else if ch = 13 then [92, 114]
  else if ch = 9 then [92, 116]
  else if ch < 32 then
    lit "\\u00" ++ [(lit "0123456789abcdef").getD (ch.toNat / 16) 0,
      (lit "0123456789abcdef").getD (ch.toNat % 16) 0]
  else [ch]

/-- `escapeJson`. -/
def escapeJson (value : Bytes) : Bytes :=
  value.flatMap escapeByte

namespace CatalogFile

/-- A string in quotes. -/
def quoted (value : Bytes) : Bytes :=
  lit "\"" ++ escapeJson value ++ lit "\""

/-- `writeJsonStringArray`. -/
def writeJsonStringArray (values : List Bytes) : Bytes :=
  lit "[" ++ joinStrings (lit ", ") (values.map quoted) ++ lit "]"

/-- `true` or `false`. -/
def writeBool (value : Bool) : Bytes :=
  lit (if value then "true" else "false")

/-- A field of an object. -/
def field (key : String) (value : Bytes) : Bytes :=
  quoted (lit key) ++ lit ": " ++ value

/-- The fields of an object with this text between them. -/
def object (separator : String) (fields : List (String × Bytes)) : Bytes :=
  lit "\x7b" ++ joinStrings (lit separator) (fields.map fun item ↦ field item.1 item.2) ++ lit "\x7d"

/-- Items on lines of their own, with the indentation of the line behind them. -/
def lines (indent : String) (items : List Bytes) : Bytes :=
  if items.isEmpty then []
  else lit "\n" ++ joinStrings (lit ",\n") items ++ lit "\n" ++ lit indent

/-- An array of objects, one a line. -/
def array (items : List Bytes) : Bytes :=
  lit "[" ++ lines "      " (items.map (lit "        " ++ ·)) ++ lit "]"

/-- An object over several lines: its fields are indented. -/
def block (fields : List (String × Bytes)) : Bytes :=
  lit "\x7b\n      " ++ joinStrings (lit ",\n      ") (fields.map fun item ↦ field item.1 item.2) ++
    lit "\n    \x7d"

/-- The entries of a map, with their names. -/
def entries {β : Type} (write : β → Bytes) (map : NameMap β) : Bytes :=
  lit "\x7b" ++ lines "  " (map.toList.map fun item ↦
    lit "    " ++ quoted item.1 ++ lit ": " ++ write item.2) ++ lit "\x7d"

/-- A column in `Catalog::save`. -/
def writeColumn (column : ColumnMeta) : Bytes :=
  object ", " [("name", quoted column.name), ("type", quoted column.type),
    ("primary_key", writeBool column.primaryKey), ("not_null", writeBool column.notNull),
    ("fk_table", quoted column.fkTable), ("fk_col", quoted column.fkCol)]

/-- A table in `Catalog::save`. -/
def writeTable (table : TableMeta) : Bytes :=
  block [("columns", array (table.columns.map writeColumn))]

/-- A feature in `Catalog::save`. -/
def writeFeature (feature : SnapshotFeatureMeta) : Bytes :=
  object ", " [("name", quoted feature.name), ("spec", quoted feature.spec)]

/-- A row of a snapshot in `Catalog::save`. -/
def writeRow (row : SnapshotRowMeta) : Bytes :=
  object ", " [("rowid", quoted row.rowid), ("split", quoted row.split)]

/-- A snapshot in `Catalog::save`. -/
def writeSnapshot (snapshot : DatasetSnapshotMeta) : Bytes :=
  block [("query_text", quoted snapshot.queryText), ("source_table", quoted snapshot.sourceTable),
    ("schema_fingerprint", quoted snapshot.schemaFingerprint),
    ("table_version", quoted snapshot.tableVersion), ("split_by", quoted snapshot.splitBy),
    ("seed", ofNat snapshot.seed.toNat), ("features", array (snapshot.features.map writeFeature)),
    ("label", writeFeature snapshot.label), ("rows", array (snapshot.rows.map writeRow)),
    ("warnings", writeJsonStringArray snapshot.warnings)]

/-- A message in `Catalog::save`. -/
def writeMessage (message : ContextMessageMeta) : Bytes :=
  object ", " [("id", ofNat message.id.toNat), ("speaker", quoted message.speaker),
    ("text", quoted message.text), ("tab", quoted message.tab),
    ("schema_name", quoted message.schemaName), ("schema_version", quoted message.schemaVersion),
    ("storage_route", quoted message.storageRoute),
    ("access_labels", writeJsonStringArray message.accessLabels),
    ("mentioned_entities", writeJsonStringArray message.mentionedEntities),
    ("tags", writeJsonStringArray message.tags),
    ("tag_reasons", writeJsonStringArray message.tagReasons)]

/-- An atom in `Catalog::save`. -/
def writeAtom (atom : ContextAtomMeta) : Bytes :=
  object ", " [("key", quoted atom.key), ("value", quoted atom.value), ("type", quoted atom.type),
    ("status", quoted atom.status), ("source", quoted atom.source),
    ("invalidated_by", quoted atom.invalidatedBy), ("tab", quoted atom.tab),
    ("schema_name", quoted atom.schemaName), ("schema_version", quoted atom.schemaVersion),
    ("access_labels", writeJsonStringArray atom.accessLabels),
    ("tags", writeJsonStringArray atom.tags), ("extractor_rule", quoted atom.extractorRule),
    ("extractor_confidence", quoted atom.extractorConfidence),
    ("source_start", ofNat atom.sourceStart.toNat), ("source_end", ofNat atom.sourceEnd.toNat),
    ("original_snippet", quoted atom.originalSnippet)]

/-- A tab alias in `Catalog::save`. -/
def writeTabAlias (entry : ContextTabAliasMeta) : Bytes :=
  object ", " [("alias", quoted entry.aliasTab), ("target", quoted entry.target)]

/-- A context in `Catalog::save`. -/
def writeContext (context : ConversationContextMeta) : Bytes :=
  block [("messages", array (context.messages.map writeMessage)),
    ("atoms", array (context.atoms.map writeAtom)),
    ("tab_aliases", array (context.tabAliases.map writeTabAlias))]

/-! ### Reading -/

open Json

/-- The value of a field that is read into the record. -/
def into {α σ : Type} (read : JsonM α) (store : α → σ) : JsonM σ := do
  pure (store (← read))

/-- The value of a field that the reader does not know. -/
def skip {σ : Type} (record : σ) : JsonM σ := do
  skipValue
  pure record

/-- A field of a column. -/
def columnField (key : Bytes) (column : ColumnMeta) : JsonM ColumnMeta :=
  if key = lit "name" then into parseString ({ column with name := · })
  else if key = lit "type" then into parseString ({ column with type := · })
  else if key = lit "primary_key" then into parseBool ({ column with primaryKey := · })
  else if key = lit "not_null" then into parseBool ({ column with notNull := · })
  else if key = lit "fk_table" then into parseString ({ column with fkTable := · })
  else if key = lit "fk_col" then into parseString ({ column with fkCol := · })
  else skip column

/-- `JsonReader::parseColumn`. -/
def parseColumn : JsonM ColumnMeta := do
  let column? ← parseObject? columnField {}
  match column? with
  | none => pure {}
  | some column => pure (if column.type.isEmpty then { column with type := lit "TEXT" } else column)

/-- A field of a table. -/
def tableField (key : Bytes) (table : TableMeta) : JsonM TableMeta :=
  if key = lit "columns" then into (parseArray parseColumn) ({ table with columns := · })
  else skip table

/-- `JsonReader::parseTable`. -/
def parseTable (name : Bytes) : JsonM TableMeta :=
  parseObject tableField { name }

/-- A field of a feature. -/
def featureField (key : Bytes) (feature : SnapshotFeatureMeta) : JsonM SnapshotFeatureMeta :=
  if key = lit "name" then into parseString ({ feature with name := · })
  else if key = lit "spec" then into parseString ({ feature with spec := · })
  else skip feature

/-- `JsonReader::parseFeature`. -/
def parseFeature : JsonM SnapshotFeatureMeta :=
  parseObject featureField {}

/-- A field of a row of a snapshot. -/
def rowField (key : Bytes) (row : SnapshotRowMeta) : JsonM SnapshotRowMeta :=
  if key = lit "rowid" then into parseString ({ row with rowid := · })
  else if key = lit "split" then into parseString ({ row with split := · })
  else skip row

/-- A row in `JsonReader::parseRows`. -/
def parseRow : JsonM SnapshotRowMeta :=
  parseObject rowField {}

/-- A field of a snapshot. -/
def snapshotField (key : Bytes) (snapshot : DatasetSnapshotMeta) : JsonM DatasetSnapshotMeta :=
  if key = lit "query_text" then into parseString ({ snapshot with queryText := · })
  else if key = lit "source_table" then into parseString ({ snapshot with sourceTable := · })
  else if key = lit "schema_fingerprint" then
    into parseString ({ snapshot with schemaFingerprint := · })
  else if key = lit "table_version" then into parseString ({ snapshot with tableVersion := · })
  else if key = lit "split_by" then into parseString ({ snapshot with splitBy := · })
  else if key = lit "seed" then into parseUnsigned ({ snapshot with seed := · })
  else if key = lit "features" then into (parseArray parseFeature) ({ snapshot with features := · })
  else if key = lit "label" then into parseFeature ({ snapshot with label := · })
  else if key = lit "rows" then into (parseArray parseRow) ({ snapshot with rows := · })
  else if key = lit "warnings" then into parseStringArray ({ snapshot with warnings := · })
  else skip snapshot

/-- `JsonReader::parseSnapshot`. -/
def parseSnapshot (name : Bytes) : JsonM DatasetSnapshotMeta :=
  parseObject snapshotField { name }

/-- The value, or another one when it is empty. -/
def orElse (value other : Bytes) : Bytes :=
  if value.isEmpty then other else value

/-- The defaults that `JsonReader::parseMessages` puts for empty fields. -/
def fillMessage (message : ContextMessageMeta) : ContextMessageMeta :=
  { message with
    tab := orElse message.tab (lit "main")
    schemaName := orElse message.schemaName (lit "ConversationMessage")
    schemaVersion := orElse message.schemaVersion (lit "v1")
    storageRoute := orElse message.storageRoute
      (lit "structured=catalog.contexts.messages; vector=ConversationMessage.content; blob=none") }

/-- A field of a message. -/
def messageField (key : Bytes) (message : ContextMessageMeta) : JsonM ContextMessageMeta :=
  if key = lit "id" then into parseUnsigned ({ message with id := · })
  else if key = lit "speaker" then into parseString ({ message with speaker := · })
  else if key = lit "text" then into parseString ({ message with text := · })
  else if key = lit "tab" then into parseString ({ message with tab := · })
  else if key = lit "schema_name" then into parseString ({ message with schemaName := · })
  else if key = lit "schema_version" then into parseString ({ message with schemaVersion := · })
  else if key = lit "storage_route" then into parseString ({ message with storageRoute := · })
  else if key = lit "access_labels" then into parseStringArray ({ message with accessLabels := · })
  else if key = lit "mentioned_entities" then
    into parseStringArray ({ message with mentionedEntities := · })
  else if key = lit "tags" then into parseStringArray ({ message with tags := · })
  else if key = lit "tag_reasons" then into parseStringArray ({ message with tagReasons := · })
  else skip message

/-- A message in `JsonReader::parseMessages`. -/
def parseMessage : JsonM ContextMessageMeta :=
  into (parseObject messageField {}) fillMessage

/-- The defaults that `JsonReader::parseAtoms` puts for empty fields. -/
def fillAtom (atom : ContextAtomMeta) : ContextAtomMeta :=
  { atom with
    tab := orElse atom.tab (lit "main")
    schemaName := orElse atom.schemaName (lit "ContextAtom")
    schemaVersion := orElse atom.schemaVersion (lit "v1")
    extractorConfidence := orElse atom.extractorConfidence (lit "1.00") }

/-- A field of an atom. -/
def atomField (key : Bytes) (atom : ContextAtomMeta) : JsonM ContextAtomMeta :=
  if key = lit "key" then into parseString ({ atom with key := · })
  else if key = lit "value" then into parseString ({ atom with value := · })
  else if key = lit "type" then into parseString ({ atom with type := · })
  else if key = lit "status" then into parseString ({ atom with status := · })
  else if key = lit "source" then into parseString ({ atom with source := · })
  else if key = lit "invalidated_by" then into parseString ({ atom with invalidatedBy := · })
  else if key = lit "tab" then into parseString ({ atom with tab := · })
  else if key = lit "schema_name" then into parseString ({ atom with schemaName := · })
  else if key = lit "schema_version" then into parseString ({ atom with schemaVersion := · })
  else if key = lit "access_labels" then into parseStringArray ({ atom with accessLabels := · })
  else if key = lit "tags" then into parseStringArray ({ atom with tags := · })
  else if key = lit "extractor_rule" then into parseString ({ atom with extractorRule := · })
  else if key = lit "extractor_confidence" then
    into parseString ({ atom with extractorConfidence := · })
  else if key = lit "source_start" then into parseUnsigned ({ atom with sourceStart := · })
  else if key = lit "source_end" then into parseUnsigned ({ atom with sourceEnd := · })
  else if key = lit "original_snippet" then into parseString ({ atom with originalSnippet := · })
  else skip atom

/-- An atom in `JsonReader::parseAtoms`. -/
def parseAtom : JsonM ContextAtomMeta :=
  into (parseObject atomField {}) fillAtom

/-- A field of a tab alias. -/
def tabAliasField (key : Bytes) (entry : ContextTabAliasMeta) : JsonM ContextTabAliasMeta :=
  if key = lit "alias" then into parseString ({ entry with aliasTab := · })
  else if key = lit "target" then into parseString ({ entry with target := · })
  else skip entry

/-- An entry in `JsonReader::parseTabAliases`. -/
def parseTabAlias : JsonM ContextTabAliasMeta :=
  parseObject tabAliasField ⟨[], []⟩

/-- `JsonReader::parseTabAliases`: entries with an empty field are dropped. -/
def parseTabAliases : JsonM (List ContextTabAliasMeta) :=
  into (parseArray parseTabAlias)
    (List.filter fun entry ↦ !entry.aliasTab.isEmpty && !entry.target.isEmpty)

/-- A field of a context. -/
def contextField (key : Bytes) (context : ConversationContextMeta) : JsonM ConversationContextMeta :=
  if key = lit "messages" then into (parseArray parseMessage) ({ context with messages := · })
  else if key = lit "atoms" then into (parseArray parseAtom) ({ context with atoms := · })
  else if key = lit "tab_aliases" then into parseTabAliases ({ context with tabAliases := · })
  else skip context

/-- `JsonReader::parseContext`. -/
def parseContext (name : Bytes) : JsonM ConversationContextMeta :=
  parseObject contextField { name }

/-- `JsonReader::parseTables`, `parseSnapshots` and `parseContexts`: the entries of a map by name. -/
def parseEntries {β : Type} (parse : Bytes → JsonM β) : JsonM (NameMap β) :=
  parseObject (fun name map ↦ into (parse name) (map.insert name ·)) ∅

/-- `struct CatalogData`. -/
structure CatalogData where
  tables : NameMap TableMeta := ∅
  snapshots : NameMap DatasetSnapshotMeta := ∅
  contexts : NameMap ConversationContextMeta := ∅

/-- The fields of the catalog object. -/
def parseCatalogField (key : Bytes) (data : CatalogData) : JsonM CatalogData :=
  if key = lit "tables" then into (parseEntries parseTable) ({ data with tables := · })
  else if key = lit "snapshots" then
    into (parseEntries parseSnapshot) ({ data with snapshots := · })
  else if key = lit "contexts" then into (parseEntries parseContext) ({ data with contexts := · })
  else skip data

/-- `JsonReader::parseCatalog`; what follows an empty object is not looked at. -/
def parseCatalog : JsonM CatalogData := do
  match ← parseObject? parseCatalogField {} with
  | none => pure {}
  | some data =>
    finish
    pure data

end CatalogFile

namespace Catalog

open CatalogFile

/-- `Catalog::save`: the text of the file. -/
def save (catalog : Catalog) : Bytes :=
  lit "\x7b\n  " ++ joinStrings (lit ",\n  ")
      [field "tables" (entries writeTable catalog.tables),
        field "snapshots" (entries writeSnapshot catalog.snapshots),
        field "contexts" (entries writeContext catalog.contexts)] ++
    lit "\n\x7d\n"

/-- `Catalog::load`, from the text of the file, if there is one. A text that cannot be read is ignored. -/
def load (catalog : Catalog) : Option Bytes → Catalog
  | none => catalog
  | some text =>
    match parseCatalog text with
    | .error _ _ => catalog
    | .ok data _ =>
      { tables := catalog.tables.insertMany data.tables.toList
        snapshots := catalog.snapshots.insertMany data.snapshots.toList
        contexts := catalog.contexts.insertMany data.contexts.toList
        revision := catalog.revision + 1 }

end Catalog

end SkibidiQL
