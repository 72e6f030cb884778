import SkibidiQL.Prompt.Text
import SkibidiQL.Storage.Value

/-!
# Context metadata

The records of the catalog that describe conversation contexts, the context statements of the
abstract syntax, and the rows that a statement returns.
-/

namespace SkibidiQL

/-- `struct ContextMessageMeta`. -/
structure ContextMessageMeta where
  id : UInt64 := 0
  speaker : Bytes := []
  text : Bytes := []
  tab : Bytes := []
  schemaName : Bytes := lit "ConversationMessage"
  schemaVersion : Bytes := lit "v1"
  storageRoute : Bytes :=
    lit "structured=catalog.contexts.messages; vector=ConversationMessage.content; blob=none"
  accessLabels : List Bytes := []
  mentionedEntities : List Bytes := []
  tags : List Bytes := []
  tagReasons : List Bytes := []
deriving DecidableEq

/-- `struct ContextAtomMeta`. -/
structure ContextAtomMeta where
  key : Bytes := []
  value : Bytes := []
  type : Bytes := []
  status : Bytes := []
  source : Bytes := []
  invalidatedBy : Bytes := []
  tab : Bytes := []
  schemaName : Bytes := lit "ContextAtom"
  schemaVersion : Bytes := lit "v1"
  accessLabels : List Bytes := []
  tags : List Bytes := []
  extractorRule : Bytes := []
  extractorConfidence : Bytes := lit "1.00"
  sourceStart : UInt64 := 0
  sourceEnd : UInt64 := 0
  originalSnippet : Bytes := []
deriving DecidableEq

/-- `struct ContextTabAliasMeta`. -/
structure ContextTabAliasMeta where
  aliasTab : Bytes
  target : Bytes
deriving DecidableEq

/-- `struct ConversationContextMeta`. -/
structure ConversationContextMeta where
  name : Bytes := []
  messages : List ContextMessageMeta := []
  atoms : List ContextAtomMeta := []
  tabAliases : List ContextTabAliasMeta := []
deriving DecidableEq

/-- `struct AppendMemoryStmt`. -/
structure AppendMemoryStmt where
  context : Bytes
  messageId : UInt64 := 0
  speaker : Bytes := []
  text : Bytes := []
  tab : Bytes := []
  autoTab : Bool := false
deriving DecidableEq

/-- `struct TagMemoryStmt`. -/
structure TagMemoryStmt where
  context : Bytes
  messageId : UInt64 := 0
  tab : Bytes := []
deriving DecidableEq

/-- `struct AliasTabStmt`. -/
structure AliasTabStmt where
  context : Bytes
  aliasTab : Bytes
  target : Bytes
deriving DecidableEq

/-- `struct MergeTabsStmt`. -/
structure MergeTabsStmt where
  context : Bytes
  fromTab : Bytes
  toTab : Bytes
deriving DecidableEq

/-- `struct SpillContextStmt` and `struct ExplainContextStmt`, which have the same fields. -/
structure ContextQueryStmt where
  context : Bytes
  query : Bytes := []
  tab : Bytes := []
  tokenBudget : Nat := 1200
  receipts : Bool := true
deriving DecidableEq

/-- `struct NativeQueryResult`. -/
structure NativeQueryResult where
  columns : List Bytes := []
  rows : List Tuple := []
  rowsAffected : Nat := 0
  message : Bytes := []
deriving DecidableEq

/-- One row of a result with the columns `field` and `value`. -/
def keyValue (field value : Bytes) : Tuple :=
  [.text field, .text value]

end SkibidiQL
