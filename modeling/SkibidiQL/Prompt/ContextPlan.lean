import SkibidiQL.Base.KeyedVector
import SkibidiQL.Catalog.Metadata
import SkibidiQL.Prompt.Views

/-!
# Plan and spill

`executeExplainContext` and `executeSpillContext` each have their own loops over the messages and atoms of
a context: their own vector of candidates with a table of diversity keys, their own sort, and their own
budget. These are the loops as they stand, from the lookup of the context to the result. An access behind
the end of the vector, or a running sum below zero, is the result `none`.

Each view is a function of the context (`executeExplainContext_eq`, `executeSpillContext_eq`), and the
agreement of the two is read off from there.
-/

namespace SkibidiQL

open Bytes KeyedVector

/-! ### `executeExplainContext` -/

/-- `struct PlanAtom`. -/
structure PlanAtom where
  atom : ContextAtomMeta
  utility : Nat
  ordinal : Nat
  tokenCost : Nat
  redacted : Bool

/-- The local variables of `executeExplainContext` that its loops over messages and atoms change. -/
structure PlanScan where
  scannedMessages : Nat := 0
  scannedAtoms : Nat := 0
  prunedTabMessages : Nat := 0
  prunedTabAtoms : Nat := 0
  prunedInvalidatedAtoms : Nat := 0
  allActiveTokenCost : Nat := 0
  accessLabels : List Bytes := []
  mentionedEntities : List Bytes := []
  active : List PlanAtom := []
  activeByDiversityKey : NameMap Nat := ∅

namespace PlanScan

variable (context : ConversationContextMeta) (tabFilter : Bytes)

/-- The loop of `executeExplainContext` over the messages, on one message. -/
def visitMessage (scan : PlanScan) (message : ContextMessageMeta) : PlanScan :=
  if !contextMatchesTab context message.tab message.tags tabFilter then
    { scan with prunedTabMessages := scan.prunedTabMessages + 1 }
  else
    { scan with
      scannedMessages := scan.scannedMessages + 1
      accessLabels := message.accessLabels.foldl addUnique scan.accessLabels
      mentionedEntities := message.mentionedEntities.foldl addUnique scan.mentionedEntities }

/-- A candidate of `executeExplainContext` is stored under its diversity key. -/
def store (scan : PlanScan) (candidate : PlanAtom) : Option PlanScan :=
  let diversityKey := contextAtomDiversityKey candidate.atom
  match scan.activeByDiversityKey[diversityKey]? with
  | none =>
    some { scan with
      activeByDiversityKey := scan.activeByDiversityKey.insert diversityKey scan.active.length
      active := scan.active ++ [candidate]
      allActiveTokenCost := scan.allActiveTokenCost + candidate.tokenCost }
  | some existing => do
    let current ← scan.active[existing]?
    if candidate.utility > current.utility ||
        (candidate.utility == current.utility && candidate.ordinal > current.ordinal) then
      if current.tokenCost > scan.allActiveTokenCost then none
      else
        some { scan with
          active := scan.active.set existing candidate
          allActiveTokenCost := scan.allActiveTokenCost - current.tokenCost + candidate.tokenCost }
    else some scan

/-- The loop of `executeExplainContext` over the atoms, on the atom at a position. -/
def visitAtom (lowerQuery : Bytes) (receipts : Bool) (scan : PlanScan)
    (entry : ContextAtomMeta × Nat) : Option PlanScan :=
  let (atom, index) := entry
  if !contextMatchesTab context atom.tab atom.tags tabFilter then
    some { scan with prunedTabAtoms := scan.prunedTabAtoms + 1 }
  else
    let scan := { scan with
      scannedAtoms := scan.scannedAtoms + 1
      accessLabels := atom.accessLabels.foldl addUnique scan.accessLabels }
    if atom.status ≠ lit "active" then
      some { scan with prunedInvalidatedAtoms := scan.prunedInvalidatedAtoms + 1 }
    else
      scan.store
        { atom := atom
          utility := contextAtomUtilityLower atom lowerQuery
          ordinal := index
          tokenCost := estimateContextTokens (renderContextAtom atom receipts)
          redacted := shouldRedact atom.accessLabels }

end PlanScan

/-- The counters of the last loop of `executeExplainContext`. -/
structure PlanRender where
  renderedAtoms : Nat := 0
  tokenCost : Nat := 0
  redactedAtoms : Nat := 0

/-- The last loop of `executeExplainContext`, on one candidate. -/
def PlanRender.visit (tokenBudget : Nat) (render : PlanRender) (atom : PlanAtom) : PlanRender :=
  if render.renderedAtoms > 0 && render.tokenCost + atom.tokenCost > tokenBudget then render
  else if render.renderedAtoms == 0 && atom.tokenCost > tokenBudget then render
  else
    { renderedAtoms := render.renderedAtoms + 1
      tokenCost := render.tokenCost + atom.tokenCost
      redactedAtoms :=
        if atom.redacted then render.redactedAtoms + 1 else render.redactedAtoms }

/-- The result of `executeExplainContext` after its loops. -/
def PlanScan.result (context : ConversationContextMeta) (statement : ContextQueryStmt) (tabFilter : Bytes)
    (scan : PlanScan) (active : List PlanAtom) (render : PlanRender) : NativeQueryResult :=
  let savedTokens :=
    if scan.allActiveTokenCost > render.tokenCost then scan.allActiveTokenCost - render.tokenCost
    else 0
  let budgetPrunedAtoms :=
    if active.length > render.renderedAtoms then active.length - render.renderedAtoms else 0
  { columns := [lit "field", lit "value"]
    rows :=
      [keyValue (lit "context") context.name,
        keyValue (lit "thesis") (lit "SkibidiQL maintains the prompt as a relational view"),
        keyValue (lit "materialized_view") (lit "CURRENT_CONTEXT(context,tab,query,token_budget)"),
        keyValue (lit "query") statement.query,
        keyValue (lit "tab") (if tabFilter.isEmpty then lit "all" else tabFilter),
        keyValue (lit "token_budget") (ofNat statement.tokenBudget),
        keyValue (lit "plan") (lit
          "Scan messages -> Scan atoms -> Prune tab/status/ACL -> Rank utility+recency -> Budget render -> Emit receipts"),
        keyValue (lit "scan_messages")
          (ofNat scan.scannedMessages ++ lit "/" ++ ofNat context.messages.length),
        keyValue (lit "scan_atoms")
          (ofNat scan.scannedAtoms ++ lit "/" ++ ofNat context.atoms.length),
        keyValue (lit "pruned_tab_messages") (ofNat scan.prunedTabMessages),
        keyValue (lit "pruned_tab_atoms") (ofNat scan.prunedTabAtoms),
        keyValue (lit "pruned_invalidated_atoms") (ofNat scan.prunedInvalidatedAtoms),
        keyValue (lit "rank_candidates") (ofNat active.length),
        keyValue (lit "rendered_if_spilled") (ofNat render.renderedAtoms),
        keyValue (lit "budget_pruned_atoms") (ofNat budgetPrunedAtoms),
        keyValue (lit "estimated_token_cost") (ofNat render.tokenCost),
        keyValue (lit "estimated_full_token_cost") (ofNat scan.allActiveTokenCost),
        keyValue (lit "optimizer_saved_tokens") (ofNat savedTokens),
        keyValue (lit "redacted_atoms") (ofNat render.redactedAtoms),
        keyValue (lit "ranker") (lit "query utility + atom type weights + recency tie-break"),
        keyValue (lit "context_indexes") (lit
          "tab,tags,status,key,type,source,access_labels,mentioned_entities"),
        keyValue (lit "provenance_model") (lit
          "git-blame-for-prompts: source message, schema, labels, invalidated_by"),
        keyValue (lit "cache_policy") (lit
          "revision-aware prompt view IR cache; invalidated on context/catalog mutation"),
        keyValue (lit "schema_registry") (lit "CSR: ConversationMessage.v1 + ContextAtom.v1"),
        keyValue (lit "dcf_storage_route") (lit
          "structured=catalog.contexts.messages+atoms; vector=ConversationMessage.content; blob=tool/object refs"),
        keyValue (lit "access_policy") (accessPolicy scan.accessLabels),
        keyValue (lit "mentioned_entities") (joinStrings (lit ",") scan.mentionedEntities)] ++
      if statement.receipts then
        (active.take 5).map fun ranked ↦ keyValue (lit "ranked_atom")
          (ranked.atom.key ++ lit "=" ++
            redactIfNeeded ranked.atom.value ranked.atom.accessLabels ++
            lit " utility=" ++ ofNat ranked.utility ++ lit " source=" ++ ranked.atom.source)
      else []
    message := lit "explained context view plan for " ++ context.name }

/-- `executeExplainContext`, on the context it names. -/
def executeExplainContext (context : ConversationContextMeta) (statement : ContextQueryStmt) :
    Option NativeQueryResult := do
  let tabFilter := if statement.tab.isEmpty then [] else resolveContextTab context statement.tab
  let lowerQuery := lowerText statement.query
  let messagesScan := context.messages.foldl (PlanScan.visitMessage context tabFilter) {}
  let scan ← context.atoms.zipIdx.foldlM
    (PlanScan.visitAtom context tabFilter lowerQuery statement.receipts) messagesScan
  let active := scan.active.insertionSort fun left right ↦
    left.utility > right.utility ||
      (left.utility == right.utility && left.ordinal ≥ right.ordinal)
  let render := active.foldl (PlanRender.visit statement.tokenBudget) {}
  pure (scan.result context statement tabFilter active render)

/-! ### `executeSpillContext` -/

/-- The local variables of `executeSpillContext` that its loops over messages and atoms change. -/
structure SpillScan where
  accessLabels : List Bytes := []
  mentionedEntities : List Bytes := []
  active : List RankedAtom := []
  invalidated : List ContextAtomMeta := []
  activeByDiversityKey : NameMap Nat := ∅

namespace SpillScan

variable (context : ConversationContextMeta) (tabFilter : Bytes)

/-- The loop of `executeSpillContext` over the messages, on one message. -/
def visitMessage (scan : SpillScan) (message : ContextMessageMeta) : SpillScan :=
  if !contextMatchesTab context message.tab message.tags tabFilter then scan
  else
    { scan with
      accessLabels := message.accessLabels.foldl addUnique scan.accessLabels
      mentionedEntities := message.mentionedEntities.foldl addUnique scan.mentionedEntities }

/-- A candidate of `executeSpillContext` is stored under its diversity key. -/
def store (scan : SpillScan) (candidate : RankedAtom) : Option SpillScan :=
  let diversityKey := contextAtomDiversityKey candidate.atom
  match scan.activeByDiversityKey[diversityKey]? with
  | none =>
    some { scan with
      activeByDiversityKey := scan.activeByDiversityKey.insert diversityKey scan.active.length
      active := scan.active ++ [candidate] }
  | some existing => do
    let current ← scan.active[existing]?
    if candidate.utility > current.utility ||
        (candidate.utility == current.utility && candidate.ordinal > current.ordinal) then
      some { scan with active := scan.active.set existing candidate }
    else some scan

/-- The loop of `executeSpillContext` over the atoms, on the atom at a position. -/
def visitAtom (lowerQuery : Bytes) (scan : SpillScan) (entry : ContextAtomMeta × Nat) :
    Option SpillScan :=
  let (atom, index) := entry
  if !contextMatchesTab context atom.tab atom.tags tabFilter then some scan
  else
    let scan := { scan with accessLabels := atom.accessLabels.foldl addUnique scan.accessLabels }
    if atom.status = lit "active" then
      scan.store
        { atom := atom, utility := contextAtomUtilityLower atom lowerQuery, ordinal := index }
    else if atom.status = lit "invalidated" then
      some { scan with invalidated := scan.invalidated ++ [atom] }
    else some scan

end SpillScan

/-- The local variables of the last loop of `executeSpillContext`. -/
structure SpillRender where
  renderedAtoms : List Bytes := []
  tokenCost : Nat := 0
  redactedAtoms : Nat := 0

/-- The last loop of `executeSpillContext`, on one candidate. -/
def SpillRender.visit (receipts : Bool) (tokenBudget : Nat) (render : SpillRender)
    (ranked : RankedAtom) : SpillRender :=
  let rendered := renderContextAtom ranked.atom receipts
  let wasRedacted := shouldRedact ranked.atom.accessLabels
  let cost := estimateContextTokens rendered
  -- A candidate that is too dear is passed over, and later ones may still fit.
  if !render.renderedAtoms.isEmpty && render.tokenCost + cost > tokenBudget then render
  else if render.renderedAtoms.isEmpty && cost > tokenBudget then render
  else
    { renderedAtoms := render.renderedAtoms ++ [rendered]
      tokenCost := render.tokenCost + cost
      redactedAtoms := if wasRedacted then render.redactedAtoms + 1 else render.redactedAtoms }

/-- The result of `executeSpillContext` after its loops. -/
def SpillScan.result (context : ConversationContextMeta) (statement : ContextQueryStmt)
    (tabFilter : Bytes) (scan : SpillScan) (active : List RankedAtom) (render : SpillRender) :
    NativeQueryResult :=
  { columns := [lit "field", lit "value"]
    rows :=
      [keyValue (lit "context") context.name,
        keyValue (lit "query") statement.query,
        keyValue (lit "tab") (if tabFilter.isEmpty then lit "all" else tabFilter),
        keyValue (lit "token_budget") (ofNat statement.tokenBudget),
        keyValue (lit "token_cost") (ofNat render.tokenCost),
        keyValue (lit "messages") (ofNat context.messages.length),
        keyValue (lit "active_atoms") (ofNat active.length),
        keyValue (lit "rendered_atoms") (ofNat render.renderedAtoms.length),
        keyValue (lit "redacted_atoms") (ofNat render.redactedAtoms),
        keyValue (lit "schema_registry") (lit "CSR: ConversationMessage.v1 + ContextAtom.v1"),
        keyValue (lit "dcf_storage_route") (lit
          "structured=catalog.contexts.messages+atoms; vector=ConversationMessage.content; blob=tool/object refs"),
        keyValue (lit "access_policy") (accessPolicy scan.accessLabels),
        keyValue (lit "mentioned_entities") (joinStrings (lit ",") scan.mentionedEntities),
        keyValue (lit "indexed_fields") (lit
          "ContextAtom.key,type,status,tab,tags,source,access_labels; ConversationMessage.tab,tags,mentioned_entities,access_labels"),
        keyValue (lit "current_context") (joinStrings (lit " | ") render.renderedAtoms)] ++
      render.renderedAtoms.map (keyValue (lit "view_atom")) ++
      if statement.receipts then
        scan.invalidated.map fun atom ↦ keyValue (lit "invalidated")
          (atom.key ++ lit "=" ++ redactIfNeeded atom.value atom.accessLabels ++
            lit " @" ++ atom.source ++ lit " invalidated_by=" ++ atom.invalidatedBy)
      else []
    message := lit "spilled context view for " ++ context.name }

/-- `executeSpillContext`, on the context it names. -/
def executeSpillContext (context : ConversationContextMeta) (statement : ContextQueryStmt) :
    Option NativeQueryResult := do
  let tabFilter := if statement.tab.isEmpty then [] else resolveContextTab context statement.tab
  let lowerQuery := lowerText statement.query
  let messagesScan := context.messages.foldl (SpillScan.visitMessage context tabFilter) {}
  let scan ← context.atoms.zipIdx.foldlM (SpillScan.visitAtom context tabFilter lowerQuery) messagesScan
  let active := scan.active.insertionSort fun left right ↦
    left.utility > right.utility ||
      (left.utility == right.utility && left.ordinal ≥ right.ordinal)
  let render := active.foldl (SpillRender.visit statement.receipts statement.tokenBudget) {}
  pure (scan.result context statement tabFilter active render)

end SkibidiQL
