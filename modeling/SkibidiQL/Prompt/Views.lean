import SkibidiQL.Prompt.Statements

/-!
# Views of a context

`executeSpillContext`, `executeExplainContext` and `executeShowContextObjects` compute rows from a
context. The functions here compute the rows; the result cache is consulted around them.

The active atoms that pass the tab filter are ranked by utility and recency, one for each diversity
key (`rankedAtoms`), and rendered as long as the token budget allows (`budgeted`).
-/

namespace SkibidiQL

open Bytes

/-! ### Redaction -/

/-- `shouldRedact`. -/
def shouldRedact (labels : List Bytes) : Bool :=
  lit "CONFIDENTIAL_CUSTOMER_DATA" ∈ labels

/-- `redactIfNeeded`. -/
def redactIfNeeded (value : Bytes) (labels : List Bytes) : Bytes :=
  if shouldRedact labels then lit "[redacted:CONFIDENTIAL_CUSTOMER_DATA]" else value

/-! ### Ranking -/

/-- `contextAtomUtilityLower`. -/
def contextAtomUtilityLower (atom : ContextAtomMeta) (lowerQuery : Bytes) : Nat :=
  let value := lowerText atom.value
  let asks (needles : List String) : Bool := containsAny lowerQuery (needles.map lit)
  10 +
  (if contains lowerQuery value && !value.isEmpty then 40 else 0) +
  queryValueOverlapScore value lowerQuery +
  (if atom.key == lit "user_location" &&
      asks ["near me", "nearby", "restaurant", "weather", "location", "near "]
    then 100 else 0) +
  (if atom.type == lit "constraint" then 80 else 0) +
  (if atom.type == lit "preference" && asks ["recommend", "choose", "prefer"] then 60 else 0) +
  (if atom.type == lit "preference" && asks ["restaurant", "cafe", "food", "dinner", "lunch"] &&
      containsAny value (["restaurant", "cafe", "food", "quiet", "coffee"].map lit)
    then 90 else 0) +
  (if atom.type == lit "task" then 50 else 0) +
  (if atom.type == lit "decision" then 70 else 0) +
  (if atom.type == lit "question" && asks ["question", "open", "?"] then 70 else 0) +
  (if atom.type == lit "debug" && asks ["debug", "todo", "investigate"] then 70 else 0)

/-- `estimateContextTokens`. -/
def estimateContextTokens (text : Bytes) : Nat :=
  max 1 ((text.length + 3) / 4)

/-- `renderContextAtom`. -/
def renderContextAtom (atom : ContextAtomMeta) (receipts : Bool) : Bytes :=
  atom.type ++ lit " " ++ atom.key ++ lit "=" ++ redactIfNeeded atom.value atom.accessLabels ++
  if receipts then
    lit " @" ++ atom.source ++
    (if !atom.schemaName.isEmpty
      then lit " schema=" ++ atom.schemaName ++ lit "." ++ atom.schemaVersion else []) ++
    (if !atom.accessLabels.isEmpty
      then lit " labels=" ++ joinStrings (lit ",") atom.accessLabels else []) ++
    (if !atom.tags.isEmpty then lit " tags=" ++ joinStrings (lit ",") atom.tags else []) ++
    (if !atom.extractorRule.isEmpty then lit " rule=" ++ atom.extractorRule else []) ++
    (if !atom.extractorConfidence.isEmpty
      then lit " confidence=" ++ atom.extractorConfidence else []) ++
    (if atom.sourceEnd > atom.sourceStart
      then lit " span=" ++ ofNat atom.sourceStart.toNat ++ lit ":" ++ ofNat atom.sourceEnd.toNat else [])
  else []

/-- `contextAtomDiversityKey`. -/
def contextAtomDiversityKey (atom : ContextAtomMeta) : Bytes :=
  atom.type ++ [31] ++ atom.key ++ [31] ++ lowerText atom.value

/-- `struct RankedAtom` and `struct PlanAtom`; the token cost and the redaction flag of the latter are
functions of the atom. -/
structure RankedAtom where
  atom : ContextAtomMeta
  utility : Nat
  ordinal : Nat
deriving DecidableEq

/-- Whether a candidate takes the place of the atom kept for its diversity key. -/
def RankedAtom.beats (candidate current : RankedAtom) : Bool :=
  candidate.utility > current.utility ||
    (candidate.utility == current.utility && candidate.ordinal > current.ordinal)

/-- The table `activeByDiversityKey` maps a diversity key to the one candidate in `active` that has it:
the candidate is stored there, or competes with the one that is. -/
def addCandidate (candidate : RankedAtom) : List RankedAtom → List RankedAtom
  | [] => [candidate]
  | current :: active =>
    if contextAtomDiversityKey current.atom = contextAtomDiversityKey candidate.atom then
      (if candidate.beats current then candidate else current) :: active
    else current :: addCandidate candidate active

/-- The tab filter of a query. -/
def tabFilterOf (context : ConversationContextMeta) (tab : Bytes) : Bytes :=
  if tab.isEmpty then [] else resolveContextTab context tab

/-- The atoms that match the tab filter, with their positions. -/
def matchingAtoms (context : ConversationContextMeta) (tabFilter : Bytes) :
    List (ContextAtomMeta × Nat) :=
  context.atoms.zipIdx.filter fun entry ↦
    contextMatchesTab context entry.1.tab entry.1.tags tabFilter

/-- The messages that match the tab filter. -/
def matchingMessages (context : ConversationContextMeta) (tabFilter : Bytes) :
    List ContextMessageMeta :=
  context.messages.filter fun message ↦
    contextMatchesTab context message.tab message.tags tabFilter

/-- The vector `active` after the loop over the atoms, before it is sorted. -/
def activeCandidates (context : ConversationContextMeta) (tabFilter lowerQuery : Bytes) :
    List RankedAtom :=
  (matchingAtoms context tabFilter).foldl (fun active entry ↦
    if entry.1.status = lit "active" then
      addCandidate { atom := entry.1, ordinal := entry.2
                     utility := contextAtomUtilityLower entry.1 lowerQuery } active
    else active) []

/-- The vector `active` after `std::stable_sort`. -/
def rankedAtoms (context : ConversationContextMeta) (tabFilter lowerQuery : Bytes) :
    List RankedAtom :=
  (activeCandidates context tabFilter lowerQuery).insertionSort fun left right ↦
    left.utility > right.utility ||
      (left.utility == right.utility && left.ordinal ≥ right.ordinal)

/-- The atoms that the token budget admits, in rank order, and their total cost. -/
def budgeted (receipts : Bool) (tokenBudget : Nat) (active : List RankedAtom) :
    List ContextAtomMeta × Nat :=
  active.foldl (fun (rendered, tokenCost) ranked ↦
    let cost := estimateContextTokens (renderContextAtom ranked.atom receipts)
    if (!rendered.isEmpty && tokenCost + cost > tokenBudget) ||
        (rendered.isEmpty && cost > tokenBudget) then (rendered, tokenCost)
    else (rendered ++ [ranked.atom], tokenCost + cost)) ([], 0)

/-- The access labels of the messages and atoms a query looks at. -/
def visibleLabels (context : ConversationContextMeta) (tabFilter : Bytes) : List Bytes :=
  let messageLabels := (matchingMessages context tabFilter).foldl
    (fun labels message ↦ message.accessLabels.foldl addUnique labels) []
  (matchingAtoms context tabFilter).foldl
    (fun labels entry ↦ entry.1.accessLabels.foldl addUnique labels) messageLabels

/-- The mentioned entities of the messages a query looks at. -/
def visibleEntities (context : ConversationContextMeta) (tabFilter : Bytes) : List Bytes :=
  (matchingMessages context tabFilter).foldl
    (fun entities message ↦ message.mentionedEntities.foldl addUnique entities) []

/-- The value of the row `access_policy`. -/
def accessPolicy (accessLabels : List Bytes) : Bytes :=
  lit "schema=agent-internal; labels=" ++
    (if accessLabels.isEmpty then lit "AGENT_INTERNAL" else joinStrings (lit ",") accessLabels) ++
    lit "; redaction=on"

/-! ### The three views -/

/-- The rows of `executeSpillContext`. -/
def spillContext (context : ConversationContextMeta) (statement : ContextQueryStmt) :
    NativeQueryResult :=
  let tabFilter := tabFilterOf context statement.tab
  let active := rankedAtoms context tabFilter (lowerText statement.query)
  let (rendered, tokenCost) := budgeted statement.receipts statement.tokenBudget active
  let renderedAtoms := rendered.map fun atom ↦ renderContextAtom atom statement.receipts
  let redactedAtoms := rendered.countP fun atom ↦ shouldRedact atom.accessLabels
  let invalidated := ((matchingAtoms context tabFilter).map Prod.fst).filter fun atom ↦
    atom.status == lit "invalidated"
  { columns := [lit "field", lit "value"]
    rows :=
      [keyValue (lit "context") context.name,
        keyValue (lit "query") statement.query,
        keyValue (lit "tab") (if tabFilter.isEmpty then lit "all" else tabFilter),
        keyValue (lit "token_budget") (ofNat statement.tokenBudget),
        keyValue (lit "token_cost") (ofNat tokenCost),
        keyValue (lit "messages") (ofNat context.messages.length),
        keyValue (lit "active_atoms") (ofNat active.length),
        keyValue (lit "rendered_atoms") (ofNat renderedAtoms.length),
        keyValue (lit "redacted_atoms") (ofNat redactedAtoms),
        keyValue (lit "schema_registry") (lit "CSR: ConversationMessage.v1 + ContextAtom.v1"),
        keyValue (lit "dcf_storage_route") (lit
          "structured=catalog.contexts.messages+atoms; vector=ConversationMessage.content; blob=tool/object refs"),
        keyValue (lit "access_policy") (accessPolicy (visibleLabels context tabFilter)),
        keyValue (lit "mentioned_entities")
          (joinStrings (lit ",") (visibleEntities context tabFilter)),
        keyValue (lit "indexed_fields") (lit
          "ContextAtom.key,type,status,tab,tags,source,access_labels; ConversationMessage.tab,tags,mentioned_entities,access_labels"),
        keyValue (lit "current_context") (joinStrings (lit " | ") renderedAtoms)] ++
      renderedAtoms.map (keyValue (lit "view_atom")) ++
      if statement.receipts then
        invalidated.map fun atom ↦ keyValue (lit "invalidated")
          (atom.key ++ lit "=" ++ redactIfNeeded atom.value atom.accessLabels ++
            lit " @" ++ atom.source ++ lit " invalidated_by=" ++ atom.invalidatedBy)
      else []
    message := lit "spilled context view for " ++ context.name }

/-- The rows of `executeExplainContext`. -/
def explainContext (context : ConversationContextMeta) (statement : ContextQueryStmt) :
    NativeQueryResult :=
  let tabFilter := tabFilterOf context statement.tab
  let active := rankedAtoms context tabFilter (lowerText statement.query)
  let (rendered, tokenCost) := budgeted statement.receipts statement.tokenBudget active
  let allActiveTokenCost := (active.map fun ranked ↦
    estimateContextTokens (renderContextAtom ranked.atom statement.receipts)).sum
  let scannedMessages := (matchingMessages context tabFilter).length
  let scannedAtoms := (matchingAtoms context tabFilter).length
  let prunedInvalidatedAtoms := (matchingAtoms context tabFilter).countP fun entry ↦
    entry.1.status != lit "active"
  let redactedAtoms := rendered.countP fun atom ↦ shouldRedact atom.accessLabels
  { columns := [lit "field", lit "value"]
    rows :=
      [keyValue (lit "context") context.name,
        keyValue (lit "thesis") (lit "SkibidiQL maintains the prompt as a relational view"),
        keyValue (lit "materialized_view") (lit "CURRENT_CONTEXT(context,tab,query,token_budget)"),
        keyValue (lit "query") statement.query,
        keyValue (lit "tab") (if tabFilter.isEmpty then lit "all" else tabFilter),
        keyValue (lit "token_budget") (ofNat statement.tokenBudget),
        keyValue (lit "plan") (lit
          "Scan messages -> Scan atoms -> Prune tab/status/ACL -> Rank utility+recency -> Budget render -> Emit receipts"),
        keyValue (lit "scan_messages")
          (ofNat scannedMessages ++ lit "/" ++ ofNat context.messages.length),
        keyValue (lit "scan_atoms") (ofNat scannedAtoms ++ lit "/" ++ ofNat context.atoms.length),
        keyValue (lit "pruned_tab_messages") (ofNat (context.messages.length - scannedMessages)),
        keyValue (lit "pruned_tab_atoms") (ofNat (context.atoms.length - scannedAtoms)),
        keyValue (lit "pruned_invalidated_atoms") (ofNat prunedInvalidatedAtoms),
        keyValue (lit "rank_candidates") (ofNat active.length),
        keyValue (lit "rendered_if_spilled") (ofNat rendered.length),
        keyValue (lit "budget_pruned_atoms") (ofNat (active.length - rendered.length)),
        keyValue (lit "estimated_token_cost") (ofNat tokenCost),
        keyValue (lit "estimated_full_token_cost") (ofNat allActiveTokenCost),
        keyValue (lit "optimizer_saved_tokens") (ofNat (allActiveTokenCost - tokenCost)),
        keyValue (lit "redacted_atoms") (ofNat redactedAtoms),
        keyValue (lit "ranker") (lit "query utility + atom type weights + recency tie-break"),
        keyValue (lit "context_indexes") (lit
          "tab,tags,status,key,type,source,access_labels,mentioned_entities"),
        keyValue (lit "provenance_model") (lit
          "git-blame-for-prompts: source message, schema, labels, invalidated_by"),
        keyValue (lit "cache_policy") (lit
          "revision-aware prompt view IR cache; invalidated on context/catalog mutation"),
        keyValue (lit "schema_registry") (lit "CSR: ConversationMessage.v1 + ContextAtom.v1"),
        keyValue (lit "dcf_storage_route") (lit
          "structured=catalog.contexts.messages+atoms; vector=ConversationMessage.content; blob=tool/object refs"),
        keyValue (lit "access_policy") (accessPolicy (visibleLabels context tabFilter)),
        keyValue (lit "mentioned_entities")
          (joinStrings (lit ",") (visibleEntities context tabFilter))] ++
      if statement.receipts then
        (active.take 5).map fun ranked ↦ keyValue (lit "ranked_atom")
          (ranked.atom.key ++ lit "=" ++
            redactIfNeeded ranked.atom.value ranked.atom.accessLabels ++
            lit " utility=" ++ ofNat ranked.utility ++ lit " source=" ++ ranked.atom.source)
      else []
    message := lit "explained context view plan for " ++ context.name }

/-- `fallbackLabels` of `executeShowContextObjects`. -/
def fallbackLabels (labels : List Bytes) : List Bytes :=
  if labels.isEmpty then [lit "AGENT_INTERNAL"] else labels

/-- A field of a row, or its default when it is empty. -/
def orDefault (value : Bytes) (default : String) : Bytes :=
  if value.isEmpty then lit default else value

/-- The row of `executeShowContextObjects` for a message. -/
def messageObject (context : ConversationContextMeta) (message : ContextMessageMeta) : Tuple :=
  let labels := fallbackLabels message.accessLabels
  [lit "message_" ++ ofNat message.id.toNat,
    orDefault message.schemaName "ConversationMessage",
    orDefault message.schemaVersion "v1",
    resolveContextTab context message.tab,
    lit "active",
    joinStrings (lit ",") labels,
    orDefault message.storageRoute
      "structured=catalog.contexts.messages; vector=ConversationMessage.content; blob=none",
    [],
    redactIfNeeded message.text labels,
    joinStrings (lit ",") message.tags,
    lit "message",
    lit "1.00",
    lit "0:" ++ ofNat message.text.length,
    redactIfNeeded message.text labels].map .text

/-- The row of `executeShowContextObjects` for the atom at a position. -/
def atomObject (context : ConversationContextMeta) (entry : ContextAtomMeta × Nat) : Tuple :=
  let atom := entry.1
  let labels := fallbackLabels atom.accessLabels
  [lit "atom_" ++ ofNat (entry.2 + 1),
    orDefault atom.schemaName "ContextAtom",
    orDefault atom.schemaVersion "v1",
    resolveContextTab context atom.tab,
    orDefault atom.status "active",
    joinStrings (lit ",") labels,
    lit "structured=catalog.contexts.atoms",
    atom.source,
    atom.type ++ lit " " ++ atom.key ++ lit "=" ++ redactIfNeeded atom.value labels,
    joinStrings (lit ",") atom.tags,
    atom.extractorRule,
    atom.extractorConfidence,
    ofNat atom.sourceStart.toNat ++ lit ":" ++ ofNat atom.sourceEnd.toNat,
    redactIfNeeded
      (if atom.originalSnippet.isEmpty then atom.value else atom.originalSnippet) labels].map .text

/-- The rows of `executeShowContextObjects`. -/
def showContextObjects (context : ConversationContextMeta) : NativeQueryResult :=
  let redacted :=
    (context.messages.countP fun m ↦ shouldRedact (fallbackLabels m.accessLabels)) +
      context.atoms.countP fun a ↦ shouldRedact (fallbackLabels a.accessLabels)
  { columns := ["object_id", "schema", "version", "tab", "status",
      "access_labels", "storage_route", "source",
      "value", "tags", "extractor_rule",
      "extractor_confidence", "source_span",
      "original_snippet"].map lit
    rows := context.messages.map (messageObject context) ++
      context.atoms.zipIdx.map (atomObject context)
    message := lit "showed context objects for " ++ context.name ++
      lit " (redacted " ++ ofNat redacted ++ lit ")" }

end SkibidiQL
