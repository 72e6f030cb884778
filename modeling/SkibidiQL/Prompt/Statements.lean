import SkibidiQL.Prompt.Tabs

/-!
# Statements that change a context

`executeAppendMemory`, `executeTagMemory`, `executeAliasTab` and `executeMergeTabs` read a context from
the catalog, change a copy of it and store the copy. The functions here are that change: from the
context to the new context and the result, or the exception.
-/

namespace SkibidiQL

open Bytes

/-- A boolean in a result. -/
def boolText (b : Bool) : Bytes :=
  lit (if b then "true" else "false")

/-! ### Appending a message -/

/-- The message that `executeAppendMemory` adds. -/
def appendedMessage (context : ConversationContextMeta) (statement : AppendMemoryStmt) :
    ContextMessageMeta :=
  let tagSuggestions := inferContextTagSuggestions statement.text
  let suggestedTab := (frontSuggestion tagSuggestions).tag
  let requestedTab := if statement.autoTab then suggestedTab else statement.tab
  let tab := resolveContextTab context requestedTab
  let tags := addUnique (tagsFromSuggestions tagSuggestions) tab
  let tagReasons := reasonsFromSuggestions tagSuggestions
  { id := statement.messageId
    speaker := statement.speaker
    text := statement.text
    tab := tab
    accessLabels := inferAccessLabels statement.text
    mentionedEntities := inferMentionedEntities statement.text
    tags := sortUnique (tags.map (resolveContextTab context))
    tagReasons :=
      if !statement.autoTab && !statement.tab.isEmpty then
        addUnique tagReasons (tab ++ lit ":100:explicit vibe-tab")
      else tagReasons }

/-- One round of the loop over the extracted atoms: the atoms it contradicts are invalidated, and it is
stored. The second component counts the invalidated atoms. -/
def storeAtom (message : ContextMessageMeta) (state : List ContextAtomMeta × Nat)
    (atom : ContextAtomMeta) : List ContextAtomMeta × Nat :=
  let invalidator := lit "message_" ++ ofNat message.id.toNat
  let storedAtom := { atom with
    schemaName := lit "ContextAtom"
    schemaVersion := lit "v1"
    -- Labels and tags are those of the whole message.
    accessLabels := message.accessLabels
    tags := message.tags }
  (state.1.map (invalidateFor atom invalidator) ++ [storedAtom],
    state.2 + state.1.countP (supersedes atom))

/-- The rows of the result of `executeAppendMemory`. -/
def appendMemoryRows (statement : AppendMemoryStmt) (message : ContextMessageMeta)
    (atoms : List ContextAtomMeta) (invalidated : Nat) : List Tuple :=
  let front := frontSuggestion (inferContextTagSuggestions statement.text)
  let invalidator := lit "message_" ++ ofNat statement.messageId.toNat
  [keyValue (lit "context") statement.context,
    keyValue (lit "message") invalidator,
    keyValue (lit "speaker") statement.speaker,
    keyValue (lit "tab") message.tab,
    keyValue (lit "suggested_tab") front.tag,
    keyValue (lit "suggested_tab_reason") (suggestionSummary front),
    keyValue (lit "auto_tab") (boolText statement.autoTab),
    keyValue (lit "tags") (joinStrings (lit ",") message.tags),
    keyValue (lit "tag_reasons") (joinStrings (lit " | ") message.tagReasons),
    keyValue (lit "message_schema") (message.schemaName ++ lit "." ++ message.schemaVersion),
    keyValue (lit "access_labels") (joinStrings (lit ",") message.accessLabels),
    keyValue (lit "mentioned_entities") (joinStrings (lit ",") message.mentionedEntities),
    keyValue (lit "storage_route") message.storageRoute,
    keyValue (lit "dcf_object")
      (invalidator ++ lit " -> " ++ message.schemaName ++ lit "." ++ message.schemaVersion),
    keyValue (lit "extracted_atoms") (ofNat atoms.length),
    keyValue (lit "invalidated_atoms") (ofNat invalidated)] ++
  atoms.flatMap fun atom ↦
    [keyValue (lit "atom") (atom.key ++ lit "=" ++ atom.value ++ lit " @" ++ atom.source),
      keyValue (lit "atom_provenance")
        (atom.key ++ lit " rule=" ++ atom.extractorRule ++
          lit " confidence=" ++ atom.extractorConfidence ++
          lit " span=" ++ ofNat atom.sourceStart.toNat ++ lit ":" ++ ofNat atom.sourceEnd.toNat)]

/-- `executeAppendMemory`, on the context it names. -/
def appendMemory (context : ConversationContextMeta) (statement : AppendMemoryStmt) :
    Except Error (ConversationContextMeta × NativeQueryResult) :=
  if context.messages.any fun message ↦ message.id == statement.messageId then
    throw (lit "Duplicate context message id: " ++ ofNat statement.messageId.toNat)
  else
    let message := appendedMessage context statement
    let atoms := extractContextAtoms { statement with tab := message.tab }
    -- Every atom sees those stored in front of it, of this message too.
    let (stored, invalidated) := atoms.foldl (storeAtom message) (context.atoms, 0)
    pure ({ context with messages := context.messages ++ [message], atoms := stored },
      { columns := [lit "field", lit "value"]
        rows := appendMemoryRows statement message atoms invalidated
        message := lit "yeeted memory into " ++ statement.context })

/-! ### Retagging a message -/

/-- The loop of `executeTagMemory` over the messages: the first one with the id is retagged. -/
def retagMessages (context : ConversationContextMeta) (messageId : UInt64) (tab : Bytes) :
    List ContextMessageMeta → Option (List ContextMessageMeta)
  | [] => none
  | message :: messages =>
    if message.id = messageId then
      let previousTab := resolveContextTab context message.tab
      some ({ message with
        tab := tab
        tags := addUnique (removeValue message.tags previousTab) tab
        tagReasons := addUnique message.tagReasons (tab ++ lit ":100:manual retag") } :: messages)
    else (retagMessages context messageId tab messages).map (message :: ·)

/-- The loop of `executeTagMemory` over the atoms, on one atom. -/
def retagAtom (context : ConversationContextMeta) (source tab : Bytes) (atom : ContextAtomMeta) :
    ContextAtomMeta :=
  if atom.source = source then
    { atom with
      tab := tab
      tags := addUnique (removeValue atom.tags (resolveContextTab context atom.tab)) tab }
  else atom

/-- `executeTagMemory`, on the context it names. -/
def tagMemory (context : ConversationContextMeta) (statement : TagMemoryStmt) :
    Except Error (ConversationContextMeta × NativeQueryResult) :=
  let source := lit "message_" ++ ofNat statement.messageId.toNat
  let tab := resolveContextTab context statement.tab
  match retagMessages context statement.messageId tab context.messages with
  | none => throw (lit "Unknown context message id: " ++ ofNat statement.messageId.toNat)
  | some messages =>
    let retaggedAtoms := context.atoms.countP fun atom ↦ atom.source == source
    pure (recomputeContextAtomStatus
        { context with messages, atoms := context.atoms.map (retagAtom context source tab) },
      { columns := [lit "field", lit "value"]
        rows := [keyValue (lit "context") statement.context,
          keyValue (lit "message") source,
          keyValue (lit "tab") tab,
          keyValue (lit "retagged_atoms") (ofNat retaggedAtoms)]
        message := lit "vibe-tabbed memory in " ++ statement.context })

/-! ### Aliases -/

/-- `executeAliasTab`, on the context it names. -/
def aliasTab (context : ConversationContextMeta) (statement : AliasTabStmt) :
    Except Error (ConversationContextMeta × NativeQueryResult) :=
  let aliasName := normalizedTab statement.aliasTab
  let target := resolveContextTab context statement.target
  pure (setContextTabAlias context aliasName target,
    { columns := [lit "field", lit "value"]
      rows := [keyValue (lit "context") statement.context,
        keyValue (lit "alias") aliasName,
        keyValue (lit "target") target]
      message := lit "aliased tab in " ++ statement.context })

/-! ### Merging tabs -/

/-- A tag list in which `target` takes the place of the tags that resolve to `source`. -/
def mergeTags (context : ConversationContextMeta) (source target : Bytes) (tags : List Bytes) :
    List Bytes :=
  sortUnique (tags.map fun tag ↦
    if resolveContextTab context tag = source then target else tag)

/-- The loop of `executeMergeTabs` over the messages, on one message. -/
def mergeMessage (context : ConversationContextMeta) (source target : Bytes)
    (message : ContextMessageMeta) : ContextMessageMeta :=
  { message with
    tab := if resolveContextTab context message.tab = source then target else message.tab
    tags := mergeTags context source target message.tags }

/-- The loop of `executeMergeTabs` over the atoms, on one atom. -/
def mergeAtom (context : ConversationContextMeta) (source target : Bytes)
    (atom : ContextAtomMeta) : ContextAtomMeta :=
  { atom with
    tab := if resolveContextTab context atom.tab = source then target else atom.tab
    tags := mergeTags context source target atom.tags }

/-- The loop of `executeMergeTabs` over the aliases. It resolves each target in the alias table it is
changing, of which `done` is the part that is finished. -/
def mergeAliases (source target : Bytes) (done : List ContextTabAliasMeta) :
    List ContextTabAliasMeta → List ContextTabAliasMeta
  | [] => done
  | entry :: rest =>
    let entry' :=
      if resolveTab (done ++ entry :: rest) entry.target = source then { entry with target }
      else entry
    mergeAliases source target (done ++ [entry']) rest

/-- The context in which `executeMergeTabs` has moved everything and set the alias, before it
recomputes the status of the atoms. -/
def mergedContext (context : ConversationContextMeta) (source target : Bytes) :
    ConversationContextMeta :=
  setContextTabAlias
    { context with
      messages := context.messages.map (mergeMessage context source target)
      atoms := context.atoms.map (mergeAtom context source target)
      tabAliases := mergeAliases source target [] context.tabAliases } source target

/-- `executeMergeTabs`, on the context it names. -/
def mergeTabs (context : ConversationContextMeta) (statement : MergeTabsStmt) :
    Except Error (ConversationContextMeta × NativeQueryResult) :=
  let source := resolveContextTab context statement.fromTab
  let target := resolveContextTab context statement.toTab
  let moved (tab : Bytes) : Bool := source != target && resolveContextTab context tab == source
  let context' :=
    if source ≠ target then recomputeContextAtomStatus (mergedContext context source target)
    else context
  pure (context',
    { columns := [lit "field", lit "value"]
      -- The counts are of what resolved to the source before the merge.
      rows := [keyValue (lit "context") statement.context,
        keyValue (lit "from_tab") source,
        keyValue (lit "to_tab") target,
        keyValue (lit "moved_messages") (ofNat (context.messages.countP fun m ↦ moved m.tab)),
        keyValue (lit "moved_atoms") (ofNat (context.atoms.countP fun a ↦ moved a.tab))]
      message := lit "merged tabs in " ++ statement.context })

/-! ### The statements together -/

/-- A statement that changes one context. -/
inductive ContextStatement where
  | append (statement : AppendMemoryStmt)
  | tag (statement : TagMemoryStmt)
  | aliasTab (statement : AliasTabStmt)
  | merge (statement : MergeTabsStmt)
deriving DecidableEq

/-- The context that the statement names. -/
def ContextStatement.context : ContextStatement → Bytes
  | .append statement => statement.context
  | .tag statement => statement.context
  | .aliasTab statement => statement.context
  | .merge statement => statement.context

/-- What the statement does to the context it names. -/
def ContextStatement.execute (context : ConversationContextMeta) :
    ContextStatement → Except Error (ConversationContextMeta × NativeQueryResult)
  | .append statement => appendMemory context statement
  | .tag statement => tagMemory context statement
  | .aliasTab statement => SkibidiQL.aliasTab context statement
  | .merge statement => mergeTabs context statement

/-- The context after a statement, which a throwing statement leaves as it was. -/
def ContextStatement.apply (context : ConversationContextMeta) (statement : ContextStatement) :
    ConversationContextMeta :=
  match statement.execute context with
  | .ok (context, _) => context
  | .error _ => context

end SkibidiQL
