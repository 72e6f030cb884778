import SkibidiQL.Catalog.Metadata
import SkibidiQL.Prompt.Views

/-!
# Context statements of a session

The context statements as the engine runs them: against the contexts of the catalog, with the cache of
query results. A statement that throws does so before it has changed anything.
-/

namespace SkibidiQL

open Bytes

/-- The statements of the prompt layer. -/
inductive PromptStatement where
  | create (name : Bytes)
  | change (statement : ContextStatement)
  | spill (statement : ContextQueryStmt)
  | explain (statement : ContextQueryStmt)
  | showObjects (context : Bytes)
deriving DecidableEq

/-- The statement reads a context and returns rows computed from it. -/
def PromptStatement.isQuery : PromptStatement → Bool
  | .create _ => false
  | .change _ => false
  | .spill _ => true
  | .explain _ => true
  | .showObjects _ => true

/-- The part of the engine that the context statements work on. -/
structure PromptState where
  catalog : Catalog := {}
  contextResultCache : NameMap NativeQueryResult := ∅
deriving DecidableEq

/-- `contextCacheKey`. -/
def contextCacheKey (revision : UInt64) (parts : List Bytes) : Bytes :=
  ofNat revision.toNat ++ parts.flatMap fun part ↦ 31 :: part

/-- The parts of the cache key of a spill or an explain. -/
def queryKeyParts (kind : String) (statement : ContextQueryStmt) : List Bytes :=
  [lit kind, statement.context, statement.tab, statement.query, ofNat statement.tokenBudget,
    lit (if statement.receipts then "receipts:on" else "receipts:off")]

/-- What a query computes: the parts of its cache key, the context it reads and its view of it. -/
structure ContextView where
  parts : List Bytes
  context : Bytes
  view : ConversationContextMeta → NativeQueryResult

/-- `executeSpillContext`. -/
def spillView (statement : ContextQueryStmt) : ContextView :=
  ⟨queryKeyParts "spill" statement, statement.context, (spillContext · statement)⟩

/-- `executeExplainContext`. -/
def explainView (statement : ContextQueryStmt) : ContextView :=
  ⟨queryKeyParts "explain" statement, statement.context, (explainContext · statement)⟩

/-- `executeShowContextObjects`. -/
def objectsView (context : Bytes) : ContextView :=
  ⟨[lit "objects", context], context, showContextObjects⟩

namespace PromptState

/-- `executeCreateContext`. -/
def executeCreateContext (state : PromptState) (name : Bytes) :
    Except Error (NativeQueryResult × PromptState) :=
  if name ∈ state.catalog.contexts then throw (lit "Context already exists: " ++ name)
  else
    pure ({ columns := [lit "field", lit "value"]
            rows := [keyValue (lit "context") name,
              keyValue (lit "messages") (lit "0"),
              keyValue (lit "atoms") (lit "0")]
            message := lit "manifested context " ++ name },
      { catalog := state.catalog.addContext { name }, contextResultCache := ∅ })

/-- The frame of `executeAppendMemory`, `executeTagMemory`, `executeAliasTab` and `executeMergeTabs`:
the context is looked up, changed and stored, and the cache cleared. -/
def executeChange (state : PromptState) (statement : ContextStatement) :
    Except Error (NativeQueryResult × PromptState) :=
  match state.catalog.contexts[statement.context]? with
  | none => throw (lit "Unknown context: " ++ statement.context)
  | some context => do
    let (context, result) ← statement.execute context
    pure (result, { catalog := state.catalog.addContext context, contextResultCache := ∅ })

/-- The frame of `executeSpillContext`, `executeExplainContext` and `executeShowContextObjects`: the
cache is consulted, and the view computed and cached when it has no entry. -/
def executeView (state : PromptState) (query : ContextView) :
    Except Error (NativeQueryResult × PromptState) :=
  let key := contextCacheKey state.catalog.revision query.parts
  match state.contextResultCache[key]? with
  | some cached => pure (cached, state)
  | none =>
    match state.catalog.contexts[query.context]? with
    | none => throw (lit "Unknown context: " ++ query.context)
    | some context =>
      let result := query.view context
      pure (result,
        { state with contextResultCache := state.contextResultCache.insert key result })

/-- A context statement. -/
def execute (state : PromptState) : PromptStatement → Except Error (NativeQueryResult × PromptState)
  | .create name => state.executeCreateContext name
  | .change statement => state.executeChange statement
  | .spill statement => state.executeView (spillView statement)
  | .explain statement => state.executeView (explainView statement)
  | .showObjects context => state.executeView (objectsView context)

/-- The state after a statement, which a throwing statement leaves as it was. -/
def step (state : PromptState) (statement : PromptStatement) : PromptState :=
  match state.execute statement with
  | .ok (_, state) => state
  | .error _ => state

/-- The state after a run. -/
def run (state : PromptState) (statements : List PromptStatement) : PromptState :=
  statements.foldl step state

/-- What a statement returns. -/
def answer (state : PromptState) (statement : PromptStatement) : Except Error NativeQueryResult :=
  (state.execute statement).map Prod.fst

/-- What the queries of a run return, in order. -/
def answers (state : PromptState) : List PromptStatement → List (Except Error NativeQueryResult)
  | [] => []
  | statement :: statements =>
    if statement.isQuery then
      state.answer statement :: (state.step statement).answers statements
    else (state.step statement).answers statements

end PromptState

end SkibidiQL
