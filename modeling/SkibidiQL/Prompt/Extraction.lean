import SkibidiQL.Prompt.ContextMeta
import Mathlib.Data.List.Sort

/-!
# What a message yields

Access labels, mentioned entities, tag suggestions and atoms are computed from the text of an appended
message by keyword search. The markers of one kind are tried in order, and the first that yields a
value is taken (`firstExtracted`).
-/

namespace SkibidiQL

open Bytes

/-! ### Labels, entities and tags -/

/-- `inferAccessLabels`. -/
def inferAccessLabels (text : Bytes) : List Bytes :=
  let lower := lowerText text
  [lit "AGENT_INTERNAL"] ++
    (if containsAny lower (["password", "secret", "api key", "api token",
        "access token", "auth token", "bearer token",
        "refresh token", "session token", "credential token",
        "ssn", "social security", "credit card", "confidential",
        "private key"].map lit) then [lit "CONFIDENTIAL_CUSTOMER_DATA"] else []) ++
    (if containsAny lower (["tool call", "tool trace", "stack trace"].map lit)
      then [lit "TOOL_TRACE"] else [])

/-- `inferMentionedEntities`. No entity is named twice, so `addUnique` only appends. -/
def inferMentionedEntities (text : Bytes) : List Bytes :=
  let lower := lowerText text
  let whenAny (needles : List String) (entity : String) : List Bytes :=
    if containsAny lower (needles.map lit) then [lit entity] else []
  (if ["dog", "puppy", "pet"].any fun word ↦ containsWord lower (lit word)
    then [lit "dog"] else []) ++
  whenAny ["sqlite", "sql", "b-tree", "btree"] "sqlite" ++
  whenAny ["benchmark", "perf", "slow", "latency"] "performance" ++
  whenAny ["wal", "lock", "recovery", "transaction"] "storage-safety" ++
  whenAny ["readme", "docs", "documentation"] "docs" ++
  whenAny ["pytorch", "torch", "dataset", "training"] "ml-dataset"

/-- `struct TagSuggestion`. -/
structure TagSuggestion where
  tag : Bytes
  score : Nat
  reason : Bytes
deriving DecidableEq

/-- The loop of `addTagSuggestion`: a tag that is already suggested is strengthened. -/
def strengthenSuggestion (tag : Bytes) (score : Nat) (reason : Bytes) :
    List TagSuggestion → List TagSuggestion
  | [] => [{ tag, score, reason }]
  | existing :: rest =>
    if existing.tag = tag then
      { existing with
        score := max score existing.score
        reason :=
          if reason.isEmpty || contains existing.reason reason then existing.reason
          else if existing.reason.isEmpty then reason
          else existing.reason ++ lit "+" ++ reason } :: rest
    else existing :: strengthenSuggestion tag score reason rest

/-- `addTagSuggestion`. -/
def addTagSuggestion (suggestions : List TagSuggestion) (tag : Bytes) (score : Nat)
    (reason : Bytes) : List TagSuggestion :=
  strengthenSuggestion (normalizedTab tag) score reason suggestions

/-- `inferContextTagSuggestions`: the best score first, and in the order found among equals. -/
def inferContextTagSuggestions (text : Bytes) : List TagSuggestion :=
  let lower := lowerText text
  let any (needles : List String) : Bool := containsAny lower (needles.map lit)
  let word (words : List String) : Bool := words.any fun w ↦ containsWord lower (lit w)
  let rules : List (Bool × String × Nat × String) := [
    (word ["dog", "puppy", "pet"], "convo about dog", 90, "matched pet/dog term"),
    (any ["sqlite", "b-tree", "btree"] || word ["sql"] || word ["join"],
      "debugging sqlite perf", 85, "matched sql/sqlite/join term"),
    (any ["benchmark", "recall", "avg tokens", "average tokens"],
      "benchmarks", 82, "matched benchmark metric term"),
    (any ["mem0", "rag", "recency-window"],
      "memory baselines", 80, "matched memory baseline term"),
    (any ["agent", "context pack", "current_context", "dogfood", "helper"],
      "agent integration", 78, "matched agent/context term"),
    (any ["roadmap", "next step", "project"],
      "project roadmap", 76, "matched project planning term"),
    (any ["readme", "docs", "documentation"], "docs", 74, "matched docs/readme term"),
    (any ["debug this later", "investigate", "look into"],
      "debug this later", 95, "matched follow-up marker"),
    (any ["?"], "open questions", 92, "contains question mark"),
    (any ["remember that", "always ", "never ", "don't ", "do not "],
      "constraints", 88, "matched constraint marker"),
    (any ["i like ", "i prefer "], "preferences", 86, "matched preference marker"),
    (any ["i need ", "i want ", "todo"], "current tasks", 89, "matched task marker")]
  let matched := rules.foldl (fun suggestions rule ↦
    if rule.1 then addTagSuggestion suggestions (lit rule.2.1) rule.2.2.1 (lit rule.2.2.2)
    else suggestions) []
  let suggestions :=
    if matched.isEmpty then addTagSuggestion [] (lit "main") 1 (lit "fallback") else matched
  suggestions.insertionSort fun left right ↦ left.score ≥ right.score

/-- `tagsFromSuggestions`. -/
def tagsFromSuggestions (suggestions : List TagSuggestion) : List Bytes :=
  suggestions.foldl (fun tags suggestion ↦ addUnique tags suggestion.tag) []

/-- `reasonsFromSuggestions`. -/
def reasonsFromSuggestions (suggestions : List TagSuggestion) : List Bytes :=
  suggestions.foldl (fun reasons suggestion ↦ addUnique reasons
    (suggestion.tag ++ lit ":" ++ ofNat suggestion.score ++ lit ":" ++ suggestion.reason)) []

/-- `suggestionSummary`. -/
def suggestionSummary (suggestion : TagSuggestion) : Bytes :=
  suggestion.tag ++ lit " score=" ++ ofNat suggestion.score ++
    lit " reason=" ++ suggestion.reason

/-- The first suggestion. The list is never empty. -/
def frontSuggestion (suggestions : List TagSuggestion) : TagSuggestion :=
  suggestions.headD { tag := lit "main", score := 1, reason := lit "fallback" }

/-! ### Atoms -/

/-- `struct ExtractedValue`. -/
structure ExtractedValue where
  value : Bytes
  sourceStart : UInt64 := 0
  sourceEnd : UInt64 := 0
  originalSnippet : Bytes
deriving DecidableEq

/-- The position at which a value ends: at a line break or the end of a sentence. `previous` is the
byte in front of the rest of the value. -/
def valueBoundary (previous : Option UInt8) : Bytes → Option Nat
  | [] => none
  | b :: rest =>
    let decimalPoint := previous.any isDigit && rest.head?.any isDigit
    let sentencePeriod := rest.head?.all isSpace
    if b = 10 || b = 13 || b = 33 || b = 63 || b = 59 then some 0
    else if b = 46 && !decimalPoint && sentencePeriod then some 0
    else (valueBoundary (some b) rest).map (· + 1)

/-- `extractAfterMarker`. -/
def extractAfterMarker (text marker : Bytes) : Option ExtractedValue :=
  match find (lowerText text) marker with
  | none => none
  | some pos =>
    -- Lowering keeps every byte in its place, so the position holds in the text too.
    let start := pos + marker.length
    let value := text.drop start
    let boundary := valueBoundary none value
    let value := boundary.elim value fun boundary ↦ value.take boundary
    let originalSnippet := trimText value
    let value := cleanAtomValue value
    if value.isEmpty then none
    else some
      { value, originalSnippet
        sourceStart := .ofNat start
        sourceEnd := .ofNat (start + boundary.getD originalSnippet.length) }

/-- `specificAtomKey`. -/
def specificAtomKey (base value : Bytes) : Bytes :=
  if base == lit "user_constraint" &&
      containsAny (lowerText value) (["password", "secret", "api key",
        "api token", "access token", "bearer token", "private key",
        "credit card", "ssn"].map lit) then
    lit "user_constraint.security"
  else if base ∈ ["decision", "open_question", "debug_followup", "current_task",
      "user_constraint"].map lit then
    base ++ lit "." ++ atomTopicSlug value
  else base

/-- The lambda `add` of `extractContextAtoms`. -/
def extractedAtom (statement : AppendMemoryStmt) (key : Bytes) (extracted : ExtractedValue)
    (type extractorRule confidence : Bytes) : List ContextAtomMeta :=
  if extracted.value.isEmpty then []
  else [{
    key := specificAtomKey key extracted.value
    value := extracted.value
    type := type
    status := lit "active"
    source := lit "message_" ++ ofNat statement.messageId.toNat
    tab := normalizedTab statement.tab
    extractorRule := extractorRule
    extractorConfidence := confidence
    sourceStart := extracted.sourceStart
    sourceEnd := extracted.sourceEnd
    originalSnippet := extracted.originalSnippet }]

/-- The first marker that yields a value, with that value. -/
def firstExtracted (text : Bytes) : List Bytes → Option (Bytes × ExtractedValue)
  | [] => none
  | marker :: markers =>
    match extractAfterMarker text marker with
    | some extracted => some (marker, extracted)
    | none => firstExtracted text markers

/-- The atoms of one loop over markers. -/
def markerAtoms (statement : AppendMemoryStmt) (markers : List String) (key type : String) :
    List ContextAtomMeta :=
  match firstExtracted statement.text (markers.map lit) with
  | none => []
  | some (marker, extracted) =>
    extractedAtom statement (lit key) extracted (lit type) (lit "marker:" ++ marker) (lit "0.92")

/-- The atoms of the loop over the markers of a constraint, which belong to the value. -/
def constraintAtoms (statement : AppendMemoryStmt) : List ContextAtomMeta :=
  match firstExtracted statement.text (["always ", "never ", "do not ", "don't "].map lit) with
  | none => []
  | some (marker, extracted) =>
    let constraint := { extracted with
      value := cleanAtomValue (marker ++ extracted.value)
      originalSnippet := cleanAtomValue (marker ++ extracted.originalSnippet) }
    extractedAtom statement (lit "user_constraint") constraint (lit "constraint")
      (lit "marker:" ++ marker) (lit "0.92")

/-- The atoms of `"remember that "`, whose rule is written without the trailing blank. -/
def rememberAtoms (statement : AppendMemoryStmt) : List ContextAtomMeta :=
  match extractAfterMarker statement.text (lit "remember that ") with
  | none => []
  | some extracted =>
    extractedAtom statement (lit "user_constraint") extracted (lit "constraint")
      (lit "marker:remember that") (lit "0.92")

/-- The atom of a message with a question mark: the whole message. -/
def questionAtoms (statement : AppendMemoryStmt) : List ContextAtomMeta :=
  if contains statement.text (lit "?") then
    let question := cleanAtomValue statement.text
    if question.isEmpty then []
    else
      extractedAtom statement (lit "open_question")
        { value := question
          sourceStart := 0
          sourceEnd := .ofNat statement.text.length
          originalSnippet := statement.text }
        (lit "question") (lit "punctuation:question_mark") (lit "0.75")
  else []

/-- `extractContextAtoms`. -/
def extractContextAtoms (statement : AppendMemoryStmt) : List ContextAtomMeta :=
  markerAtoms statement ["i live in ", "i moved to ", "moved to ", "i am in ", "i'm in ",
    "my location is ", "i live near "] "user_location" "fact" ++
  markerAtoms statement ["i prefer ", "i like "] "user_preference" "preference" ++
  markerAtoms statement ["my dog likes ", "my dog loves ", "my dog prefers "]
    "dog_preference" "preference" ++
  markerAtoms statement ["my dog is named ", "my dog's name is "] "dog_name" "fact" ++
  rememberAtoms statement ++
  constraintAtoms statement ++
  markerAtoms statement ["i need ", "i want "] "current_task" "task" ++
  markerAtoms statement ["todo: ", "todo ", "debug this later: ", "investigate ", "look into "]
    "debug_followup" "debug" ++
  markerAtoms statement ["we decided ", "decision: ", "final call: "] "decision" "decision" ++
  questionAtoms statement

end SkibidiQL
