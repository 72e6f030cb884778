import SkibidiQL.Prompt.Redaction
import SkibidiQL.Prompt.Session

/-!
# Two runs that differ in one confidential text

A confidential message reaches the views through its atoms. Values and snippets are redacted; what else
the views show of an atom is its key, and what they compute from its value are comparisons: with the
values of the same key, with the diversity keys of the context and with the query. Two versions of a
confidential text that agree on these (`Undisclosed`) cannot be told apart by any later view
(`answers_eq_of_undisclosed`). The keys of some atoms quote the text, so that some versions can be told
apart (`confidential_key_disclosed`).
-/

namespace SkibidiQL

open Bytes

/-! ### Extracted atoms -/

/-- The confidence that goes with an extraction rule. -/
def ruleConfidence (rule : Bytes) : Bytes :=
  if rule = lit "punctuation:question_mark" then lit "0.75" else lit "0.92"

/-- The fields of an extracted atom that are not computed from its text: all but its key, value, type,
rule, span and snippet. -/
def ContextAtomMeta.IsExtracted (statement : AppendMemoryStmt) (atom : ContextAtomMeta) : Prop :=
  atom = {
    key := atom.key
    value := atom.value
    type := atom.type
    status := lit "active"
    source := lit "message_" ++ ofNat statement.messageId.toNat
    tab := normalizedTab statement.tab
    extractorRule := atom.extractorRule
    extractorConfidence := ruleConfidence atom.extractorRule
    sourceStart := atom.sourceStart
    sourceEnd := atom.sourceEnd
    originalSnippet := atom.originalSnippet }

/-- An atom made from an extracted value carries the fields of its statement. -/
theorem extractedAtom_isExtracted (statement : AppendMemoryStmt) (key : Bytes)
    (extracted : ExtractedValue) (type : Bytes) {rule confidence : Bytes}
    (h : confidence = ruleConfidence rule) :
    ∀ atom ∈ extractedAtom statement key extracted type rule confidence,
      atom.IsExtracted statement := by
  intro atom hatom
  unfold extractedAtom at hatom
  split at hatom
  · cases hatom
  · rw [List.mem_singleton.1 hatom, h]
    rfl

/-- Marker rules have the same confidence. -/
theorem ruleConfidence_marker (marker : Bytes) :
    lit "0.92" = ruleConfidence (lit "marker:" ++ marker) := by
  have hne : lit "marker:" ++ marker ≠ lit "punctuation:question_mark" := by
    intro h
    have hmarker : (lit "marker:" ++ marker).head? = some 109 := rfl
    have hpunctuation : (lit "punctuation:question_mark").head? = some 112 := rfl
    rw [h, hpunctuation] at hmarker
    exact absurd hmarker (by decide)
  rw [ruleConfidence, if_neg hne]

/-- An atom that a marker gives carries the fields of its statement. -/
theorem markerAtoms_isExtracted (statement : AppendMemoryStmt) (markers : List String)
    (key type : String) :
    ∀ atom ∈ markerAtoms statement markers key type, atom.IsExtracted statement := by
  intro atom hatom
  unfold markerAtoms at hatom
  split at hatom
  · cases hatom
  · exact extractedAtom_isExtracted _ _ _ _ (ruleConfidence_marker _) atom hatom

/-- Every atom extracted carries the fields of its statement. -/
theorem extractContextAtoms_isExtracted (statement : AppendMemoryStmt) :
    ∀ atom ∈ extractContextAtoms statement, atom.IsExtracted statement := by
  intro atom hatom
  simp only [extractContextAtoms, List.mem_append] at hatom
  rcases hatom with
    ((((((((hatom | hatom) | hatom) | hatom) | hatom) | hatom) | hatom) | hatom) | hatom) | hatom
  · exact markerAtoms_isExtracted _ _ _ _ atom hatom
  · exact markerAtoms_isExtracted _ _ _ _ atom hatom
  · exact markerAtoms_isExtracted _ _ _ _ atom hatom
  · exact markerAtoms_isExtracted _ _ _ _ atom hatom
  · unfold rememberAtoms at hatom
    split at hatom
    · cases hatom
    · exact extractedAtom_isExtracted _ _ _ _ (by decide) atom hatom
  · unfold constraintAtoms at hatom
    split at hatom
    · cases hatom
    · exact extractedAtom_isExtracted _ _ _ _ (ruleConfidence_marker _) atom hatom
  · exact markerAtoms_isExtracted _ _ _ _ atom hatom
  · exact markerAtoms_isExtracted _ _ _ _ atom hatom
  · exact markerAtoms_isExtracted _ _ _ _ atom hatom
  · unfold questionAtoms at hatom
    split at hatom
    · dsimp only at hatom
      split at hatom
      · cases hatom
      · exact extractedAtom_isExtracted _ _ _ _ (by decide) atom hatom
    · cases hatom

/-- The tab of the statement is the tab of the atom and touches nothing else. -/
theorem extractedAtom_retab (statement : AppendMemoryStmt) (tab key : Bytes)
    (extracted : ExtractedValue) (type rule confidence : Bytes) :
    extractedAtom { statement with tab } key extracted type rule confidence =
      (extractedAtom statement key extracted type rule confidence).map
        fun atom ↦ { atom with tab := normalizedTab tab } := by
  unfold extractedAtom
  split <;> rfl

/-- The same of the atoms that markers give. -/
theorem markerAtoms_retab (statement : AppendMemoryStmt) (tab : Bytes) (markers : List String)
    (key type : String) :
    markerAtoms { statement with tab } markers key type =
      (markerAtoms statement markers key type).map
        fun atom ↦ { atom with tab := normalizedTab tab } := by
  unfold markerAtoms
  dsimp only
  split
  · rfl
  · exact extractedAtom_retab statement tab _ _ _ _ _

/-- The tab of the statement reaches the tab of the atoms only. -/
theorem extractContextAtoms_retab (statement : AppendMemoryStmt) (tab : Bytes) :
    extractContextAtoms { statement with tab } =
      (extractContextAtoms statement).map fun atom ↦ { atom with tab := normalizedTab tab } := by
  have hremember : rememberAtoms { statement with tab } =
      (rememberAtoms statement).map fun atom ↦ { atom with tab := normalizedTab tab } := by
    unfold rememberAtoms
    dsimp only
    split
    · rfl
    · exact extractedAtom_retab statement tab _ _ _ _ _
  have hconstraint : constraintAtoms { statement with tab } =
      (constraintAtoms statement).map fun atom ↦ { atom with tab := normalizedTab tab } := by
    unfold constraintAtoms
    dsimp only
    split
    · rfl
    · exact extractedAtom_retab statement tab _ _ _ _ _
  have hquestion : questionAtoms { statement with tab } =
      (questionAtoms statement).map fun atom ↦ { atom with tab := normalizedTab tab } := by
    unfold questionAtoms
    dsimp only
    split
    · split
      · rfl
      · exact extractedAtom_retab statement tab _ _ _ _ _
    · rfl
  simp only [extractContextAtoms, markerAtoms_retab, hremember, hconstraint, hquestion,
    List.map_append]

/-- The contents of the atoms that a statement extracts. -/
def extractedContents (statement : AppendMemoryStmt) : List Content :=
  (extractContextAtoms statement).map (·.content)

/-- What is extracted does not depend on the tab. -/
theorem extractedContents_retab (statement : AppendMemoryStmt) (tab : Bytes) :
    extractedContents { statement with tab } = extractedContents statement := by
  rw [extractedContents, extractContextAtoms_retab, List.map_map]
  rfl

/-! ### Two versions of a confidential text -/

/-- What an extraction shows besides the text: the type, the rule and the span. -/
def ContextAtomMeta.shape (atom : ContextAtomMeta) : Bytes × Bytes × UInt64 × UInt64 :=
  (atom.type, atom.extractorRule, atom.sourceStart, atom.sourceEnd)

/-- In this context, the other text gives a confidential message with the same length, labels, tags,
tab and entities, and atoms of the same types, rules and spans. -/
structure SameShape (context : ConversationContextMeta) (statement : AppendMemoryStmt)
    (text : Bytes) : Prop where
  confidential : shouldRedact (inferAccessLabels statement.text)
  length_eq : statement.text.length = text.length
  accessLabels_eq : inferAccessLabels statement.text = inferAccessLabels text
  mentionedEntities_eq : inferMentionedEntities statement.text = inferMentionedEntities text
  tags_eq : (appendedMessage context statement).tags =
    (appendedMessage context { statement with text }).tags
  tab_eq : (appendedMessage context statement).tab =
    (appendedMessage context { statement with text }).tab
  shape_eq : (extractContextAtoms statement).map (·.shape) =
    (extractContextAtoms { statement with text }).map (·.shape)

instance (context : ConversationContextMeta) (statement : AppendMemoryStmt) (text : Bytes) :
    Decidable (SameShape context statement text) :=
  decidable_of_iff
    (shouldRedact (inferAccessLabels statement.text) ∧ statement.text.length = text.length ∧
      inferAccessLabels statement.text = inferAccessLabels text ∧
      inferMentionedEntities statement.text = inferMentionedEntities text ∧
      (appendedMessage context statement).tags =
        (appendedMessage context { statement with text }).tags ∧
      (appendedMessage context statement).tab =
        (appendedMessage context { statement with text }).tab ∧
      (extractContextAtoms statement).map (·.shape) =
        (extractContextAtoms { statement with text }).map (·.shape))
    ⟨fun ⟨h₁, h₂, h₃, h₄, h₅, h₆, h₇⟩ ↦ ⟨h₁, h₂, h₃, h₄, h₅, h₆, h₇⟩,
      fun ⟨h₁, h₂, h₃, h₄, h₅, h₆, h₇⟩ ↦ ⟨h₁, h₂, h₃, h₄, h₅, h₆, h₇⟩⟩

/-- The query text of a spill or an explain. -/
def PromptStatement.queryText? : PromptStatement → Option Bytes
  | .create _ => none
  | .change _ => none
  | .spill statement => some statement.query
  | .explain statement => some statement.query
  | .showObjects _ => none

/-- The two texts have a token in common. -/
def sharesToken (query text : Bytes) : Bool :=
  (tokenizeLower query).any fun token ↦ token ∈ tokenizeLower text

/-- The two runs to compare: `before`, then the append with either text, then `after`. -/
structure ConfidentialPair where
  before : List PromptStatement
  statement : AppendMemoryStmt
  text : Bytes
  after : List PromptStatement

namespace ConfidentialPair

/-- The contents of a context as the append finds it. -/
def context? (pair : ConfidentialPair) : Option ConversationContextMeta :=
  (PromptState.run {} pair.before).catalog.contexts[pair.statement.context]?

/-- The run with the text of the statement. -/
def first (pair : ConfidentialPair) : List PromptStatement :=
  pair.before ++ .change (.append pair.statement) :: pair.after

/-- The run with the other text. -/
def second (pair : ConfidentialPair) : List PromptStatement :=
  pair.before ++ .change (.append { pair.statement with text := pair.text }) :: pair.after

/-- The texts differ in nothing that is public, and no later query shares a token with them. -/
structure Comparable (pair : ConfidentialPair) : Prop where
  sameShape : ∀ context ∈ pair.context?, SameShape context pair.statement pair.text
  unrelated : ∀ query ∈ pair.after.filterMap (·.queryText?),
    ¬sharesToken query pair.statement.text ∧ ¬sharesToken query pair.text

/-- The contents that a later statement appends to the same context. -/
def laterContents (pair : ConfidentialPair) : PromptStatement → List Content
  | .change (.append statement) =>
    if statement.context = pair.statement.context ∧
        statement.messageId ≠ pair.statement.messageId then extractedContents statement
    else []
  | _ => []

/-- The contents of the context in the two runs: those of the two texts are paired in order, all others
with themselves. -/
def contents (pair : ConfidentialPair) (context : ConversationContextMeta) :
    List (Content × Content) :=
  (context.atoms.map (·.content) ++ pair.after.flatMap pair.laterContents).map (fun c ↦ (c, c)) ++
    (extractedContents pair.statement).zip
      (extractedContents { pair.statement with text := pair.text })

/-- The queries that later statements ask of the same context. -/
def laterQueries (pair : ConfidentialPair) : List Bytes :=
  pair.after.filterMap fun statement ↦
    match statement with
    | .spill query => if query.context = pair.statement.context then some query.query else none
    | .explain query => if query.context = pair.statement.context then some query.query else none
    | _ => none

/-- Neither the keys nor a comparison that the statements make tells the two texts apart. -/
structure Undisclosed (pair : ConfidentialPair) (context : ConversationContextMeta) : Prop where
  key_eq : ∀ p ∈ pair.contents context, p.1.key = p.2.key
  value_iff : ∀ p ∈ pair.contents context, ∀ q ∈ pair.contents context, p.1.key = q.1.key →
    (p.1.value = q.1.value ↔ p.2.value = q.2.value)
  diversity_iff : ∀ p ∈ pair.contents context, ∀ q ∈ pair.contents context,
    (p.1.diversityKey = q.1.diversityKey ↔ p.2.diversityKey = q.2.diversityKey)
  utility_eq : ∀ p ∈ pair.contents context, ∀ query ∈ pair.laterQueries,
    p.1.utility (lowerText query) = p.2.utility (lowerText query)

instance (pair : ConfidentialPair) : Decidable pair.Comparable :=
  decidable_of_iff
    ((∀ context ∈ pair.context?, SameShape context pair.statement pair.text) ∧
      ∀ query ∈ pair.after.filterMap (·.queryText?),
        ¬sharesToken query pair.statement.text ∧ ¬sharesToken query pair.text)
    ⟨fun ⟨h₁, h₂⟩ ↦ ⟨h₁, h₂⟩, fun ⟨h₁, h₂⟩ ↦ ⟨h₁, h₂⟩⟩

instance (pair : ConfidentialPair) (context : ConversationContextMeta) :
    Decidable (pair.Undisclosed context) :=
  decidable_of_iff
    ((∀ p ∈ pair.contents context, p.1.key = p.2.key) ∧
      (∀ p ∈ pair.contents context, ∀ q ∈ pair.contents context, p.1.key = q.1.key →
        (p.1.value = q.1.value ↔ p.2.value = q.2.value)) ∧
      (∀ p ∈ pair.contents context, ∀ q ∈ pair.contents context,
        (p.1.diversityKey = q.1.diversityKey ↔ p.2.diversityKey = q.2.diversityKey)) ∧
      ∀ p ∈ pair.contents context, ∀ query ∈ pair.laterQueries,
        p.1.utility (lowerText query) = p.2.utility (lowerText query))
    ⟨fun ⟨h₁, h₂, h₃, h₄⟩ ↦ ⟨h₁, h₂, h₃, h₄⟩, fun ⟨h₁, h₂, h₃, h₄⟩ ↦ ⟨h₁, h₂, h₃, h₄⟩⟩

end ConfidentialPair

/-! ### The append -/

/-- Lists with equal images are related element by element. -/
theorem forall₂_of_map_eq {α β : Type*} {f : α → β} {l l' : List α} (h : l.map f = l'.map f) :
    List.Forall₂ (fun a a' ↦ f a = f a') l l' := by
  rw [← List.forall₂_eq_eq_eq, List.forall₂_map_left_iff, List.forall₂_map_right_iff] at h
  exact h

/-- The pairs of contents in the two runs. -/
def ConfidentialPair.twins (pair : ConfidentialPair) (context : ConversationContextMeta)
    (c c' : Content) : Prop :=
  (c, c') ∈ pair.contents context

section Append

variable {pair : ConfidentialPair} {context : ConversationContextMeta}

/-- A content that both runs see is its own twin. -/
theorem ConfidentialPair.twins_self {c : Content}
    (h : c ∈ context.atoms.map (·.content) ++ pair.after.flatMap pair.laterContents) :
    pair.twins context c c :=
  List.mem_append_left _ (List.mem_map_of_mem h)

/-- Texts of one shape give twin atoms. -/
theorem SameShape.forall₂ (h : SameShape context pair.statement pair.text) :
    List.Forall₂ (fun a a' ↦ a.shape = a'.shape ∧ pair.twins context a.content a'.content)
      (extractContextAtoms pair.statement)
      (extractContextAtoms { pair.statement with text := pair.text }) := by
  have hshape := forall₂_of_map_eq h.shape_eq
  rw [List.forall₂_iff_zip] at hshape ⊢
  refine ⟨hshape.1, fun {a a'} hmem ↦ ⟨hshape.2 hmem, List.mem_append_right _ ?_⟩⟩
  rw [extractedContents, extractedContents, List.zip_map]
  exact List.mem_map_of_mem (f := Prod.map _ _) hmem

/-- An undisclosed pair is told apart by no comparison that the statements make. -/
theorem ConfidentialPair.Undisclosed.indistinct (h : pair.Undisclosed context)
    (hshape : SameShape context pair.statement pair.text) : Indistinct (pair.twins context) where
  type_eq c c' hc := by
    rcases List.mem_append.1 hc with hself | hzip
    · obtain ⟨d, -, hd⟩ := List.mem_map.1 hself
      cases hd
      rfl
    · rw [extractedContents, extractedContents, List.zip_map] at hzip
      obtain ⟨⟨a, a'⟩, hmem, heq⟩ := List.mem_map.1 hzip
      cases heq
      exact congrArg Prod.fst
        ((List.forall₂_iff_zip.1 (forall₂_of_map_eq hshape.shape_eq)).2 hmem)
  key_eq c c' hc := h.key_eq (c, c') hc
  value_iff c c' d d' hc hd := h.value_iff (c, c') hc (d, d') hd
  diversity_iff c c' d d' hc hd := h.diversity_iff (c, c') hc (d, d') hd

/-- Paired atoms of equal shape and key are equal but for value and snippet. -/
theorem rest_eq_of_shape {s s' : AppendMemoryStmt} {a a' : ContextAtomMeta}
    (ha : a.IsExtracted s) (ha' : a'.IsExtracted s') (hid : s.messageId = s'.messageId)
    (htab : s.tab = s'.tab) (hshape : a.shape = a'.shape) (hkey : a.key = a'.key) :
    { a with value := a'.value, originalSnippet := a'.originalSnippet } = a' := by
  simp only [ContextAtomMeta.shape, Prod.mk.injEq] at hshape
  obtain ⟨htype, hrule, hstart, hend⟩ := hshape
  rw [ha']
  rw [ContextAtomMeta.IsExtracted] at ha
  rw [ha]
  simp only [hid, htab, htype, hrule, hstart, hend, hkey]

/-- Redacted messages with equal fields and texts of one length are alike. -/
theorem messageAlike_of_fields {m m' : ContextMessageMeta} (hredacted : shouldRedact m.accessLabels)
    (hlength : m.text.length = m'.text.length) (hlabels : m.accessLabels = m'.accessLabels)
    (hentities : m.mentionedEntities = m'.mentionedEntities) (htags : m.tags = m'.tags)
    (htab : m.tab = m'.tab) (hid : m.id = m'.id) (hspeaker : m.speaker = m'.speaker)
    (hschemaName : m.schemaName = m'.schemaName) (hschemaVersion : m.schemaVersion = m'.schemaVersion)
    (hroute : m.storageRoute = m'.storageRoute) : MessageAlike m m' := by
  refine ⟨?_, hlength, .inl hredacted⟩
  rw [hlabels, hentities, htags, htab, hid, hspeaker, hschemaName, hschemaVersion, hroute]

/-- The two messages appended are alike. -/
theorem SameShape.message (h : SameShape context pair.statement pair.text) :
    MessageAlike (appendedMessage context pair.statement)
      (appendedMessage context { pair.statement with text := pair.text }) := by
  refine messageAlike_of_fields h.confidential h.length_eq h.accessLabels_eq
    h.mentionedEntities_eq h.tags_eq h.tab_eq ?_ ?_ ?_ ?_ ?_ <;>
  simp only [appendedMessage]

/-- The two statements append alike. -/
theorem SameShape.appendAlike (h : SameShape context pair.statement pair.text)
    (hundisclosed : pair.Undisclosed context) :
    AppendAlike (pair.twins context) context pair.statement
      { pair.statement with text := pair.text } := by
  refine ⟨rfl, h.message, ?_⟩
  have htwins := h.forall₂
  rw [extractContextAtoms_retab, extractContextAtoms_retab { pair.statement with text := pair.text },
    List.forall₂_map_left_iff, List.forall₂_map_right_iff]
  rw [List.forall₂_iff_zip] at htwins ⊢
  refine ⟨htwins.1, fun {a a'} hmem ↦ ?_⟩
  obtain ⟨hshape, htwin⟩ := htwins.2 hmem
  have hrest := rest_eq_of_shape
    (extractContextAtoms_isExtracted _ a (List.of_mem_zip hmem).1)
    (extractContextAtoms_isExtracted _ a' (List.of_mem_zip hmem).2) rfl rfl hshape
    (hundisclosed.key_eq _ htwin)
  have hredacted : shouldRedact (appendedMessage context pair.statement).accessLabels := by
    simpa only [appendedMessage] using h.confidential
  refine ⟨?_, ?_, .inl hredacted⟩
  · simpa only [ContextAtomMeta.content] using htwin
  · rw [h.tab_eq]
    generalize normalizedTab _ = tab
    rw [← hrest]

end Append

/-! ### Runs -/

/-- No context statement renames its context. -/
theorem ContextStatement.execute_name {statement : ContextStatement}
    {context context' : ConversationContextMeta} {result : NativeQueryResult}
    (h : statement.execute context = .ok (context', result)) : context'.name = context.name := by
  cases statement with
  | append statement =>
    simp only [ContextStatement.execute, appendMemory] at h
    split at h
    · cases h
    · cases h
      rfl
  | tag statement =>
    simp only [ContextStatement.execute, tagMemory] at h
    split at h
    · cases h
    · cases h
      rfl
  | aliasTab statement =>
    cases h
    rfl
  | merge statement =>
    simp only [ContextStatement.execute, mergeTabs] at h
    cases h
    split <;> rfl

/-- The context has a message with this id. -/
def ConversationContextMeta.hasMessage (context : ConversationContextMeta) (id : UInt64) : Bool :=
  context.messages.any fun message ↦ message.id == id

/-- Retagging keeps the message ids. -/
theorem retagMessages_ids {context : ConversationContextMeta} {id : UInt64} {tab : Bytes}
    {messages messages' : List ContextMessageMeta}
    (h : retagMessages context id tab messages = some messages') :
    messages'.map (·.id) = messages.map (·.id) := by
  induction messages generalizing messages' with
  | nil => cases h
  | cons message messages ih =>
    unfold retagMessages at h
    split at h
    · cases h
      rfl
    · obtain ⟨rest, hrest, rfl⟩ := Option.map_eq_some_iff.1 h
      rw [List.map_cons, List.map_cons, ih hrest]

/-- No statement removes a message. -/
theorem ContextStatement.execute_hasMessage {statement : ContextStatement}
    {context context' : ConversationContextMeta} {result : NativeQueryResult}
    (h : statement.execute context = .ok (context', result)) {id : UInt64}
    (hid : context.hasMessage id) : context'.hasMessage id := by
  have hmap : ∀ {ms ms' : List ContextMessageMeta}, ms'.map (·.id) = ms.map (·.id) →
      (ms'.any fun m ↦ m.id == id) = ms.any fun m ↦ m.id == id := by
    intro ms ms' hids
    simpa [List.any_map, Function.comp_def] using congrArg (List.any · (· == id)) hids
  unfold ConversationContextMeta.hasMessage at hid ⊢
  cases statement with
  | append statement =>
    simp only [ContextStatement.execute, appendMemory] at h
    split at h
    · cases h
    · cases h
      rw [List.any_append, hid, Bool.true_or]
  | tag statement =>
    simp only [ContextStatement.execute, tagMemory] at h
    split at h
    · cases h
    · rename_i messages hretag
      cases h
      exact (hmap (retagMessages_ids hretag)).trans hid
  | aliasTab statement =>
    cases h
    exact hid
  | merge statement =>
    simp only [ContextStatement.execute, mergeTabs] at h
    cases h
    split
    · refine (hmap ?_).trans hid
      simp only [recomputeContextAtomStatus, mergedContext, setContextTabAlias, List.map_map]
      exact List.map_congr_left fun m _ ↦ by simp only [Function.comp_apply, mergeMessage]
    · exact hid

/-- Every context is stored under its name. -/
def PromptState.Named (state : PromptState) : Prop :=
  ∀ (name : Bytes) (context : ConversationContextMeta),
    state.catalog.contexts[name]? = some context → context.name = name

/-- Two states that differ in the redacted text of one context only, which has the message `id`. -/
structure StateAlike (twins : Content → Content → Prop) (name : Bytes) (id : UInt64)
    (σ σ' : PromptState) : Prop where
  revision_eq : σ.catalog.revision = σ'.catalog.revision
  cache_eq : σ.contextResultCache = σ'.contextResultCache
  others : ∀ n, n ≠ name → σ.catalog.contexts[n]? = σ'.catalog.contexts[n]?
  context : ∃ c c', σ.catalog.contexts[name]? = some c ∧ σ'.catalog.contexts[name]? = some c' ∧
    c.hasMessage id ∧ c.name = name ∧ Alike twins c c'
  named : ∀ n c, n ≠ name → σ.catalog.contexts[n]? = some c → c.name = n

section Runs

variable {twins : Content → Content → Prop} {name : Bytes} {id : UInt64} {σ σ' : PromptState}

/-- A context that is added is found under its name. -/
theorem getElem?_addContext (catalog : Catalog) (context : ConversationContextMeta) (n : Bytes) :
    (catalog.addContext context).contexts[n]? =
      if context.name = n then some context else catalog.contexts[n]? := by
  rw [Catalog.addContext, Std.ExtTreeMap.getElem?_insert]
  simp

/-- Alike contexts know the same message ids. -/
theorem alike_hasMessage {c c' : ConversationContextMeta} (h : Alike twins c c') (id : UInt64) :
    c.hasMessage id = c'.hasMessage id := by
  have hids := forall₂_map_eq (fun m m' hm ↦ hm.id_eq) h.messages
  simpa [ConversationContextMeta.hasMessage, List.any_map, Function.comp_def] using
    congrArg (List.any · (· == id)) hids

/-- Storing alike contexts under the name keeps states alike. -/
theorem StateAlike.addContext (h : StateAlike twins name id σ σ') {c c' : ConversationContextMeta}
    (hname : c.name = name) (hc : Alike twins c c') (hid : c.hasMessage id) :
    StateAlike twins name id ⟨σ.catalog.addContext c, ∅⟩ ⟨σ'.catalog.addContext c', ∅⟩ where
  revision_eq := by simp only [Catalog.addContext, h.revision_eq]
  cache_eq := rfl
  others n hn := by
    rw [getElem?_addContext, getElem?_addContext, ← hc.name_eq, hname, if_neg (Ne.symm hn),
      if_neg (Ne.symm hn), h.others n hn]
  context := by
    refine ⟨c, c', ?_, ?_, hid, hname, hc⟩
    · rw [getElem?_addContext, if_pos hname]
    · rw [getElem?_addContext, if_pos (hc.name_eq ▸ hname)]
  named n d hn hd := by
    rw [getElem?_addContext, hname, if_neg (Ne.symm hn)] at hd
    exact h.named n d hn hd

/-- Storing one context under another name keeps states alike. -/
theorem StateAlike.addOther (h : StateAlike twins name id σ σ') {c : ConversationContextMeta}
    (hname : c.name ≠ name) :
    StateAlike twins name id ⟨σ.catalog.addContext c, ∅⟩ ⟨σ'.catalog.addContext c, ∅⟩ where
  revision_eq := by simp only [Catalog.addContext, h.revision_eq]
  cache_eq := rfl
  others n hn := by
    rw [getElem?_addContext, getElem?_addContext, h.others n hn]
  context := by
    obtain ⟨d, d', hd, hd', hrest⟩ := h.context
    refine ⟨d, d', ?_, ?_, hrest⟩
    · rw [getElem?_addContext, if_neg hname, hd]
    · rw [getElem?_addContext, if_neg hname, hd']
  named n d hn hd := by
    rw [getElem?_addContext] at hd
    split at hd
    · rename_i hcn
      cases hd
      exact hcn
    · exact h.named n d hn hd

/-- A query gives the same answer in states that are alike. -/
theorem StateAlike.executeView (h : StateAlike twins name id σ σ') (query : ContextView)
    (hview : query.context = name → ∀ c c', Alike twins c c' → query.view c = query.view c') :
    (∃ e, σ.executeView query = .error e ∧ σ'.executeView query = .error e) ∨
      ∃ r τ τ', σ.executeView query = .ok (r, τ) ∧ σ'.executeView query = .ok (r, τ') ∧
        StateAlike twins name id τ τ' := by
  simp only [PromptState.executeView, h.revision_eq, h.cache_eq]
  generalize contextCacheKey σ'.catalog.revision query.parts = key
  split
  · exact .inr ⟨_, _, _, rfl, rfl, h⟩
  · have hstore : ∀ result, StateAlike twins name id
        { σ with contextResultCache := σ'.contextResultCache.insert key result }
        { σ' with contextResultCache := σ'.contextResultCache.insert key result } := fun result ↦
      { revision_eq := h.revision_eq
        cache_eq := rfl
        others := h.others
        context := h.context
        named := h.named }
    by_cases hname : query.context = name
    · obtain ⟨c, c', hc, hc', -, -, halike⟩ := h.context
      rw [hname, hc, hc']
      simp only [hview hname c c' halike]
      exact .inr ⟨_, _, _, rfl, rfl, hstore _⟩
    · rw [h.others _ hname]
      split
      · exact .inl ⟨_, rfl, rfl⟩
      · exact .inr ⟨_, _, _, rfl, rfl, hstore _⟩

/-- A statement that fails on its context fails. -/
theorem executeChange_of_error {s : ContextStatement} {c : ConversationContextMeta} {e : Error}
    (hc : σ.catalog.contexts[s.context]? = some c) (hs : s.execute c = .error e) :
    σ.executeChange s = .error e := by
  simp only [PromptState.executeChange, hc, hs]
  rfl

/-- A statement that succeeds stores its context and clears the cache. -/
theorem executeChange_of_ok {s : ContextStatement} {c d : ConversationContextMeta}
    {r : NativeQueryResult} (hc : σ.catalog.contexts[s.context]? = some c)
    (hs : s.execute c = .ok (d, r)) :
    σ.executeChange s = .ok (r, ⟨σ.catalog.addContext d, ∅⟩) := by
  simp only [PromptState.executeChange, hc, hs]
  rfl

theorem step_of_error {s : ContextStatement} {e : Error} (h : σ.executeChange s = .error e) :
    σ.step (.change s) = σ := by
  simp only [PromptState.step, PromptState.execute, h]

theorem step_of_ok {s : ContextStatement} {r : NativeQueryResult} {τ : PromptState}
    (h : σ.executeChange s = .ok (r, τ)) : σ.step (.change s) = τ := by
  simp only [PromptState.step, PromptState.execute, h]

/-- Statements whose outcomes on the context are alike keep states alike. -/
theorem StateAlike.executeChange (h : StateAlike twins name id σ σ') {s s' : ContextStatement}
    (hcontext : s.context = s'.context) (hother : s.context ≠ name → s = s')
    (hname : s.context = name → ∀ c c', c.hasMessage id → Alike twins c c' →
      OutcomeAlike twins (s.execute c) (s'.execute c')) :
    (∃ e e', σ.executeChange s = .error e ∧ σ'.executeChange s' = .error e') ∨
      ∃ r r' τ τ', σ.executeChange s = .ok (r, τ) ∧ σ'.executeChange s' = .ok (r', τ') ∧
        StateAlike twins name id τ τ' := by
  by_cases hcase : s.context = name
  · obtain ⟨c, c', hc, hc', hid, hcname, halike⟩ := h.context
    have houtcome := hname hcase c c' hid halike
    rw [← hcase] at hc
    rw [← hcase, hcontext] at hc'
    rcases hs : s.execute c with e | ⟨d, r⟩ <;> rcases hs' : s'.execute c' with e' | ⟨d', r'⟩ <;>
      rw [hs, hs'] at houtcome
    · exact .inl ⟨e, e', executeChange_of_error hc hs, executeChange_of_error hc' hs'⟩
    · exact houtcome.elim
    · exact houtcome.elim
    · exact .inr ⟨r, r', _, _, executeChange_of_ok hc hs, executeChange_of_ok hc' hs',
        h.addContext ((s.execute_name hs).trans hcname) houtcome (s.execute_hasMessage hs hid)⟩
  -- Another context is the same in both states, and so is what the statement makes of it.
  · obtain rfl := hother hcase
    have hcontexts := h.others _ hcase
    cases hc : σ.catalog.contexts[s.context]? with
    | none =>
      refine .inl ⟨lit "Unknown context: " ++ s.context, lit "Unknown context: " ++ s.context, ?_, ?_⟩
      · simp only [PromptState.executeChange, hc]
        rfl
      · simp only [PromptState.executeChange, ← hcontexts, hc]
        rfl
    | some c =>
      rcases hs : s.execute c with e | ⟨d, r⟩
      · exact .inl ⟨e, e, executeChange_of_error hc hs,
          executeChange_of_error (hcontexts ▸ hc) hs⟩
      · have hdname : d.name ≠ name := by
          rw [s.execute_name hs, h.named _ c hcase hc]
          exact hcase
        exact .inr ⟨r, r, _, _, executeChange_of_ok hc hs,
          executeChange_of_ok (hcontexts ▸ hc) hs, h.addOther hdname⟩

/-- Creating a context fails in both states or leaves them alike. -/
theorem StateAlike.executeCreateContext (h : StateAlike twins name id σ σ') (n : Bytes) :
    (∃ e e', σ.executeCreateContext n = .error e ∧ σ'.executeCreateContext n = .error e') ∨
      ∃ r r' τ τ', σ.executeCreateContext n = .ok (r, τ) ∧
        σ'.executeCreateContext n = .ok (r', τ') ∧ StateAlike twins name id τ τ' := by
  have hmem : n ∈ σ.catalog.contexts ↔ n ∈ σ'.catalog.contexts := by
    rw [← Std.ExtTreeMap.isSome_getElem?_iff_mem, ← Std.ExtTreeMap.isSome_getElem?_iff_mem]
    by_cases hn : n = name
    · obtain ⟨c, c', hc, hc', -⟩ := h.context
      rw [hn, hc, hc']
      exact Iff.rfl
    · rw [h.others n hn]
  unfold PromptState.executeCreateContext
  by_cases hn : n ∈ σ.catalog.contexts
  · rw [if_pos hn, if_pos (hmem.1 hn)]
    exact .inl ⟨_, _, rfl, rfl⟩
  · have hne : n ≠ name := by
      rintro rfl
      obtain ⟨c, -, hc, -⟩ := h.context
      exact hn (Std.ExtTreeMap.isSome_getElem?_iff_mem.1 (by rw [hc]; rfl))
    rw [if_neg hn, if_neg fun hn' ↦ hn (hmem.2 hn')]
    exact .inr ⟨_, _, _, _, rfl, rfl, h.addOther hne⟩

end Runs

section Pairs

variable {pair : ConfidentialPair} {context : ConversationContextMeta} {σ σ' : PromptState}

/-- The two states after the append. -/
abbrev ConfidentialPair.StateAlike (pair : ConfidentialPair) (context : ConversationContextMeta) :
    PromptState → PromptState → Prop :=
  SkibidiQL.StateAlike (pair.twins context) pair.statement.context pair.statement.messageId

/-- A message id is used once. -/
theorem appendMemory_of_hasMessage {c : ConversationContextMeta} {s : AppendMemoryStmt}
    (h : c.hasMessage s.messageId) :
    appendMemory c s = .error (lit "Duplicate context message id: " ++ ofNat s.messageId.toNat) := by
  unfold ConversationContextMeta.hasMessage at h
  simp only [appendMemory, h, if_true]
  rfl

/-- One statement after the append. -/
theorem ConfidentialPair.StateAlike.step (hundisclosed : pair.Undisclosed context)
    (hshape : SameShape context pair.statement pair.text) (h : pair.StateAlike context σ σ')
    {statement : PromptStatement} (hmem : statement ∈ pair.after) :
    (statement.isQuery → σ.answer statement = σ'.answer statement) ∧
      pair.StateAlike context (σ.step statement) (σ'.step statement) := by
  have hindistinct := hundisclosed.indistinct hshape
  -- A view answers alike and leaves alike states; a change leaves alike states, failed or not.
  have hquery : ∀ query : ContextView,
      (query.context = pair.statement.context → ∀ c c', Alike (pair.twins context) c c' →
        query.view c = query.view c') →
      (∀ τ : PromptState, τ.execute statement = τ.executeView query) →
      σ.answer statement = σ'.answer statement ∧
        pair.StateAlike context (σ.step statement) (σ'.step statement) := by
    intro query hview hexecute
    unfold PromptState.answer PromptState.step
    rw [hexecute, hexecute]
    rcases SkibidiQL.StateAlike.executeView h query hview with
      ⟨e, he, he'⟩ | ⟨r, τ, τ', hr, hr', hτ⟩
    · rw [he, he']
      exact ⟨rfl, h⟩
    · rw [hr, hr']
      exact ⟨rfl, hτ⟩
  have hchange : ∀ {x x' : Except Error (NativeQueryResult × PromptState)},
      (∃ e e', x = .error e ∧ x' = .error e') ∨
        (∃ r r' τ τ', x = .ok (r, τ) ∧ x' = .ok (r', τ') ∧ pair.StateAlike context τ τ') →
      σ.execute statement = x → σ'.execute statement = x' →
      pair.StateAlike context (σ.step statement) (σ'.step statement) := by
    rintro x x' hxx' hx hx'
    unfold PromptState.step
    rw [hx, hx']
    rcases hxx' with ⟨e, e', rfl, rfl⟩ | ⟨r, r', τ, τ', rfl, rfl, hτ⟩
    · exact h
    · exact hτ
  have hutility : ∀ query ∈ pair.laterQueries, ∀ d d', pair.twins context d d' →
      d.utility (lowerText query) = d'.utility (lowerText query) :=
    fun query hq d d' hd ↦ hundisclosed.utility_eq (d, d') hd query hq
  cases statement with
  | create name => exact ⟨nofun, hchange (h.executeCreateContext name) rfl rfl⟩
  | change s =>
    refine ⟨nofun, hchange (h.executeChange rfl (fun _ ↦ rfl) fun hcontext c c' hid halike ↦ ?_)
      rfl rfl⟩
    cases s with
    | append t =>
      by_cases hsame : t.messageId = pair.statement.messageId
      · -- the id is taken in both contexts
        have hid' := alike_hasMessage halike pair.statement.messageId ▸ hid
        show OutcomeAlike _ (appendMemory c t) (appendMemory c' t)
        rw [appendMemory_of_hasMessage (hsame ▸ hid), appendMemory_of_hasMessage (hsame ▸ hid')]
        trivial
      -- A later text is the same in both runs, so what it says is among the contents that are their own twins.
      · refine execute_alike hindistinct halike _ fun u hu a ha ↦ ?_
        cases hu
        refine ConfidentialPair.twins_self (List.mem_append_right _ (List.mem_flatMap.2 ⟨_, hmem, ?_⟩))
        rw [ConfidentialPair.laterContents, if_pos ⟨hcontext, hsame⟩,
          ← extractedContents_retab t (appendedMessage c t).tab]
        exact List.mem_map_of_mem (f := ContextAtomMeta.content) ha
    | tag t => exact tagMemory_alike hindistinct halike t
    | aliasTab t => exact execute_alike hindistinct halike _ nofun
    | merge t => exact mergeTabs_alike hindistinct halike t
  | spill q =>
    obtain ⟨hanswer, hstep⟩ := hquery (spillView q)
      (fun hcontext c c' halike ↦ spillContext_eq hindistinct halike
        (hutility q.query (List.mem_filterMap.2 ⟨_, hmem, if_pos hcontext⟩))) fun _ ↦ rfl
    exact ⟨fun _ ↦ hanswer, hstep⟩
  | explain q =>
    obtain ⟨hanswer, hstep⟩ := hquery (explainView q)
      (fun hcontext c c' halike ↦ explainContext_eq hindistinct halike
        (hutility q.query (List.mem_filterMap.2 ⟨_, hmem, if_pos hcontext⟩))) fun _ ↦ rfl
    exact ⟨fun _ ↦ hanswer, hstep⟩
  | showObjects n =>
    obtain ⟨hanswer, hstep⟩ := hquery (objectsView n)
      (fun _ c c' halike ↦ showContextObjects_eq halike) fun _ ↦ rfl
    exact ⟨fun _ ↦ hanswer, hstep⟩

/-- All statements after the append. -/
theorem ConfidentialPair.StateAlike.answers_eq (hundisclosed : pair.Undisclosed context)
    (hshape : SameShape context pair.statement pair.text) {statements : List PromptStatement}
    (hsub : ∀ statement ∈ statements, statement ∈ pair.after)
    (h : pair.StateAlike context σ σ') : σ.answers statements = σ'.answers statements := by
  induction statements generalizing σ σ' with
  | nil => rfl
  | cons statement statements ih =>
    obtain ⟨hanswer, hstep⟩ := h.step hundisclosed hshape (hsub statement List.mem_cons_self)
    have hrest := ih (fun s hs ↦ hsub s (List.mem_cons_of_mem _ hs)) hstep
    unfold PromptState.answers
    split
    · rename_i hquery
      rw [hanswer hquery, hrest]
    · exact hrest

end Pairs

/-! ### Names -/

/-- Contexts stay under their names when one is added. -/
theorem PromptState.Named.addContext {σ : PromptState} (h : σ.Named)
    (context : ConversationContextMeta) (cache : NameMap NativeQueryResult) :
    PromptState.Named ⟨σ.catalog.addContext context, cache⟩ := by
  intro n d hd
  rw [getElem?_addContext] at hd
  split at hd
  · rename_i hname
    cases hd
    exact hname
  · exact h n d hd

/-- Contexts stay under their names when a view is rendered. -/
theorem PromptState.Named.executeView {σ τ : PromptState} (h : σ.Named) {query : ContextView}
    {r : NativeQueryResult} (hexecute : σ.executeView query = .ok (r, τ)) : τ.Named := by
  unfold PromptState.executeView at hexecute
  dsimp only at hexecute
  split at hexecute
  · cases hexecute
    exact h
  · split at hexecute <;> cases hexecute
    exact h

/-- Contexts stay under their names after a statement. -/
theorem PromptState.Named.step {σ : PromptState} (h : σ.Named) (statement : PromptStatement) :
    (σ.step statement).Named := by
  unfold PromptState.step
  split
  case h_2 => exact h
  case h_1 r τ hexecute =>
    cases statement with
    | create name =>
      simp only [PromptState.execute, PromptState.executeCreateContext] at hexecute
      split at hexecute <;> cases hexecute
      exact h.addContext _ _
    | change s =>
      simp only [PromptState.execute] at hexecute
      cases hc : σ.catalog.contexts[s.context]? with
      | none =>
        simp only [PromptState.executeChange, hc] at hexecute
        cases hexecute
      | some c =>
        rcases hs : s.execute c with e | ⟨d, r⟩
        · rw [executeChange_of_error hc hs] at hexecute
          cases hexecute
        · rw [executeChange_of_ok hc hs] at hexecute
          cases hexecute
          exact h.addContext _ _
    | spill q => exact h.executeView hexecute
    | explain q => exact h.executeView hexecute
    | showObjects n => exact h.executeView hexecute

/-- Contexts stay under their names after every run. -/
theorem PromptState.Named.run {σ : PromptState} (h : σ.Named) (statements : List PromptStatement) :
    (σ.run statements).Named := by
  induction statements generalizing σ with
  | nil => exact h
  | cons statement statements ih => exact ih (h.step statement)

theorem PromptState.named_empty : PromptState.Named {} := by
  intro n c hc
  simp at hc

/-! ### The two runs -/

/-- The answers of a run are those of its first part and then those of the rest. -/
theorem PromptState.answers_append (σ : PromptState) (before after : List PromptStatement) :
    σ.answers (before ++ after) = σ.answers before ++ (σ.run before).answers after := by
  induction before generalizing σ with
  | nil => rfl
  | cons statement before ih =>
    rw [List.cons_append, PromptState.answers, PromptState.answers, ih]
    split <;> rfl

/-- The views of two runs with comparable confidential texts are equal when neither the keys nor the
comparisons tell the texts apart. -/
theorem answers_eq_of_undisclosed (pair : ConfidentialPair) (hcomparable : pair.Comparable)
    (hundisclosed : ∀ context ∈ pair.context?, pair.Undisclosed context) :
    PromptState.answers {} pair.first = PromptState.answers {} pair.second := by
  rw [ConfidentialPair.first, ConfidentialPair.second, PromptState.answers_append,
    PromptState.answers_append]
  -- Both runs are the same up to the append, so only the answers behind it are compared.
  congr 1
  have hnamed := PromptState.named_empty.run pair.before
  generalize hσ : PromptState.run {} pair.before = σ at hnamed
  have hcontext : pair.context? = σ.catalog.contexts[pair.statement.context]? := by
    rw [ConfidentialPair.context?, hσ]
  set s : ContextStatement := .append pair.statement with hs
  set s' : ContextStatement := .append { pair.statement with text := pair.text } with hs'
  show (σ.step (.change s)).answers pair.after = (σ.step (.change s')).answers pair.after
  have hthrow : ∀ e e', σ.executeChange s = .error e → σ.executeChange s' = .error e' →
      (σ.step (.change s)).answers pair.after = (σ.step (.change s')).answers pair.after := by
    intro e e' he he'
    rw [step_of_error he, step_of_error he']
  cases hc : σ.catalog.contexts[pair.statement.context]? with
  | none =>
    have hnone : ∀ t : ContextStatement, t.context = pair.statement.context →
        σ.executeChange t = .error (lit "Unknown context: " ++ t.context) := by
      intro t ht
      simp only [PromptState.executeChange, ht, hc]
      rfl
    exact hthrow _ _ (hnone s rfl) (hnone s' rfl)
  | some c =>
    have hshape := hcomparable.sameShape c (hcontext.trans hc)
    have hsecret := hundisclosed c (hcontext.trans hc)
    by_cases hid : c.hasMessage pair.statement.messageId
    · exact hthrow _ _ (executeChange_of_error (s := s) hc (appendMemory_of_hasMessage hid))
        (executeChange_of_error (s := s') hc (appendMemory_of_hasMessage hid))
    -- The context before the append is alike to itself, and the two appends keep that.
    · have hself : Alike (pair.twins c) c c :=
        { name_eq := rfl
          tabAliases_eq := rfl
          messages := List.forall₂_same.2 fun m _ ↦ ⟨rfl, rfl, .inr rfl⟩
          atoms := List.forall₂_same.2 fun a ha ↦ ⟨ConfidentialPair.twins_self
            (List.mem_append_left _ (List.mem_map_of_mem ha)), rfl, .inr ⟨rfl, rfl⟩⟩ }
      have houtcome := appendMemory_alike (hsecret.indistinct hshape) hself
        (hshape.appendAlike hsecret)
      have hok : ∀ t : AppendMemoryStmt, t.messageId = pair.statement.messageId →
          ∃ d r, appendMemory c t = .ok (d, r) ∧ d.hasMessage t.messageId := by
        intro t ht
        unfold ConversationContextMeta.hasMessage at hid
        refine ⟨_, _, by simp only [appendMemory, ht, hid]; rfl, ?_⟩
        simp [ConversationContextMeta.hasMessage, appendedMessage]
      obtain ⟨d, r, hd, hdid⟩ := hok pair.statement rfl
      obtain ⟨d', r', hd', -⟩ := hok { pair.statement with text := pair.text } rfl
      rw [hd, hd'] at houtcome
      have hexecute : s.execute c = .ok (d, r) := hd
      have hdname : d.name = pair.statement.context :=
        (ContextStatement.execute_name hexecute).trans (hnamed _ c hc)
      have hdname' : d'.name = pair.statement.context := houtcome.name_eq ▸ hdname
      rw [step_of_ok (executeChange_of_ok (s := s) hc hd),
        step_of_ok (executeChange_of_ok (s := s') hc hd')]
      refine ConfidentialPair.StateAlike.answers_eq hsecret hshape (fun _ h ↦ h) ?_
      exact
        { revision_eq := rfl
          cache_eq := rfl
          others := fun n hn ↦ by
            rw [getElem?_addContext, getElem?_addContext, hdname, hdname', if_neg (Ne.symm hn),
              if_neg (Ne.symm hn)]
          context := ⟨d, d', by rw [getElem?_addContext, if_pos hdname],
            by rw [getElem?_addContext, if_pos hdname'], hdid, hdname, houtcome⟩
          named := fun n e hn he ↦ by
            rw [getElem?_addContext, hdname, if_neg (Ne.symm hn)] at he
            exact hnamed n e he }

/-- Two versions of a decision whose first words agree, and three queries. -/
def pricedDecision : ConfidentialPair where
  before := [.create (lit "c")]
  statement := { context := lit "c", messageId := 1, speaker := lit "user"
                 text := lit "decision: secret price cap set alpha"
                 tab := lit "main" }
  text := lit "decision: secret price cap set gamma"
  after := [.spill { context := lit "c", query := lit "why" },
    .explain { context := lit "c", query := lit "why" }, .showObjects (lit "c")]

/-- Two texts of one shape whose every difference is redacted are answered alike. -/
theorem pricedDecision_answers_eq :
    PromptState.answers {} pricedDecision.first = PromptState.answers {} pricedDecision.second := by
  have h : pricedDecision.Comparable ∧
      ∀ context ∈ pricedDecision.context?, pricedDecision.Undisclosed context := by decide +kernel
  exact answers_eq_of_undisclosed pricedDecision h.1 h.2

/-- Two versions of a decision whose first words differ. -/
def namedDecision : ConfidentialPair where
  before := [.create (lit "c")]
  statement := { context := lit "c", messageId := 1, speaker := lit "user"
                 text := lit "decision: secret alpha!", tab := lit "main" }
  text := lit "decision: secret gamma!"
  after := [.showObjects (lit "c")]

/-- The key of a decision quotes the confidential text. -/
theorem confidential_key_disclosed :
    ¬∀ pair : ConfidentialPair, pair.Comparable →
      PromptState.answers {} pair.first = PromptState.answers {} pair.second := by
  intro h
  have hdiffer : namedDecision.Comparable ∧
      PromptState.answers {} namedDecision.first ≠ PromptState.answers {} namedDecision.second := by
    decide +kernel
  exact hdiffer.2 (h namedDecision hdiffer.1)

end SkibidiQL
