import SkibidiQL.Prompt.Views
import Mathlib.Data.List.Forall2

/-!
# Contexts that differ in redacted text

Two contexts are `Alike` when they differ in the text of confidential messages and in the values and
snippets of confidential atoms only, and no comparison that the statements make tells the differences
apart (`Indistinct`): which values of one key are equal, which diversity keys are equal, and how useful
an atom is to a query. The views of two such contexts are equal, and every statement keeps contexts
alike.
-/

namespace SkibidiQL

open Bytes

/-- What of an atom is computed from the text of its message. -/
structure Content where
  type : Bytes
  key : Bytes
  value : Bytes
deriving DecidableEq

/-- The content of an atom. -/
def ContextAtomMeta.content (atom : ContextAtomMeta) : Content :=
  ⟨atom.type, atom.key, atom.value⟩

/-- The diversity key of an atom with this content. -/
def Content.diversityKey (c : Content) : Bytes :=
  contextAtomDiversityKey { type := c.type, key := c.key, value := c.value }

/-- The utility of an atom with this content. -/
def Content.utility (c : Content) (lowerQuery : Bytes) : Nat :=
  contextAtomUtilityLower { type := c.type, key := c.key, value := c.value } lowerQuery

/-- No comparison that the statements make tells paired contents apart. -/
structure Indistinct (twins : Content → Content → Prop) : Prop where
  type_eq : ∀ c c', twins c c' → c.type = c'.type
  key_eq : ∀ c c', twins c c' → c.key = c'.key
  value_iff : ∀ c c' d d', twins c c' → twins d d' → c.key = d.key →
    (c.value = d.value ↔ c'.value = d'.value)
  diversity_iff : ∀ c c' d d', twins c c' → twins d d' →
    (c.diversityKey = d.diversityKey ↔ c'.diversityKey = d'.diversityKey)

/-- Paired atoms: equal but for their values and snippets, which differ only under a confidential
label. -/
structure AtomAlike (twins : Content → Content → Prop) (a a' : ContextAtomMeta) : Prop where
  twins : twins a.content a'.content
  rest_eq : { a with value := a'.value, originalSnippet := a'.originalSnippet } = a'
  redacted : shouldRedact a.accessLabels ∨
    (a.value = a'.value ∧ a.originalSnippet = a'.originalSnippet)

/-- Paired messages: equal but for their texts, which differ only under a confidential label, and the
reasons of their tags, which no view shows. -/
structure MessageAlike (m m' : ContextMessageMeta) : Prop where
  rest_eq : { m with text := m'.text, tagReasons := m'.tagReasons } = m'
  length_eq : m.text.length = m'.text.length
  redacted : shouldRedact m.accessLabels ∨ m.text = m'.text

/-- Contexts that differ in redacted text only. -/
structure Alike (twins : Content → Content → Prop) (c c' : ConversationContextMeta) : Prop where
  name_eq : c.name = c'.name
  tabAliases_eq : c.tabAliases = c'.tabAliases
  messages : List.Forall₂ MessageAlike c.messages c'.messages
  atoms : List.Forall₂ (AtomAlike twins) c.atoms c'.atoms

variable {twins : Content → Content → Prop}

/-! ### Paired atoms and messages -/

section Fields

variable {a a' : ContextAtomMeta} (h : AtomAlike twins a a')

include h

theorem AtomAlike.key_eq : a.key = a'.key := (congrArg ContextAtomMeta.key h.rest_eq :)

theorem AtomAlike.type_eq : a.type = a'.type := (congrArg ContextAtomMeta.type h.rest_eq :)

theorem AtomAlike.tab_eq : a.tab = a'.tab := (congrArg ContextAtomMeta.tab h.rest_eq :)

theorem AtomAlike.tags_eq : a.tags = a'.tags := (congrArg ContextAtomMeta.tags h.rest_eq :)

theorem AtomAlike.status_eq : a.status = a'.status := (congrArg ContextAtomMeta.status h.rest_eq :)

theorem AtomAlike.source_eq : a.source = a'.source := (congrArg ContextAtomMeta.source h.rest_eq :)

theorem AtomAlike.invalidatedBy_eq : a.invalidatedBy = a'.invalidatedBy :=
  (congrArg ContextAtomMeta.invalidatedBy h.rest_eq :)

theorem AtomAlike.accessLabels_eq : a.accessLabels = a'.accessLabels :=
  (congrArg ContextAtomMeta.accessLabels h.rest_eq :)

/-- A redacted value shows no difference. -/
theorem AtomAlike.redact_value :
    redactIfNeeded a.value a.accessLabels = redactIfNeeded a'.value a'.accessLabels := by
  rw [← h.accessLabels_eq]
  rcases h.redacted with hredacted | ⟨hvalue, -⟩
  · simp [redactIfNeeded, hredacted]
  · rw [hvalue]

/-- Alike atoms are rendered alike, redacted or not. -/
theorem AtomAlike.render (receipts : Bool) :
    renderContextAtom a receipts = renderContextAtom a' receipts := by
  have hvalue := h.redact_value
  have hrest : renderContextAtom
      { a with value := a'.value, originalSnippet := a'.originalSnippet } receipts =
      renderContextAtom a' receipts := by rw [h.rest_eq]
  rw [← hrest]
  simp only [renderContextAtom]
  rw [hvalue, ← h.accessLabels_eq]

/-- Updating both atoms in a way that depends on neither value keeps them paired. -/
theorem AtomAlike.update {f : ContextAtomMeta → ContextAtomMeta}
    (hcontent : ∀ b, (f b).content = b.content) (hlabels : ∀ b, (f b).accessLabels = b.accessLabels)
    (hsnippet : ∀ b, (f b).originalSnippet = b.originalSnippet)
    (hf : ∀ b v s, f { b with value := v, originalSnippet := s } =
      { f b with value := v, originalSnippet := s }) : AtomAlike twins (f a) (f a') := by
  have hvalue : ∀ b, (f b).value = b.value := fun b ↦ congrArg Content.value (hcontent b)
  refine ⟨by rw [hcontent, hcontent]; exact h.twins, ?_, ?_⟩
  · rw [hvalue, hsnippet, ← hf, h.rest_eq]
  · rw [hlabels, hvalue, hvalue, hsnippet, hsnippet]
    exact h.redacted

end Fields

theorem MessageAlike.tab_eq {m m' : ContextMessageMeta} (h : MessageAlike m m') : m.tab = m'.tab :=
  (congrArg ContextMessageMeta.tab h.rest_eq :)

theorem MessageAlike.tags_eq {m m' : ContextMessageMeta} (h : MessageAlike m m') :
    m.tags = m'.tags :=
  (congrArg ContextMessageMeta.tags h.rest_eq :)

theorem MessageAlike.id_eq {m m' : ContextMessageMeta} (h : MessageAlike m m') : m.id = m'.id :=
  (congrArg ContextMessageMeta.id h.rest_eq :)

theorem MessageAlike.accessLabels_eq {m m' : ContextMessageMeta} (h : MessageAlike m m') :
    m.accessLabels = m'.accessLabels :=
  (congrArg ContextMessageMeta.accessLabels h.rest_eq :)

theorem MessageAlike.mentionedEntities_eq {m m' : ContextMessageMeta} (h : MessageAlike m m') :
    m.mentionedEntities = m'.mentionedEntities :=
  (congrArg ContextMessageMeta.mentionedEntities h.rest_eq :)

/-! ### Paired lists -/

section Lists

variable {α β γ : Type*} {R : α → β → Prop}

/-- A filter that cannot tell related elements apart keeps lists related. -/
theorem forall₂_filter {p : α → Bool} {q : β → Bool} (hpq : ∀ a b, R a b → p a = q b)
    {as : List α} {bs : List β} (h : List.Forall₂ R as bs) :
    List.Forall₂ R (as.filter p) (bs.filter q) := by
  induction h with
  | nil => exact .nil
  | @cons a b as bs hab _ ih =>
    rw [List.filter_cons, List.filter_cons, hpq a b hab]
    split
    · exact .cons hab ih
    · exact ih

/-- A function that cannot tell related elements apart gives equal lists. -/
theorem forall₂_map_eq {f : α → γ} {g : β → γ} (hfg : ∀ a b, R a b → f a = g b)
    {as : List α} {bs : List β} (h : List.Forall₂ R as bs) : as.map f = bs.map g := by
  induction h with
  | nil => rfl
  | cons hab _ ih => rw [List.map_cons, List.map_cons, hfg _ _ hab, ih]

/-- A fold that cannot tell related elements apart gives the same result. -/
theorem forall₂_foldl_eq {f : γ → α → γ} {g : γ → β → γ} (hfg : ∀ c a b, R a b → f c a = g c b)
    {as : List α} {bs : List β} (h : List.Forall₂ R as bs) (c : γ) :
    as.foldl f c = bs.foldl g c := by
  induction h generalizing c with
  | nil => rfl
  | cons hab _ ih => rw [List.foldl_cons, List.foldl_cons, hfg c _ _ hab, ih]

/-- Related lists have as many elements of a kind. -/
theorem forall₂_countP_eq {p : α → Bool} {q : β → Bool} (hpq : ∀ a b, R a b → p a = q b)
    {as : List α} {bs : List β} (h : List.Forall₂ R as bs) : as.countP p = bs.countP q := by
  rw [List.countP_eq_length_filter, List.countP_eq_length_filter]
  exact (forall₂_filter hpq h).length_eq

/-- Numbering keeps lists related, with the same numbers. -/
theorem forall₂_zipIdx {as : List α} {bs : List β} (h : List.Forall₂ R as bs) (n : Nat) :
    List.Forall₂ (fun x y ↦ R x.1 y.1 ∧ x.2 = y.2) (as.zipIdx n) (bs.zipIdx n) := by
  induction h generalizing n with
  | nil => exact .nil
  | cons hab _ ih => exact .cons ⟨hab, rfl⟩ (ih (n + 1))

/-- Sorting keeps lists related when the order cannot tell related elements apart. -/
theorem forall₂_insertionSort {r : α → α → Prop} {s : β → β → Prop} [DecidableRel r]
    [DecidableRel s] (hrs : ∀ a b a' b', R a b → R a' b' → (r a a' ↔ s b b'))
    {as : List α} {bs : List β} (h : List.Forall₂ R as bs) :
    List.Forall₂ R (as.insertionSort r) (bs.insertionSort s) := by
  have horderedInsert : ∀ {a b} {as : List α} {bs : List β}, R a b → List.Forall₂ R as bs →
      List.Forall₂ R (as.orderedInsert r a) (bs.orderedInsert s b) := by
    intro a b as bs hab h
    induction h with
    | nil => exact .cons hab .nil
    | @cons x y xs ys hxy hrest ih =>
      rw [List.orderedInsert_cons, List.orderedInsert_cons]
      by_cases hr : r a x
      · rw [if_pos hr, if_pos ((hrs a b x y hab hxy).1 hr)]
        exact .cons hab (.cons hxy hrest)
      · rw [if_neg hr, if_neg fun hs ↦ hr ((hrs a b x y hab hxy).2 hs)]
        exact .cons hxy ih
  induction h with
  | nil => exact .nil
  | cons hab _ ih => exact horderedInsert hab ih

end Lists

/-! ### Equal views -/

section Views

variable {c c' : ConversationContextMeta} (h : Alike twins c c')

include h

theorem Alike.resolve_eq (tab : Bytes) : resolveContextTab c tab = resolveContextTab c' tab := by
  rw [resolveContextTab, resolveContextTab, h.tabAliases_eq]

/-- Alike contexts put the same messages and atoms into a tab. -/
theorem Alike.matchesTab_eq (tab : Bytes) (tags : List Bytes) (tabFilter : Bytes) :
    contextMatchesTab c tab tags tabFilter = contextMatchesTab c' tab tags tabFilter := by
  simp only [contextMatchesTab, h.resolve_eq]

theorem Alike.tabFilterOf_eq (tab : Bytes) : tabFilterOf c tab = tabFilterOf c' tab := by
  simp only [tabFilterOf, h.resolve_eq]

theorem Alike.matchingMessages (tabFilter : Bytes) :
    List.Forall₂ MessageAlike (matchingMessages c tabFilter) (matchingMessages c' tabFilter) :=
  forall₂_filter (fun m m' hm ↦ by rw [h.matchesTab_eq, hm.tab_eq, hm.tags_eq]) h.messages

/-- The atoms of a tab are alike and have the same positions. -/
theorem Alike.matchingAtoms (tabFilter : Bytes) :
    List.Forall₂ (fun x y ↦ AtomAlike twins x.1 y.1 ∧ x.2 = y.2)
      (matchingAtoms c tabFilter) (matchingAtoms c' tabFilter) :=
  forall₂_filter (fun x y hxy ↦ by rw [h.matchesTab_eq, hxy.1.tab_eq, hxy.1.tags_eq])
    (forall₂_zipIdx h.atoms 0)

/-- The labels shown are the same. -/
theorem Alike.visibleLabels_eq (tabFilter : Bytes) :
    visibleLabels c tabFilter = visibleLabels c' tabFilter := by
  have hmessages := forall₂_foldl_eq
    (f := fun labels (m : ContextMessageMeta) ↦ m.accessLabels.foldl addUnique labels)
    (fun labels m m' hm ↦ by rw [hm.accessLabels_eq]) (h.matchingMessages tabFilter) []
  simp only [visibleLabels, hmessages]
  exact forall₂_foldl_eq (fun labels x y hxy ↦ by rw [hxy.1.accessLabels_eq])
    (h.matchingAtoms tabFilter) _

theorem Alike.visibleEntities_eq (tabFilter : Bytes) :
    visibleEntities c tabFilter = visibleEntities c' tabFilter :=
  forall₂_foldl_eq (fun entities m m' hm ↦ by rw [hm.mentionedEntities_eq])
    (h.matchingMessages tabFilter) _

end Views

/-- Paired candidates. -/
def RankedAlike (twins : Content → Content → Prop) (r r' : RankedAtom) : Prop :=
  AtomAlike twins r.atom r'.atom ∧ r.utility = r'.utility ∧ r.ordinal = r'.ordinal

/-- A further candidate keeps the selection alike. -/
theorem addCandidate_alike (htwins : Indistinct twins) {r r' : RankedAtom}
    (hr : RankedAlike twins r r') {active active' : List RankedAtom}
    (h : List.Forall₂ (RankedAlike twins) active active') :
    List.Forall₂ (RankedAlike twins) (addCandidate r active) (addCandidate r' active') := by
  induction h with
  | nil => exact .cons hr .nil
  | @cons x y xs ys hxy hrest ih =>
    have hdiversity : contextAtomDiversityKey x.atom = contextAtomDiversityKey r.atom ↔
        contextAtomDiversityKey y.atom = contextAtomDiversityKey r'.atom :=
      htwins.diversity_iff _ _ _ _ hxy.1.twins hr.1.twins
    have hbeats : r.beats x = r'.beats y := by
      simp only [RankedAtom.beats, hr.2.1, hr.2.2, hxy.2.1, hxy.2.2]
    unfold addCandidate
    by_cases hsame : contextAtomDiversityKey x.atom = contextAtomDiversityKey r.atom
    · rw [if_pos hsame, if_pos (hdiversity.1 hsame), hbeats]
      refine .cons ?_ hrest
      split
      · exact hr
      · exact hxy
    · rw [if_neg hsame, if_neg fun hsame' ↦ hsame (hdiversity.2 hsame')]
      exact .cons hxy ih

/-- The ranked atoms are alike where the query ranks the twins alike. -/
theorem rankedAtoms_alike (htwins : Indistinct twins) {c c' : ConversationContextMeta}
    (h : Alike twins c c') (tabFilter : Bytes) {lowerQuery : Bytes}
    (hutility : ∀ d d', twins d d' → d.utility lowerQuery = d'.utility lowerQuery) :
    List.Forall₂ (RankedAlike twins) (rankedAtoms c tabFilter lowerQuery)
      (rankedAtoms c' tabFilter lowerQuery) := by
  refine forall₂_insertionSort (fun a b a' b' hab hab' ↦ by
    rw [hab.2.1, hab.2.2, hab'.2.1, hab'.2.2]) ?_
  refine List.rel_foldl (P := List.Forall₂ (RankedAlike twins)) ?_ .nil (h.matchingAtoms tabFilter)
  intro active active' hactive x y hxy
  simp only [hxy.1.status_eq]
  split
  · exact addCandidate_alike htwins ⟨hxy.1, hutility _ _ hxy.1.twins, hxy.2⟩ hactive
  · exact hactive

/-- The budget admits the same atoms and charges the same tokens. -/
theorem budgeted_alike (receipts : Bool) (tokenBudget : Nat) {active active' : List RankedAtom}
    (h : List.Forall₂ (RankedAlike twins) active active') :
    List.Forall₂ (AtomAlike twins) (budgeted receipts tokenBudget active).1
        (budgeted receipts tokenBudget active').1 ∧
      (budgeted receipts tokenBudget active).2 = (budgeted receipts tokenBudget active').2 := by
  refine List.rel_foldl (P := fun (x y : List ContextAtomMeta × Nat) ↦
    List.Forall₂ (AtomAlike twins) x.1 y.1 ∧ x.2 = y.2) ?_ ⟨.nil, rfl⟩ h
  rintro ⟨rendered, cost⟩ ⟨rendered', cost'⟩ ⟨hrendered, hcost⟩ r r' hr
  have hempty : rendered.isEmpty = rendered'.isEmpty := by
    cases hrendered <;> rfl
  simp only at hcost
  simp only [hr.1.render, hempty, hcost]
  split
  · exact ⟨hrendered, rfl⟩
  · exact ⟨List.rel_append hrendered (.cons hr.1 .nil), rfl⟩

/-- The view of `executeSpillContext` shows no difference between contexts that are alike. -/
theorem spillContext_eq (htwins : Indistinct twins) {c c' : ConversationContextMeta}
    (h : Alike twins c c') {statement : ContextQueryStmt}
    (hutility : ∀ d d', twins d d' →
      d.utility (lowerText statement.query) = d'.utility (lowerText statement.query)) :
    spillContext c statement = spillContext c' statement := by
  have hranked := rankedAtoms_alike htwins h (tabFilterOf c' statement.tab) hutility
  obtain ⟨hrendered, hcost⟩ := budgeted_alike statement.receipts statement.tokenBudget hranked
  have hredacted := forall₂_countP_eq
    (p := fun a : ContextAtomMeta ↦ shouldRedact a.accessLabels)
    (fun a a' ha ↦ by rw [ha.accessLabels_eq]) hrendered
  have hrender := forall₂_map_eq (fun a a' ha ↦ ha.render statement.receipts) hrendered
  have hinvalidated := forall₂_filter (p := fun a : ContextAtomMeta ↦ a.status == lit "invalidated")
    (fun a a' ha ↦ by rw [ha.status_eq])
    (List.rel_map (fun x y hxy ↦ hxy.1) (h.matchingAtoms (tabFilterOf c' statement.tab)))
  have hreceipts := forall₂_map_eq
    (f := fun a : ContextAtomMeta ↦ keyValue (lit "invalidated")
      (a.key ++ lit "=" ++ redactIfNeeded a.value a.accessLabels ++
        lit " @" ++ a.source ++ lit " invalidated_by=" ++ a.invalidatedBy))
    (fun a a' ha ↦ by rw [ha.key_eq, ha.redact_value, ha.source_eq, ha.invalidatedBy_eq])
    hinvalidated
  simp only [spillContext, h.tabFilterOf_eq, h.name_eq, h.messages.length_eq, hranked.length_eq,
    h.visibleLabels_eq, h.visibleEntities_eq, hcost, hrender, hredacted, hreceipts]

/-- The view of `executeExplainContext` shows no difference between contexts that are alike. -/
theorem explainContext_eq (htwins : Indistinct twins) {c c' : ConversationContextMeta}
    (h : Alike twins c c') {statement : ContextQueryStmt}
    (hutility : ∀ d d', twins d d' →
      d.utility (lowerText statement.query) = d'.utility (lowerText statement.query)) :
    explainContext c statement = explainContext c' statement := by
  have hranked := rankedAtoms_alike htwins h (tabFilterOf c' statement.tab) hutility
  obtain ⟨hrendered, hcost⟩ := budgeted_alike statement.receipts statement.tokenBudget hranked
  have hredacted := forall₂_countP_eq
    (p := fun a : ContextAtomMeta ↦ shouldRedact a.accessLabels)
    (fun a a' ha ↦ by rw [ha.accessLabels_eq]) hrendered
  have hcosts := forall₂_map_eq
    (f := fun r : RankedAtom ↦
      estimateContextTokens (renderContextAtom r.atom statement.receipts))
    (fun r r' hr ↦ by rw [hr.1.render]) hranked
  have hpruned := forall₂_countP_eq
    (p := fun x : ContextAtomMeta × Nat ↦ x.1.status != lit "active")
    (fun x y hxy ↦ by rw [hxy.1.status_eq]) (h.matchingAtoms (tabFilterOf c' statement.tab))
  have hreceipts := forall₂_map_eq
    (f := fun r : RankedAtom ↦ keyValue (lit "ranked_atom")
      (r.atom.key ++ lit "=" ++ redactIfNeeded r.atom.value r.atom.accessLabels ++
        lit " utility=" ++ ofNat r.utility ++ lit " source=" ++ r.atom.source))
    (fun r r' hr ↦ by rw [hr.1.key_eq, hr.1.redact_value, hr.2.1, hr.1.source_eq])
    (List.forall₂_take 5 hranked)
  simp only [explainContext, h.tabFilterOf_eq, h.name_eq, h.messages.length_eq,
    h.atoms.length_eq, (h.matchingMessages _).length_eq, (h.matchingAtoms _).length_eq,
    hranked.length_eq, hrendered.length_eq, h.visibleLabels_eq, h.visibleEntities_eq, hcost,
    hcosts, hpruned, hredacted, hreceipts]

/-- Labels that ask for redaction still do after the fallback. -/
theorem shouldRedact_fallbackLabels {labels : List Bytes} (h : shouldRedact labels) :
    shouldRedact (fallbackLabels labels) := by
  cases labels with
  | nil => cases h
  | cons label labels => exact h

/-- Alike messages are exported alike. -/
theorem messageObject_eq {c c' : ConversationContextMeta} (h : Alike twins c c')
    {m m' : ContextMessageMeta} (hm : MessageAlike m m') :
    messageObject c m = messageObject c' m' := by
  have hredact : redactIfNeeded m.text (fallbackLabels m.accessLabels) =
      redactIfNeeded m'.text (fallbackLabels m.accessLabels) := by
    rcases hm.redacted with hlabels | htext
    · simp [redactIfNeeded, shouldRedact_fallbackLabels hlabels]
    · rw [htext]
  conv_rhs => rw [← hm.rest_eq]
  simp only [messageObject, h.resolve_eq, hm.length_eq, hredact]

/-- Alike atoms are exported alike. -/
theorem atomObject_eq {c c' : ConversationContextMeta} (h : Alike twins c c')
    {x y : ContextAtomMeta × Nat} (hxy : AtomAlike twins x.1 y.1 ∧ x.2 = y.2) :
    atomObject c x = atomObject c' y := by
  obtain ⟨a, n⟩ := x
  obtain ⟨a', n'⟩ := y
  obtain ⟨ha, rfl⟩ : AtomAlike twins a a' ∧ n = n' := hxy
  have hredact : ∀ f : Bytes → Bytes → Bytes,
      redactIfNeeded (f a.value a.originalSnippet) (fallbackLabels a.accessLabels) =
        redactIfNeeded (f a'.value a'.originalSnippet) (fallbackLabels a.accessLabels) := by
    intro f
    rcases ha.redacted with hlabels | ⟨hvalue, hsnippet⟩
    · simp [redactIfNeeded, shouldRedact_fallbackLabels hlabels]
    · rw [hvalue, hsnippet]
  have hvalue := hredact fun value _ ↦ value
  have hsnippet := hredact fun value snippet ↦ if snippet.isEmpty then value else snippet
  conv_rhs => rw [← ha.rest_eq]
  simp only [atomObject, h.resolve_eq, hvalue, hsnippet]

/-- The view of `executeShowContextObjects` shows no difference between contexts that are alike. -/
theorem showContextObjects_eq {c c' : ConversationContextMeta} (h : Alike twins c c') :
    showContextObjects c = showContextObjects c' := by
  have hmessages := forall₂_map_eq (fun m m' hm ↦ messageObject_eq h hm) h.messages
  have hatoms := forall₂_map_eq (fun x y hxy ↦ atomObject_eq h hxy) (forall₂_zipIdx h.atoms 0)
  have hredactedMessages := forall₂_countP_eq
    (p := fun m : ContextMessageMeta ↦ shouldRedact (fallbackLabels m.accessLabels))
    (fun m m' hm ↦ by rw [hm.accessLabels_eq]) h.messages
  have hredactedAtoms := forall₂_countP_eq
    (p := fun a : ContextAtomMeta ↦ shouldRedact (fallbackLabels a.accessLabels))
    (fun a a' ha ↦ by rw [ha.accessLabels_eq]) h.atoms
  simp only [showContextObjects, hmessages, hatoms, hredactedMessages, hredactedAtoms, h.name_eq]

/-! ### Statements keep contexts alike -/

/-- Twins supersede the same atoms. -/
theorem supersedes_alike (htwins : Indistinct twins) {a a' b b' : ContextAtomMeta}
    (ha : twins a.content a'.content) (htab : a.tab = a'.tab) (hb : AtomAlike twins b b') :
    supersedes a b = supersedes a' b' := by
  have hkey : a.key = a'.key := htwins.key_eq _ _ ha
  have hvalue : b.key = a.key → (b.value = a.value ↔ b'.value = a'.value) :=
    htwins.value_iff _ _ _ _ hb.twins ha
  rw [Bool.eq_iff_iff]
  simp only [supersedes, Bool.and_eq_true, beq_iff_eq, bne_iff_ne, htab, hb.tab_eq,
    hb.status_eq, ← hkey, ← hb.key_eq]
  constructor
  · exact fun ⟨⟨⟨hstatus, hkey⟩, htab⟩, hne⟩ ↦ ⟨⟨⟨hstatus, hkey⟩, htab⟩, (hvalue hkey).not.1 hne⟩
  · exact fun ⟨⟨⟨hstatus, hkey⟩, htab⟩, hne⟩ ↦ ⟨⟨⟨hstatus, hkey⟩, htab⟩, (hvalue hkey).not.2 hne⟩

/-- An atom that supersedes invalidates alike atoms alike. -/
theorem invalidateFor_alike (htwins : Indistinct twins) {a a' b b' : ContextAtomMeta}
    (ha : twins a.content a'.content) (htab : a.tab = a'.tab) (hb : AtomAlike twins b b')
    (invalidator : Bytes) :
    AtomAlike twins (invalidateFor a invalidator b) (invalidateFor a' invalidator b') := by
  unfold invalidateFor
  rw [supersedes_alike htwins ha htab hb]
  split
  · exact hb.update (f := fun b ↦
      { b with status := lit "invalidated", invalidatedBy := invalidator })
      (fun _ ↦ rfl) (fun _ ↦ rfl) (fun _ ↦ rfl) fun _ _ _ ↦ rfl
  · exact hb

/-- The same prior atoms are invalidated. -/
theorem invalidatePrior_alike (htwins : Indistinct twins) {done done' atoms atoms' :
    List ContextAtomMeta} (hdone : List.Forall₂ (AtomAlike twins) done done')
    (hatoms : List.Forall₂ (AtomAlike twins) atoms atoms') :
    List.Forall₂ (AtomAlike twins) (invalidatePrior done atoms) (invalidatePrior done' atoms') := by
  induction hatoms generalizing done done' with
  | nil => exact hdone
  | @cons a a' _ _ ha _ ih =>
    refine ih (List.rel_append (List.rel_map (fun b b' hb ↦ ?_) hdone) (.cons ha .nil))
    rw [ha.source_eq]
    exact invalidateFor_alike htwins ha.twins ha.tab_eq hb _

/-- Atoms are reset alike. -/
theorem resetAtom_alike {a a' : ContextAtomMeta} (ha : AtomAlike twins a a') :
    AtomAlike twins (resetAtom a) (resetAtom a') := by
  refine ha.update ?_ ?_ ?_ ?_
  · exact fun _ ↦ rfl
  · exact fun _ ↦ rfl
  · exact fun _ ↦ rfl
  · intro b v s
    simp only [resetAtom]

/-- Recomputing the statuses keeps contexts alike. -/
theorem recompute_alike (htwins : Indistinct twins) {c c' : ConversationContextMeta}
    (h : Alike twins c c') :
    Alike twins (recomputeContextAtomStatus c) (recomputeContextAtomStatus c') := by
  have hreset : List.Forall₂ (AtomAlike twins) (c.atoms.map resetAtom) (c'.atoms.map resetAtom) :=
    List.rel_map (fun _ _ ha ↦ resetAtom_alike ha) h.atoms
  exact
    { name_eq := h.name_eq
      tabAliases_eq := h.tabAliases_eq
      messages := h.messages
      atoms := invalidatePrior_alike htwins .nil hreset }

/-- Paired extracted atoms, of messages whose access labels are `labels`. -/
structure ExtractAlike (twins : Content → Content → Prop) (labels : List Bytes)
    (a a' : ContextAtomMeta) : Prop where
  twins : twins a.content a'.content
  rest_eq : { a with value := a'.value, originalSnippet := a'.originalSnippet } = a'
  redacted : shouldRedact labels ∨
    (a.value = a'.value ∧ a.originalSnippet = a'.originalSnippet)

/-- Storing the atoms of alike messages keeps the atoms alike and counts them alike. -/
theorem storeAtoms_alike (htwins : Indistinct twins) {m m' : ContextMessageMeta}
    (hm : MessageAlike m m') {atoms atoms' : List ContextAtomMeta}
    (hatoms : List.Forall₂ (ExtractAlike twins m.accessLabels) atoms atoms')
    {stored stored' : List ContextAtomMeta} (hstored : List.Forall₂ (AtomAlike twins) stored stored')
    (n n' : Nat) :
    List.Forall₂ (AtomAlike twins) (atoms.foldl (storeAtom m) (stored, n)).1
      (atoms'.foldl (storeAtom m') (stored', n')).1 := by
  induction hatoms generalizing stored stored' n n' with
  | nil => exact hstored
  | @cons a a' _ _ ha _ ih =>
    have htab : a.tab = a'.tab := (congrArg ContextAtomMeta.tab ha.rest_eq :)
    refine ih ?_ _ _
    refine List.rel_append (List.rel_map (fun b b' hb ↦ ?_) hstored) (.cons ⟨ha.twins, ?_, ?_⟩ .nil)
    · rw [hm.id_eq]
      exact invalidateFor_alike htwins ha.twins htab hb _
    · conv_rhs => rw [← ha.rest_eq]
      simp only [hm.accessLabels_eq, hm.tags_eq]
    · exact ha.redacted

/-- What two append statements add to a context is alike. -/
structure AppendAlike (twins : Content → Content → Prop) (c : ConversationContextMeta)
    (s s' : AppendMemoryStmt) : Prop where
  messageId_eq : s.messageId = s'.messageId
  message : MessageAlike (appendedMessage c s) (appendedMessage c s')
  atoms : List.Forall₂ (ExtractAlike twins (appendedMessage c s).accessLabels)
    (extractContextAtoms { s with tab := (appendedMessage c s).tab })
    (extractContextAtoms { s' with tab := (appendedMessage c s').tab })

/-- Paired outcomes of a statement: both throw, or both store contexts that are alike. -/
def OutcomeAlike (twins : Content → Content → Prop) :
    Except Error (ConversationContextMeta × NativeQueryResult) →
      Except Error (ConversationContextMeta × NativeQueryResult) → Prop
  | .ok (c, _), .ok (c', _) => Alike twins c c'
  | .error _, .error _ => True
  | _, _ => False

/-- The message that is appended carries the same fields, the text apart. -/
theorem Alike.appendedMessage_eq {c c' : ConversationContextMeta} (h : Alike twins c c')
    (s : AppendMemoryStmt) : appendedMessage c s = appendedMessage c' s := by
  have hresolve : resolveContextTab c = resolveContextTab c' := funext h.resolve_eq
  simp only [appendedMessage, hresolve]

/-- `APPEND MEMORY` of twins has the same outcome and keeps contexts alike. -/
theorem appendMemory_alike (htwins : Indistinct twins) {c c' : ConversationContextMeta}
    (h : Alike twins c c') {s s' : AppendMemoryStmt} (hs : AppendAlike twins c s s') :
    OutcomeAlike twins (appendMemory c s) (appendMemory c' s') := by
  have hduplicate : (c.messages.any fun m ↦ m.id == s.messageId) =
      c'.messages.any fun m ↦ m.id == s'.messageId := by
    have hids := forall₂_map_eq (fun m m' hm ↦ hm.id_eq) h.messages
    simpa [List.any_map, Function.comp_def, hs.messageId_eq] using
      congrArg (List.any · (· == s'.messageId)) hids
  simp only [appendMemory, hduplicate]
  split
  · trivial
  · have hmessage := hs.message
    have hatoms := hs.atoms
    rw [h.appendedMessage_eq s'] at hmessage hatoms
    exact
      { name_eq := h.name_eq
        tabAliases_eq := h.tabAliases_eq
        messages := List.rel_append h.messages (.cons hmessage .nil)
        atoms := storeAtoms_alike htwins hmessage hatoms h.atoms 0 0 }

/-- The same message is retagged, or none in both. -/
theorem retagMessages_alike {c c' : ConversationContextMeta} (h : Alike twins c c') (id : UInt64)
    (tab : Bytes) {ms ms' : List ContextMessageMeta} (hms : List.Forall₂ MessageAlike ms ms') :
    (retagMessages c id tab ms = none ∧ retagMessages c' id tab ms' = none) ∨
      ∃ ns ns', retagMessages c id tab ms = some ns ∧ retagMessages c' id tab ms' = some ns' ∧
        List.Forall₂ MessageAlike ns ns' := by
  induction hms with
  | nil => exact .inl ⟨rfl, rfl⟩
  | @cons m m' ms ms' hm hrest ih =>
    unfold retagMessages
    rw [hm.id_eq]
    by_cases hid : m'.id = id
    · rw [if_pos hid, if_pos hid]
      refine .inr ⟨_, _, rfl, rfl, .cons ⟨?_, hm.length_eq, hm.redacted⟩ hrest⟩
      conv_rhs => rw [← hm.rest_eq]
      simp only [h.resolve_eq, hm.id_eq]
    · rw [if_neg hid, if_neg hid]
      rcases ih with ⟨hnone, hnone'⟩ | ⟨ns, ns', hsome, hsome', hns⟩
      · exact .inl ⟨by rw [hnone]; rfl, by rw [hnone']; rfl⟩
      · exact .inr ⟨m :: ns, m' :: ns', by rw [hsome]; rfl, by rw [hsome']; rfl, .cons hm hns⟩

/-- `TAG MEMORY` has the same outcome and keeps contexts alike. -/
theorem tagMemory_alike (htwins : Indistinct twins) {c c' : ConversationContextMeta}
    (h : Alike twins c c') (s : TagMemoryStmt) :
    OutcomeAlike twins (tagMemory c s) (tagMemory c' s) := by
  have hretag : ∀ source tab, List.Forall₂ (AtomAlike twins)
      (c.atoms.map (retagAtom c source tab)) (c'.atoms.map (retagAtom c' source tab)) := by
    intro source tab
    refine List.rel_map (fun a a' ha ↦ ?_) h.atoms
    -- Aliases are the same on both sides, so both resolve the tab alike.
    have hresolve : retagAtom c source tab = retagAtom c' source tab := by
      funext b
      simp only [retagAtom, h.resolve_eq]
    rw [hresolve]
    refine ha.update ?_ ?_ ?_ ?_ <;> intro b
    · unfold retagAtom
      split <;> rfl
    · unfold retagAtom
      split <;> rfl
    · unfold retagAtom
      split <;> rfl
    · intro v s
      unfold retagAtom
      split <;> rfl
  simp only [tagMemory, h.resolve_eq]
  rcases retagMessages_alike h s.messageId (resolveContextTab c' s.tab) h.messages with
    ⟨hnone, hnone'⟩ | ⟨ns, ns', hsome, hsome', hns⟩
  · rw [hnone, hnone']
    trivial
  · rw [hsome, hsome']
    exact recompute_alike htwins
      { name_eq := h.name_eq
        tabAliases_eq := h.tabAliases_eq
        messages := hns
        atoms := hretag _ _ }

/-- A tab alias keeps contexts alike. -/
theorem setContextTabAlias_alike {c c' : ConversationContextMeta} (h : Alike twins c c')
    (aliasValue targetValue : Bytes) :
    Alike twins (setContextTabAlias c aliasValue targetValue)
      (setContextTabAlias c' aliasValue targetValue) where
  name_eq := h.name_eq
  tabAliases_eq := by simp only [setContextTabAlias, h.resolve_eq, h.tabAliases_eq]
  messages := h.messages
  atoms := h.atoms

/-- `MERGE TABS` has the same outcome and keeps contexts alike. -/
theorem mergeTabs_alike (htwins : Indistinct twins) {c c' : ConversationContextMeta}
    (h : Alike twins c c') (s : MergeTabsStmt) :
    OutcomeAlike twins (mergeTabs c s) (mergeTabs c' s) := by
  have hmessage : mergeMessage c = mergeMessage c' := by
    funext source target m
    simp only [mergeMessage, mergeTags, h.resolve_eq]
  have hatom : mergeAtom c = mergeAtom c' := by
    funext source target a
    simp only [mergeAtom, mergeTags, h.resolve_eq]
  have hmerged : ∀ source target,
      Alike twins (mergedContext c source target) (mergedContext c' source target) := by
    intro source target
    refine setContextTabAlias_alike ?_ source target
    refine { name_eq := h.name_eq, tabAliases_eq := ?_, messages := ?_, atoms := ?_ }
    · simp only [h.tabAliases_eq]
    · rw [hmessage]
      refine List.rel_map (fun m m' hm ↦ ⟨?_, hm.length_eq, hm.redacted⟩) h.messages
      conv_rhs => rw [← hm.rest_eq]
      simp only [mergeMessage]
    · rw [hatom]
      refine List.rel_map (fun a a' ha ↦ ?_) h.atoms
      refine ha.update ?_ ?_ ?_ ?_
      · exact fun _ ↦ rfl
      · exact fun _ ↦ rfl
      · exact fun _ ↦ rfl
      · intro b v s
        simp only [mergeAtom]
  simp only [mergeTabs, h.resolve_eq]
  split
  · exact recompute_alike htwins (hmerged _ _)
  · exact h

/-- A statement keeps contexts alike. -/
theorem execute_alike (htwins : Indistinct twins) {c c' : ConversationContextMeta}
    (h : Alike twins c c') (s : ContextStatement)
    (happend : ∀ t, s = .append t → ∀ a ∈ extractContextAtoms { t with tab := (appendedMessage c t).tab },
      twins a.content a.content) :
    OutcomeAlike twins (s.execute c) (s.execute c') := by
  cases s with
  | append t =>
    refine appendMemory_alike htwins h ⟨rfl, ⟨rfl, rfl, .inr rfl⟩, ?_⟩
    refine List.forall₂_same.2 fun a ha ↦ ⟨happend t rfl a ha, rfl, .inr ⟨rfl, rfl⟩⟩
  | tag t => exact tagMemory_alike htwins h t
  | aliasTab t =>
    simp only [ContextStatement.execute, aliasTab, h.resolve_eq]
    exact setContextTabAlias_alike h _ _
  | merge t => exact mergeTabs_alike htwins h t

end SkibidiQL
