import SkibidiQL.Prompt.TabMerge

/-!
# One current value for a key in a tab

The statements compare the names under which atoms are stored, and readers the tabs to which the names resolve.
A statement can therefore bring two contradicting facts together in one resolved tab under different names:
`alias-tab` does when it makes the one tab resolve to the other, `append-memory`, `tag-memory` and `merge-tabs`
when they file a fact under a name that is not the one of the facts in its tab. A statement that brings none
together (`ContextStatement.FilesTogether`, which looks at the context before it) keeps the active atoms
consistent, and so does every run of such statements (`activeConsistent_of_filesTogether`).
-/

namespace SkibidiQL

open Bytes AliasChain

/-- The fact, stored under another name. -/
def Fact.under (a : Fact) (name : Bytes) : Fact :=
  ⟨a.key, name, a.value⟩

/-- A fact under a tab has that tab. -/
@[simp]
theorem Fact.under_tab (a : Fact) (name : Bytes) : (a.under name).tab = name :=
  rfl

/-- The fact `b` of the resolved tab `tab` contradicts `a` and is stored under another name. -/
def Fact.Clashes (tabAliases : List ContextTabAliasMeta) (tab : Bytes) (a b : Fact) : Prop :=
  a.key = b.key ∧ a.value ≠ b.value ∧ a.tab ≠ b.tab ∧ resolveTab tabAliases b.tab = tab

instance (tabAliases : List ContextTabAliasMeta) (tab : Bytes) (a b : Fact) :
    Decidable (a.Clashes tabAliases tab b) :=
  inferInstanceAs (Decidable (_ ∧ _))

instance (tabAliases : List ContextTabAliasMeta) (a b : Fact) : Decidable (a.Overlooked tabAliases b) :=
  inferInstanceAs (Decidable (_ ∧ _))

/-- Contradicting facts of one resolved tab are stored under one name. -/
def FiledTogether (tabAliases : List ContextTabAliasMeta) (facts : List Fact) : Prop :=
  ∀ a ∈ facts, ∀ b ∈ facts, ¬a.Overlooked tabAliases b

instance (tabAliases : List ContextTabAliasMeta) (facts : List Fact) : Decidable (FiledTogether tabAliases facts) :=
  inferInstanceAs (Decidable (∀ a ∈ facts, _))

/-- No chain of aliases has more than 31 hops. -/
def ChainsFit (tabAliases : List ContextTabAliasMeta) : Prop :=
  ∀ entry ∈ tabAliases, Within (aliasNext tabAliases) 31 (normalizedTab entry.aliasTab)

instance (tabAliases : List ContextTabAliasMeta) : Decidable (ChainsFit tabAliases) :=
  inferInstanceAs (Decidable (∀ entry ∈ tabAliases, _))

/-- The facts of the atoms with the property. -/
def factsWith (context : ConversationContextMeta) (p : ContextAtomMeta → Bool) : List Fact :=
  (context.atoms.filter p).map (·.fact)

/-- The facts of the active atoms. -/
def activeFacts (context : ConversationContextMeta) : List Fact :=
  factsWith context (·.isActive)

/-- The facts `moved` can be stored under `name`, which is in normal form: the other facts are filed together,
and in the tab of the name none of them contradicts a moved one under another name. -/
structure MovesTogether (tabAliases : List ContextTabAliasMeta) (name : Bytes) (moved others : List Fact) :
    Prop where
  normal : normalizedTab name = name
  together : FiledTogether tabAliases others
  apart : ∀ a ∈ moved, ∀ b ∈ others,
    ¬Fact.Clashes tabAliases (resolveTab tabAliases name) (a.under name) b

instance (tabAliases : List ContextTabAliasMeta) (name : Bytes) (moved others : List Fact) :
    Decidable (MovesTogether tabAliases name moved others) :=
  decidable_of_iff
    (normalizedTab name = name ∧ FiledTogether tabAliases others ∧
      ∀ a ∈ moved, ∀ b ∈ others, ¬Fact.Clashes tabAliases (resolveTab tabAliases name) (a.under name) b)
    ⟨fun ⟨hnormal, htogether, hapart⟩ ↦ ⟨hnormal, htogether, hapart⟩, fun h ↦ ⟨h.normal, h.together, h.apart⟩⟩

/-- The append brings no active facts together that contradict each other. -/
def AppendMemoryStmt.FilesTogether (context : ConversationContextMeta) (statement : AppendMemoryStmt) : Prop :=
  let name := normalizedTab (resolveContextTab context (requestedTab statement))
  ∀ atom ∈ extractContextAtoms statement, normalizedTab name = name ∧
    ∀ b ∈ activeFacts context,
      ¬Fact.Clashes context.tabAliases (resolveTab context.tabAliases name) (atom.fact.under name) b

/-- The retagged message has no atoms, or moving them brings no facts together that contradict each other. The
statuses are recomputed, so that facts whose atoms are not active count as well. -/
def TagMemoryStmt.FilesTogether (context : ConversationContextMeta) (statement : TagMemoryStmt) : Prop :=
  (∀ atom ∈ context.atoms, atom.source ≠ messageSource statement.messageId) ∨
    MovesTogether context.tabAliases (normalizedTab (resolveContextTab context statement.tab))
      (factsWith context (·.source == messageSource statement.messageId))
      (factsWith context (·.source != messageSource statement.messageId))

/-- The alias makes no active facts that contradict each other resolve to one tab. -/
def AliasTabStmt.FilesTogether (context : ConversationContextMeta) (statement : AliasTabStmt) : Prop :=
  let name := normalizedTab statement.aliasTab
  let target := resolveContextTab context statement.target
  normalizedTab name = name ∧ normalizedTab target = target ∧ ChainsFit context.tabAliases ∧
    ∀ a ∈ activeFacts context, ∀ b ∈ activeFacts context,
      Passes (aliasNext context.tabAliases) 31 (normalizedTab a.tab) name → ¬a.Clashes context.tabAliases target b

/-- The merge brings no facts together that contradict each other, whether their atoms are active or not. -/
def MergeTabsStmt.FilesTogether (context : ConversationContextMeta) (statement : MergeTabsStmt) : Prop :=
  let source := resolveContextTab context statement.fromTab
  let target := resolveContextTab context statement.toTab
  source = target ∨ normalizedTab source = source ∧ ChainsFit context.tabAliases ∧
    MovesTogether context.tabAliases target
      (factsWith context fun atom ↦ resolveContextTab context atom.tab == source)
      (factsWith context fun atom ↦ resolveContextTab context atom.tab != source)

/-- The statement throws, or it brings no facts together that contradict each other. -/
def ContextStatement.FilesTogether (context : ConversationContextMeta) : ContextStatement → Prop
  | .append statement =>
    (context.messages.any fun message ↦ message.id == statement.messageId) = true ∨
      statement.FilesTogether context
  | .tag statement =>
    (context.messages.any fun message ↦ message.id == statement.messageId) = false ∨
      statement.FilesTogether context
  | .aliasTab statement => statement.FilesTogether context
  | .merge statement => statement.FilesTogether context

instance (context : ConversationContextMeta) (statement : ContextStatement) :
    Decidable (statement.FilesTogether context) :=
  match statement with
  | .append statement => inferInstanceAs (Decidable (_ = true ∨
      ∀ atom ∈ extractContextAtoms statement, normalizedTab _ = _ ∧
        ∀ b ∈ activeFacts context, ¬Fact.Clashes _ _ _ b))
  | .tag _ => inferInstanceAs (Decidable (_ = false ∨ (∀ atom ∈ context.atoms, _) ∨ MovesTogether _ _ _ _))
  | .aliasTab _ => inferInstanceAs (Decidable (normalizedTab _ = _ ∧ normalizedTab _ = _ ∧ ChainsFit _ ∧
      ∀ a ∈ activeFacts context, ∀ b ∈ activeFacts context, _ → ¬Fact.Clashes _ _ a b))
  | .merge _ => inferInstanceAs (Decidable (_ = _ ∨ normalizedTab _ = _ ∧ ChainsFit _ ∧ MovesTogether _ _ _ _))

/-! ### What is kept -/

/-- What the statements keep: exact statuses, names in normal form, and one current value for a key in a tab. -/
structure OneCurrentValue (context : ConversationContextMeta) : Prop where
  exact : StatusExact context.atoms
  normal : ∀ atom ∈ context.atoms, normalizedTab atom.tab = atom.tab
  consistent : ActiveConsistent context

/-- Being overlooked is symmetric. -/
theorem Fact.Overlooked.symm {tabAliases : List ContextTabAliasMeta} {a b : Fact}
    (h : a.Overlooked tabAliases b) : b.Overlooked tabAliases a :=
  let ⟨hkey, hvalue, hname, htab⟩ := h
  ⟨hkey.symm, hvalue.symm, hname.symm, htab.symm⟩

/-- Facts that are overlooked clash in the tab that both resolve to. -/
theorem Fact.Overlooked.clashes {tabAliases : List ContextTabAliasMeta} {a b : Fact} {name : Bytes}
    (h : (a.under name).Overlooked tabAliases b) :
    (a.under name).Clashes tabAliases (resolveTab tabAliases name) b :=
  let ⟨hkey, hvalue, hname, htab⟩ := h
  ⟨hkey, hvalue, hname, htab.symm⟩

/-- With one current value the active facts are the current ones. -/
theorem OneCurrentValue.current_eq {context : ConversationContextMeta} (h : OneCurrentValue context) :
    current (context.atoms.map (·.fact)) = activeFacts context :=
  h.exact.symm

/-- The active facts are filed together. -/
theorem OneCurrentValue.filedTogether {context : ConversationContextMeta} (h : OneCurrentValue context) :
    FiledTogether context.tabAliases (activeFacts context) := by
  have hnone := (activeConsistent_iff h.exact).1 h.consistent
  rwa [h.current_eq] at hnone

/-- A statement that stores facts in normal form, of which the current ones are filed together, keeps all. -/
theorem OneCurrentValue.apply {context : ConversationContextMeta} (h : OneCurrentValue context)
    {statement : ContextStatement}
    (hnormal : ∀ fact ∈ storedFacts context statement, normalizedTab fact.tab = fact.tab)
    (htogether : FiledTogether (storedAliases context statement) (current (storedFacts context statement))) :
    OneCurrentValue (statement.apply context) := by
  obtain ⟨hexact, hfacts, haliases⟩ := apply_spec h.exact statement
  refine ⟨hexact, fun atom hatom ↦ ?_, ?_⟩
  · exact hnormal atom.fact (hfacts ▸ List.mem_map_of_mem hatom)
  · rw [activeConsistent_iff hexact, hfacts, haliases]
    exact htogether

/-- A statement that stores the facts and aliases there were keeps all. -/
theorem OneCurrentValue.apply_of_same {context : ConversationContextMeta} (h : OneCurrentValue context)
    {statement : ContextStatement} (hfacts : storedFacts context statement = context.atoms.map (·.fact))
    (haliases : storedAliases context statement = context.tabAliases) :
    OneCurrentValue (statement.apply context) := by
  refine h.apply (fun fact hfact ↦ ?_) ?_
  · rw [hfacts] at hfact
    obtain ⟨atom, hatom, rfl⟩ := List.mem_map.1 hfact
    exact h.normal atom hatom
  · rw [hfacts, haliases, h.current_eq]
    exact h.filedTogether

/-! ### Appending -/

/-- A current fact was current before or is new. -/
theorem mem_current_append {facts new : List Fact} {a : Fact} (h : a ∈ current (facts ++ new)) :
    a ∈ current facts ∨ a ∈ new := by
  induction new using List.reverseRecOn with
  | nil =>
    rw [List.append_nil] at h
    exact .inl h
  | append_singleton new last ih =>
    rw [← List.append_assoc, current_append, List.mem_append] at h
    rcases h with h | h
    · exact (ih (List.mem_filter.1 h).1).imp_right (List.mem_append_left _)
    · exact .inr (List.mem_append_right _ h)

/-- A statement that adds facts under one name, none of which contradicts an active fact of its tab under another
name, keeps all. -/
theorem OneCurrentValue.apply_of_new {context : ConversationContextMeta} (h : OneCurrentValue context)
    {statement : ContextStatement} (name : Bytes) {new : List Fact}
    (hfacts : storedFacts context statement = context.atoms.map (·.fact) ++ new)
    (haliases : storedAliases context statement = context.tabAliases)
    (hname : ∀ a ∈ new, a.tab = name ∧ normalizedTab name = name)
    (hnew : ∀ a ∈ new, ∀ b ∈ activeFacts context, ¬a.Overlooked context.tabAliases b) :
    OneCurrentValue (statement.apply context) := by
  refine h.apply (fun fact hfact ↦ ?_) fun a ha b hb ↦ ?_
  · rw [hfacts, List.mem_append] at hfact
    rcases hfact with hfact | hfact
    · obtain ⟨atom, hatom, rfl⟩ := List.mem_map.1 hfact
      exact h.normal atom hatom
    · obtain ⟨hfact, hnormal⟩ := hname fact hfact
      rw [hfact, hnormal]
  · rw [hfacts] at ha hb
    rw [haliases]
    -- a current fact was active before or is new, and new facts share their name
    rcases mem_current_append ha with ha | ha <;> rcases mem_current_append hb with hb | hb
    · rw [h.current_eq] at ha hb
      exact h.filedTogether a ha b hb
    · rw [h.current_eq] at ha
      exact fun hover ↦ hnew b hb a ha hover.symm
    · rw [h.current_eq] at hb
      exact hnew a ha b hb
    · exact fun ⟨_, _, hother, _⟩ ↦ hother ((hname a ha).1.trans (hname b hb).1.symm)

/-- The message is stored under the tab that the append asks for, resolved. -/
theorem appendedMessage_tab (context : ConversationContextMeta) (statement : AppendMemoryStmt) :
    (appendedMessage context statement).tab = resolveContextTab context (requestedTab statement) := by
  simp only [appendedMessage, requestedTab]

/-- `APPEND MEMORY` keeps one current value while it files together. -/
theorem oneCurrentValue_append {context : ConversationContextMeta} (h : OneCurrentValue context)
    {statement : AppendMemoryStmt} (hfiles : (ContextStatement.append statement).FilesTogether context) :
    OneCurrentValue ((ContextStatement.append statement).apply context) := by
  by_cases hduplicate : context.messages.any fun message ↦ message.id == statement.messageId
  · exact h.apply_of_same (by rw [storedFacts, if_pos hduplicate]) rfl
  have hclash := hfiles.resolve_left hduplicate
  have hfacts : storedFacts context (.append statement) = context.atoms.map (·.fact) ++
      (extractContextAtoms statement).map
        fun atom ↦ atom.fact.under (normalizedTab (resolveContextTab context (requestedTab statement))) := by
    rw [storedFacts, if_neg hduplicate, appendedMessage_tab, extractContextAtoms_retab, List.map_map]
    simp only [Function.comp_def, ContextAtomMeta.fact, Fact.under]
  refine h.apply_of_new (normalizedTab (resolveContextTab context (requestedTab statement))) hfacts rfl
    (fun a ha ↦ ?_) fun a ha b hb hover ↦ ?_
  · obtain ⟨atom, hatom, rfl⟩ := List.mem_map.1 ha
    exact ⟨atom.fact.under_tab _, (hclash atom hatom).1⟩
  · obtain ⟨atom, hatom, rfl⟩ := List.mem_map.1 ha
    exact (hclash atom hatom).2 b hb hover.clashes

/-! ### Moving facts -/

section Moves

variable {tabAliases aliases' : List ContextTabAliasMeta} {name : Bytes} {moved others facts : List Fact}

/-- The facts after the move are filed together, in any alias table in which the name and the other facts
resolve as before. -/
theorem MovesTogether.filedTogether (h : MovesTogether tabAliases name moved others)
    (hname : resolveTab aliases' name = resolveTab tabAliases name)
    (hothers : ∀ b ∈ others, resolveTab aliases' b.tab = resolveTab tabAliases b.tab)
    (hfacts : ∀ fact ∈ facts, (∃ a ∈ moved, fact = a.under name) ∨ fact ∈ others) :
    FiledTogether aliases' facts := by
  have hmoved : ∀ a ∈ moved, ∀ b ∈ others, ¬(a.under name).Overlooked aliases' b := by
    rintro a ha b hb ⟨hkey, hvalue, hother, htab⟩
    exact h.apart a ha b hb ⟨hkey, hvalue, hother, (hothers b hb).symm.trans (htab.symm.trans hname)⟩
  intro a ha b hb
  rcases hfacts a ha with ⟨a', ha', rfl⟩ | ha' <;> rcases hfacts b hb with ⟨b', hb', rfl⟩ | hb'
  · exact fun ⟨_, _, hother, _⟩ ↦ hother rfl
  · exact hmoved a' ha' b hb'
  · exact fun hover ↦ hmoved b' hb' a ha' hover.symm
  · rintro ⟨hkey, hvalue, hother, htab⟩
    rw [hothers a ha', hothers b hb'] at htab
    exact h.together a ha' b hb' ⟨hkey, hvalue, hother, htab⟩

/-- A statement that moves facts together, in an alias table in which the name and the other facts resolve as
before, keeps all. -/
theorem OneCurrentValue.apply_of_moves {context : ConversationContextMeta} (h : OneCurrentValue context)
    {statement : ContextStatement} (hmoves : MovesTogether context.tabAliases name moved others)
    (hname : resolveTab (storedAliases context statement) name = resolveTab context.tabAliases name)
    (hothers : ∀ b ∈ others, normalizedTab b.tab = b.tab ∧
      resolveTab (storedAliases context statement) b.tab = resolveTab context.tabAliases b.tab)
    (hfacts : ∀ fact ∈ storedFacts context statement,
      (∃ a ∈ moved, fact = a.under name) ∨ fact ∈ others) :
    OneCurrentValue (statement.apply context) := by
  refine h.apply (fun fact hfact ↦ ?_) ?_
  · rcases hfacts fact hfact with ⟨a, -, rfl⟩ | hfact
    · exact hmoves.normal
    · exact (hothers fact hfact).1
  · exact hmoves.filedTogether hname (fun b hb ↦ (hothers b hb).2)
      fun fact hfact ↦ hfacts fact (mem_of_mem_current hfact)

end Moves

/-- The facts with the tabs of some atoms changed, where the tabs of the others are in normal form. -/
theorem mem_refiled {context : ConversationContextMeta}
    (h : ∀ atom ∈ context.atoms, normalizedTab atom.tab = atom.tab) (p : ContextAtomMeta → Bool) {tab : Bytes}
    {fact : Fact}
    (hfact : fact ∈ context.atoms.map fun atom ↦
      atom.fact.under (normalizedTab (if p atom then tab else atom.tab))) :
    (∃ a ∈ factsWith context p, fact = a.under (normalizedTab tab)) ∨
      fact ∈ factsWith context (fun atom ↦ !p atom) := by
  obtain ⟨atom, hatom, rfl⟩ := List.mem_map.1 hfact
  rcases hp : p atom with _ | _
  · refine .inr (List.mem_map.2 ⟨atom, List.mem_filter.2 ⟨hatom, by rw [hp]; rfl⟩, ?_⟩)
    rw [if_neg Bool.false_ne_true, h atom hatom]
    rfl
  · refine .inl ⟨atom.fact, List.mem_map_of_mem (List.mem_filter.2 ⟨hatom, hp⟩), ?_⟩
    rw [if_pos rfl]

/-- The facts have normalized tabs. -/
theorem OneCurrentValue.normal_of_mem {context : ConversationContextMeta} (h : OneCurrentValue context)
    {p : ContextAtomMeta → Bool} {fact : Fact} (hfact : fact ∈ factsWith context p) :
    normalizedTab fact.tab = fact.tab := by
  obtain ⟨atom, hatom, rfl⟩ := List.mem_map.1 hfact
  exact h.normal atom (List.mem_filter.1 hatom).1

/-- `TAG MEMORY` keeps one current value while it files together. -/
theorem oneCurrentValue_tag {context : ConversationContextMeta} (h : OneCurrentValue context)
    {statement : TagMemoryStmt} (hfiles : (ContextStatement.tag statement).FilesTogether context) :
    OneCurrentValue ((ContextStatement.tag statement).apply context) := by
  rcases hfiles with hunknown | hnone | hmoves
  · exact h.apply_of_same (by rw [storedFacts, hunknown]; exact if_neg Bool.false_ne_true) rfl
  · refine h.apply_of_same ?_ rfl
    have hfacts : (context.atoms.map fun atom ↦ atom.fact.under (normalizedTab
        (if atom.source = messageSource statement.messageId then resolveContextTab context statement.tab
          else atom.tab))) = context.atoms.map (·.fact) := by
      refine List.map_congr_left fun atom hatom ↦ ?_
      rw [if_neg (hnone atom hatom), h.normal atom hatom]
      rfl
    rw [storedFacts]
    split
    · exact hfacts
    · rfl
  by_cases hknown : context.messages.any fun message ↦ message.id == statement.messageId
  · refine h.apply_of_moves hmoves rfl (fun b hb ↦ ⟨h.normal_of_mem hb, rfl⟩) fun fact hfact ↦ ?_
    refine mem_refiled h.normal (·.source == messageSource statement.messageId) ?_
    rw [storedFacts, if_pos hknown] at hfact
    simpa only [beq_iff_eq, messageSource, Fact.under] using hfact
  · exact h.apply_of_same (by rw [storedFacts, if_neg hknown]) rfl

/-! ### Merging -/

/-- Every chain ends within the hops of the resolver. -/
theorem ChainsFit.within {tabAliases : List ContextTabAliasMeta} (h : ChainsFit tabAliases) (tab : Bytes) :
    Within (aliasNext tabAliases) 31 (normalizedTab tab) := by
  rcases hnext : aliasNext tabAliases (normalizedTab tab) with _ | next
  · exact Within.mono (within_zero.2 (AliasChain.final_iff.2 (by rw [hnext]; nofun))) (Nat.zero_le 31)
  · obtain ⟨entry, hentry, halias, -⟩ := mem_of_aliasNext hnext
    exact halias ▸ h entry hentry

/-- Where a chain ends no alias leads on. -/
theorem ChainsFit.final {tabAliases : List ContextTabAliasMeta} (h : ChainsFit tabAliases) (tab : Bytes) :
    Final (aliasNext tabAliases) (resolveTab tabAliases tab) :=
  final_resolveTab_iff.2 (Within.mono (h.within tab) (by decide))

/-- `MERGE TABS` keeps one current value while it files together. -/
theorem oneCurrentValue_merge {context : ConversationContextMeta} (h : OneCurrentValue context)
    {statement : MergeTabsStmt} (hfiles : (ContextStatement.merge statement).FilesTogether context) :
    OneCurrentValue ((ContextStatement.merge statement).apply context) := by
  by_cases hsame : resolveContextTab context statement.fromTab = resolveContextTab context statement.toTab
  · exact h.apply_of_same (by rw [storedFacts, if_neg (not_not.2 hsame)])
      (by rw [storedAliases, if_neg (not_not.2 hsame)])
  obtain ⟨hnormal, hfit, hmoves⟩ := hfiles.resolve_left hsame
  have hsource : Final (aliasNext context.tabAliases) (resolveContextTab context statement.fromTab) :=
    hfit.final statement.fromTab
  have htarget : Final (aliasNext context.tabAliases) (resolveContextTab context statement.toTab) :=
    hfit.final statement.toTab
  have hresolves := resolveTab_mergedContext hfit.within hsource htarget (Ne.symm hsame) hnormal hmoves.normal
  have haliases : storedAliases context (.merge statement) =
      (mergedContext context (resolveContextTab context statement.fromTab)
        (resolveContextTab context statement.toTab)).tabAliases := by
    rw [storedAliases, if_pos hsame]
  have hstays : resolveTab context.tabAliases (resolveContextTab context statement.toTab) =
      resolveContextTab context statement.toTab := resolveTab_of_final hmoves.normal htarget
  refine h.apply_of_moves hmoves ?_ (fun b hb ↦ ⟨h.normal_of_mem hb, ?_⟩) fun fact hfact ↦ ?_
  · rw [haliases, hresolves, resolveContextTab, hstays, if_neg (Ne.symm hsame)]
  · obtain ⟨atom, hatom, rfl⟩ := List.mem_map.1 hb
    exact haliases ▸ (hresolves atom.tab).trans (if_neg (bne_iff_ne.1 (List.mem_filter.1 hatom).2))
  · rw [← hmoves.normal]
    refine mem_refiled h.normal
      (fun atom ↦ resolveContextTab context atom.tab == resolveContextTab context statement.fromTab) ?_
    rw [storedFacts, if_pos hsame] at hfact
    simpa only [beq_iff_eq, Fact.under] using hfact

/-! ### Aliases -/

/-- After `alias-tab`, the names that lead through the alias resolve to the target, and all others as before. -/
theorem resolveTab_aliasTab {context : ConversationContextMeta} {statement : AliasTabStmt}
    (halias : SettledTab statement.aliasTab)
    (htarget : normalizedTab (resolveContextTab context statement.target) =
      resolveContextTab context statement.target)
    (hfit : ChainsFit context.tabAliases) (tab : Bytes) :
    resolveTab (storedAliases context (.aliasTab statement)) tab =
      if Passes (aliasNext context.tabAliases) 31 (normalizedTab tab) (normalizedTab statement.aliasTab) then
        resolveContextTab context statement.target
      else resolveTab context.tabAliases tab := by
  have hfinal : Final (aliasNext context.tabAliases) (resolveContextTab context statement.target) :=
    hfit.final statement.target
  have hnext := aliasNext_aliasTab halias htarget hfinal
  rw [resolveTab_eq_chase]
  split
  · next hpass =>
    obtain ⟨hwithin, hend⟩ := hpass.of_set hnext hfinal
    exact (chase_eq (Nat.le_refl 32) hwithin).trans hend
  · next hpass =>
    obtain ⟨hwithin, hend⟩ := (hfit.within tab).of_set hnext hpass
    rw [resolveTab_eq_chase, chase_eq (by decide : 31 ≤ 32) (hfit.within tab), ← hend]
    exact chase_eq (by decide) hwithin

/-- The names that lead through one name resolve to one tab. -/
theorem resolveTab_eq_of_passes {tabAliases : List ContextTabAliasMeta} (hfit : ChainsFit tabAliases)
    {tab name : Bytes} (hpass : Passes (aliasNext tabAliases) 31 (normalizedTab tab) (normalizedTab name)) :
    resolveTab tabAliases tab = resolveTab tabAliases name := by
  obtain ⟨k, -, hk⟩ := hpass
  have hend : (step (aliasNext tabAliases))^[31] (normalizedTab name) =
      (step (aliasNext tabAliases))^[31 + k] (normalizedTab tab) := by
    rw [Function.iterate_add_apply, hk]
  have hwithin := hfit.within name
  rw [Within, hend] at hwithin
  rw [resolveTab_eq_chase, resolveTab_eq_chase, chase_eq (by decide : 31 ≤ 32) (hfit.within tab),
    chase_eq (by decide : 31 ≤ 32) (hfit.within name), hend]
  exact final_unique (hfit.within tab) hwithin

/-- `ALIAS TAB` keeps one current value while it files together. -/
theorem oneCurrentValue_aliasTab {context : ConversationContextMeta} (h : OneCurrentValue context)
    {statement : AliasTabStmt} (hfiles : (ContextStatement.aliasTab statement).FilesTogether context) :
    OneCurrentValue ((ContextStatement.aliasTab statement).apply context) := by
  obtain ⟨halias, htarget, hfit, hclash⟩ := hfiles
  have hresolves := resolveTab_aliasTab halias htarget hfit
  refine h.apply (fun fact hfact ↦ ?_) fun a ha b hb hover ↦ ?_
  · obtain ⟨atom, hatom, rfl⟩ := List.mem_map.1 hfact
    exact h.normal atom hatom
  have hfacts : current (storedFacts context (.aliasTab statement)) = activeFacts context := h.current_eq
  rw [hfacts] at ha hb
  obtain ⟨hkey, hvalue, hother, htab⟩ := hover
  rw [hresolves, hresolves] at htab
  -- facts that lead through the alias come into the tab of the target
  split at htab <;> split at htab
  · next hpassA hpassB =>
    refine h.filedTogether a ha b hb ⟨hkey, hvalue, hother, ?_⟩
    rw [resolveTab_eq_of_passes hfit hpassA, resolveTab_eq_of_passes hfit hpassB]
  · next hpassA _ => exact hclash a ha b hb hpassA ⟨hkey, hvalue, hother, htab.symm⟩
  · next _ hpassB => exact hclash b hb a ha hpassB ⟨hkey.symm, hvalue.symm, hother.symm, htab⟩
  · exact h.filedTogether a ha b hb ⟨hkey, hvalue, hother, htab⟩

/-! ### Runs -/

/-- **Every statement that files together keeps one current value.** -/
theorem OneCurrentValue.apply_of_filesTogether {context : ConversationContextMeta} (h : OneCurrentValue context)
    {statement : ContextStatement} (hfiles : statement.FilesTogether context) :
    OneCurrentValue (statement.apply context) := by
  rcases statement with statement | statement | statement | statement
  · exact oneCurrentValue_append h hfiles
  · exact oneCurrentValue_tag h hfiles
  · exact oneCurrentValue_aliasTab h hfiles
  · exact oneCurrentValue_merge h hfiles

/-- In every run whose statements bring no contradicting facts together under different names, the active atoms
are consistent in all states reached. -/
theorem activeConsistent_of_filesTogether (name : Bytes) (statements : List ContextStatement)
    (hfiles : ∀ n (h : n < statements.length),
      statements[n].FilesTogether (runContext { name } (statements.take n))) :
    ∀ n, ActiveConsistent (runContext { name } (statements.take n)) := by
  have hrun : ∀ n ≤ statements.length, OneCurrentValue (runContext { name } (statements.take n)) := by
    intro n
    induction n with
    | zero => exact fun _ ↦ ⟨rfl, nofun, nofun⟩
    | succ n ih =>
      intro hn
      have hnext := (ih (Nat.le_of_succ_le hn)).apply_of_filesTogether (hfiles n hn)
      rw [runContext, List.take_succ_eq_append_getElem hn, List.foldl_append]
      exact hnext
  intro n
  rcases Nat.le_total n statements.length with hn | hn
  · exact (hrun n hn).consistent
  · rw [List.take_of_length_le hn, ← List.take_length (l := statements)]
    exact (hrun _ (Nat.le_refl _)).consistent

/-- A location in a tab, an alias for the tab, another location under the alias, a message that is moved there
from a third tab, and a merge with a fourth one. -/
def movedLocations : List ContextStatement :=
  [.append { context := lit "c", messageId := 1, speaker := lit "user"
             text := lit "i live in paris", tab := lit "puppy" },
    .aliasTab { context := lit "c", aliasTab := lit "cat", target := lit "puppy" },
    .append { context := lit "c", messageId := 2, speaker := lit "user"
              text := lit "i live in rome", tab := lit "cat" },
    .append { context := lit "c", messageId := 3, speaker := lit "user"
              text := lit "i live in oslo", tab := lit "home" },
    .tag { context := lit "c", messageId := 3, tab := lit "cat" },
    .merge { context := lit "c", fromTab := lit "puppy", toTab := lit "dog" }]

/-- Two locations, moved into one tab. -/
theorem activeConsistent_movedLocations : ActiveConsistent (runContext { name := lit "c" } movedLocations) :=
  activeConsistent_of_filesTogether (lit "c") movedLocations (by decide +kernel) 6

/-- Two locations in two tabs, and then an alias that joins the tabs. -/
def aliasedLocations : List ContextStatement :=
  [.append { context := lit "c", messageId := 1, speaker := lit "user"
             text := lit "i live in paris", tab := lit "puppy" },
    .append { context := lit "c", messageId := 2, speaker := lit "user"
              text := lit "i live in rome", tab := lit "dog" },
    .aliasTab { context := lit "c", aliasTab := lit "puppy", target := lit "dog" }]

/-- An alias can leave two active atoms of one resolved tab with different values. -/
theorem aliasTab_not_consistent :
    ¬∀ (name : Bytes) (statements : List ContextStatement),
      ActiveConsistent (runContext { name } statements) := by
  intro h
  exact absurd (h (lit "c") aliasedLocations) (by decide +kernel)

end SkibidiQL
