import SkibidiQL.Prompt.Noninterference
import SkibidiQL.Base.ListRules

/-!
# Isolation of tabs

An append reaches a query through the atoms and messages that match the tab of the query. `Apart` says that
the appended message does not match it, and neither does any atom of its own tab; such an append leaves
what the query looks at as it was (`matchingAtoms_appended`, `matchingMessages_appended`), positions
included, and a spilled view is a function of that.
-/

namespace SkibidiQL

open Bytes

/-- A message and a tab have nothing in common: the message does not match the tab, and no atom stored
under the tab of the message has a tag that matches it. -/
structure Apart (context : ConversationContextMeta) (message : ContextMessageMeta) (tab : Bytes) :
    Prop where
  tab_ne : resolveContextTab context message.tab ≠ resolveContextTab context tab
  tags_ne : ∀ tag ∈ message.tags, resolveContextTab context tag ≠ resolveContextTab context tab
  atoms_ne : ∀ atom ∈ context.atoms, atom.tab = message.tab →
    ∀ tag ∈ atom.tags, resolveContextTab context tag ≠ resolveContextTab context tab

/-- A tab never resolves to the empty string. -/
theorem resolveContextTab_ne_nil (context : ConversationContextMeta) (tab : Bytes) :
    resolveContextTab context tab ≠ [] :=
  resolveTab_ne_nil _ tab

section Append

variable {context : ConversationContextMeta} {message : ContextMessageMeta} {tab : Bytes}

/-- What is stored under a tab and has tags does not match another tab that neither resolves to. -/
theorem contextMatchesTab_eq_false {primaryTab : Bytes} {tags : List Bytes}
    (htab : resolveContextTab context primaryTab ≠ resolveContextTab context tab)
    (htags : ∀ tag ∈ tags, resolveContextTab context tag ≠ resolveContextTab context tab) :
    contextMatchesTab context primaryTab tags (resolveContextTab context tab) = false := by
  have hfilter : (resolveContextTab context tab).isEmpty = false :=
    List.isEmpty_eq_false_iff.2 (resolveContextTab_ne_nil context tab)
  rw [contextMatchesTab, hfilter, Bool.false_or, Bool.or_eq_false_iff]
  refine ⟨beq_eq_false_iff_ne.2 htab, List.any_eq_false.2 fun tag htag ↦ ?_⟩
  exact fun h ↦ htags tag htag (eq_of_beq h)

/-- Tabs resolve by the aliases alone. -/
theorem resolveContextTab_congr {context' : ConversationContextMeta}
    (h : context'.tabAliases = context.tabAliases) :
    resolveContextTab context' = resolveContextTab context := by
  funext tab
  rw [resolveContextTab, resolveContextTab, h]

/-- What stands in a tab depends on the aliases alone. -/
theorem contextMatchesTab_congr {context' : ConversationContextMeta}
    (h : context'.tabAliases = context.tabAliases) :
    contextMatchesTab context' = contextMatchesTab context := by
  funext tab tags tabFilter
  rw [contextMatchesTab, contextMatchesTab, resolveContextTab_congr h]

theorem invalidateFor_tab (atom : ContextAtomMeta) (invalidator : Bytes) (existing : ContextAtomMeta) :
    (invalidateFor atom invalidator existing).tab = existing.tab := by
  unfold invalidateFor
  split <;> rfl

theorem invalidateFor_tags (atom : ContextAtomMeta) (invalidator : Bytes)
    (existing : ContextAtomMeta) :
    (invalidateFor atom invalidator existing).tags = existing.tags := by
  unfold invalidateFor
  split <;> rfl

/-- An atom of another tab is not invalidated. -/
theorem invalidateFor_of_tab_ne {atom existing : ContextAtomMeta} (h : existing.tab ≠ atom.tab)
    (invalidator : Bytes) : invalidateFor atom invalidator existing = existing := by
  rw [invalidateFor, if_neg]
  simp [supersedes, h]

/-- The atoms that `shows` selects by their tab and tags, with their positions. -/
def atomsShown (shows : Bytes → List Bytes → Bool) (atoms : List ContextAtomMeta) :
    List (ContextAtomMeta × Nat) :=
  atoms.zipIdx.filter fun entry ↦ shows entry.1.tab entry.1.tags

/-- `shows` selects no atom stored under the tab. -/
def Hidden (shows : Bytes → List Bytes → Bool) (tab : Bytes) (atoms : List ContextAtomMeta) : Prop :=
  ∀ atom ∈ atoms, atom.tab = tab → shows atom.tab atom.tags = false

/-- What stands apart from a tab is hidden there. -/
theorem Apart.hidden (h : Apart context message tab) :
    Hidden (contextMatchesTab context · · (resolveContextTab context tab)) message.tab context.atoms :=
  fun atom hatom htab ↦
    contextMatchesTab_eq_false (htab ▸ h.tab_ne) (h.atoms_ne atom hatom htab)

/-- One round of the loop over the extracted atoms invalidates some and appends one. -/
theorem storeAtom_eq (message : ContextMessageMeta) (state : List ContextAtomMeta × Nat)
    (atom : ContextAtomMeta) :
    ∃ invalidator stored, (storeAtom message state atom).1 =
      state.1.map (invalidateFor atom invalidator) ++ [stored] ∧
        stored.tab = atom.tab ∧ stored.tags = message.tags :=
  ⟨_, _, rfl, rfl, rfl⟩

section Store

variable {shows : Bytes → List Bytes → Bool} (hmessage : shows message.tab message.tags = false)
include hmessage

/-- One round of the loop over the extracted atoms changes no atom that is shown. -/
theorem storeAtom_shown {atom : ContextAtomMeta} (hatom : atom.tab = message.tab)
    {state : List ContextAtomMeta × Nat} (hstate : Hidden shows message.tab state.1) :
    Hidden shows message.tab (storeAtom message state atom).1 ∧
      atomsShown shows (storeAtom message state atom).1 = atomsShown shows state.1 := by
  obtain ⟨invalidator, stored, heq, htab, htags⟩ := storeAtom_eq message state atom
  have hstored : shows stored.tab stored.tags = false := by rwa [htab, hatom, htags]
  rw [heq]
  constructor
  · intro later hmem hlater
    rcases List.mem_append.1 hmem with hmem | hmem
    · obtain ⟨existing, hexisting, rfl⟩ := List.mem_map.1 hmem
      rw [invalidateFor_tab] at hlater
      rw [invalidateFor_tab, invalidateFor_tags]
      exact hstate existing hexisting hlater
    · rw [List.mem_singleton.1 hmem]
      exact hstored
  · refine List.filter_zipIdx_map_append (p := fun a : ContextAtomMeta ↦ shows a.tab a.tags)
      ?_ ?_ ?_ 0
    · intro existing hexisting hshown
      refine invalidateFor_of_tab_ne (fun htab ↦ ?_) _
      rw [hstate existing hexisting (htab.trans hatom)] at hshown
      exact Bool.false_ne_true hshown
    · intro existing _
      rw [invalidateFor_tab, invalidateFor_tags]
    · intro later hmem
      rw [List.mem_singleton.1 hmem]
      exact hstored

/-- The whole loop changes no atom that is shown. -/
theorem storeAtoms_shown {atoms : List ContextAtomMeta} (hatoms : ∀ atom ∈ atoms, atom.tab = message.tab)
    {state : List ContextAtomMeta × Nat} (hstate : Hidden shows message.tab state.1) :
    atomsShown shows (atoms.foldl (storeAtom message) state).1 = atomsShown shows state.1 := by
  induction atoms generalizing state with
  | nil => rfl
  | cons atom atoms ih =>
    obtain ⟨hatom, hrest⟩ := List.forall_mem_cons.1 hatoms
    obtain ⟨hnext, hsame⟩ := storeAtom_shown hmessage hatom hstate
    rw [List.foldl_cons, ih hrest hnext, hsame]

end Store

/-- The atoms extracted from a message are stored under its tab. -/
theorem extractContextAtoms_tab (statement : AppendMemoryStmt) {atom : ContextAtomMeta}
    (hatom : atom ∈ extractContextAtoms statement) : atom.tab = normalizedTab statement.tab :=
  congrArg ContextAtomMeta.tab (extractContextAtoms_isExtracted statement atom hatom)

end Append

/-! ### What a spilled view looks at -/

section View

variable {context context' : ConversationContextMeta} {tabFilter : Bytes}

/-- The ranking depends on the atoms of the tab. -/
theorem rankedAtoms_congr (hatoms : matchingAtoms context' tabFilter = matchingAtoms context tabFilter)
    (lowerQuery : Bytes) :
    rankedAtoms context' tabFilter lowerQuery = rankedAtoms context tabFilter lowerQuery := by
  rw [rankedAtoms, rankedAtoms, activeCandidates, activeCandidates, hatoms]

/-- The labels depend on its messages and atoms. -/
theorem visibleLabels_congr
    (hmessages : matchingMessages context' tabFilter = matchingMessages context tabFilter)
    (hatoms : matchingAtoms context' tabFilter = matchingAtoms context tabFilter) :
    visibleLabels context' tabFilter = visibleLabels context tabFilter := by
  rw [visibleLabels, visibleLabels, hmessages, hatoms]

theorem visibleEntities_congr
    (hmessages : matchingMessages context' tabFilter = matchingMessages context tabFilter) :
    visibleEntities context' tabFilter = visibleEntities context tabFilter := by
  rw [visibleEntities, visibleEntities, hmessages]

/-- A spilled view is determined by the name of the context, the tab filter, and the atoms and messages
that match it, but for the row that counts the messages. -/
theorem spillContext_congr {statement : ContextQueryStmt} (hname : context'.name = context.name)
    (hfilter : tabFilterOf context' statement.tab = tabFilterOf context statement.tab)
    (hmessages : matchingMessages context' (tabFilterOf context statement.tab) =
      matchingMessages context (tabFilterOf context statement.tab))
    (hatoms : matchingAtoms context' (tabFilterOf context statement.tab) =
      matchingAtoms context (tabFilterOf context statement.tab)) :
    spillContext context' statement =
      { spillContext context statement with
        rows := (spillContext context statement).rows.set 5
          (keyValue (lit "messages") (ofNat context'.messages.length)) } := by
  unfold spillContext
  simp only [hname, hfilter, rankedAtoms_congr hatoms, visibleLabels_congr hmessages hatoms,
    visibleEntities_congr hmessages, hatoms]
  rfl

end View

/-! ### The append -/

section Appended

variable {context context' : ConversationContextMeta} {statement : AppendMemoryStmt}
  {result : NativeQueryResult} {tab : Bytes}

/-- What a successful append stores. -/
theorem appendMemory_eq_ok (h : appendMemory context statement = .ok (context', result)) :
    context'.name = context.name ∧ context'.tabAliases = context.tabAliases ∧
      context'.messages = context.messages ++ [appendedMessage context statement] ∧
      context'.atoms = ((extractContextAtoms
        { statement with tab := (appendedMessage context statement).tab }).foldl
          (storeAtom (appendedMessage context statement)) (context.atoms, 0)).1 := by
  rw [appendMemory] at h
  split at h
  · cases h
  · dsimp only at h
    generalize List.foldl (storeAtom (appendedMessage context statement)) (context.atoms, 0) _ =
      state at h ⊢
    rw [← (Prod.mk.inj (Except.ok.inj h)).1]
    exact ⟨rfl, rfl, rfl, rfl⟩

variable (happend : appendMemory context statement = .ok (context', result))
  (hapart : Apart context (appendedMessage context statement) tab)
include happend hapart

/-- A message that stands apart is none of the tab. -/
theorem matchingMessages_appended : matchingMessages context' (resolveContextTab context tab) =
    matchingMessages context (resolveContextTab context tab) := by
  obtain ⟨-, haliases, hmessages, -⟩ := appendMemory_eq_ok happend
  have hhidden := contextMatchesTab_eq_false hapart.tab_ne hapart.tags_ne
  rw [matchingMessages, matchingMessages, contextMatchesTab_congr haliases, hmessages,
    List.filter_append, List.filter_singleton, hhidden]
  exact List.append_nil _

/-- The atoms of such a message are none of the tab, and they invalidate none there. -/
theorem matchingAtoms_appended (hmessage : normalizedTab (appendedMessage context statement).tab =
      (appendedMessage context statement).tab) :
    matchingAtoms context' (resolveContextTab context tab) =
      matchingAtoms context (resolveContextTab context tab) := by
  obtain ⟨-, haliases, -, hatoms⟩ := appendMemory_eq_ok happend
  have hextracted : ∀ atom ∈ extractContextAtoms
      { statement with tab := (appendedMessage context statement).tab },
      atom.tab = (appendedMessage context statement).tab :=
    fun atom hatom ↦ (extractContextAtoms_tab _ hatom).trans hmessage
  have hmatches := contextMatchesTab_eq_false hapart.tab_ne hapart.tags_ne
  rw [matchingAtoms, matchingAtoms, contextMatchesTab_congr haliases, hatoms]
  exact @storeAtoms_shown _ (contextMatchesTab context · · (resolveContextTab context tab)) hmatches _
    hextracted (context.atoms, 0) hapart.hidden

end Appended

/-- An append to another tab changes, of what a spilled view of a tab returns, the count of all messages
only. -/
theorem spillContext_appendMemory {context context' : ConversationContextMeta}
    {statement : AppendMemoryStmt} {result : NativeQueryResult} {query : ContextQueryStmt}
    (happend : appendMemory context statement = .ok (context', result))
    (hquery : normalizedTab query.tab = query.tab)
    (hmessage : normalizedTab (appendedMessage context statement).tab =
      (appendedMessage context statement).tab)
    (hapart : Apart context (appendedMessage context statement) query.tab) :
    spillContext context' query =
      { spillContext context query with
        rows := (spillContext context query).rows.set 5
          (keyValue (lit "messages") (ofNat (context.messages.length + 1))) } := by
  obtain ⟨hname, haliases, hcount, -⟩ := appendMemory_eq_ok happend
  have hfilter : tabFilterOf context query.tab = resolveContextTab context query.tab := by
    rw [tabFilterOf, if_neg]
    intro hempty
    exact normalizedTab_ne_nil query.tab (hquery.trans (List.isEmpty_iff.1 hempty))
  have hmessages := matchingMessages_appended happend hapart
  have hatoms := matchingAtoms_appended happend hapart hmessage
  rw [← hfilter] at hmessages hatoms
  have hlength : context'.messages.length = context.messages.length + 1 := by
    rw [hcount, List.length_append, List.length_singleton]
  rw [← hlength]
  refine spillContext_congr hname ?_ hmessages hatoms
  rw [tabFilterOf, tabFilterOf, resolveContextTab_congr haliases]

/-- A context with a memory on the tab `home`. -/
def homeContext : ConversationContextMeta where
  name := lit "c"
  messages := [{ id := 1, speaker := lit "user", text := lit "todo: water the plants"
                 tab := lit "home", tags := [lit "home"] }]
  atoms := [{ key := lit "task", value := lit "water the plants", type := lit "task"
              status := lit "active", source := lit "message_1", tab := lit "home"
              tags := [lit "home"] }]

/-- A memory for the tab `office`. -/
def officeMemory : AppendMemoryStmt where
  context := lit "c"
  messageId := 2
  speaker := lit "user"
  text := lit "todo: water the ferns"
  tab := lit "office"

/-- A query on the tab `home`. -/
def homeQuery : ContextQueryStmt where
  context := lit "c"
  query := lit "what is open"
  tab := lit "home"

/-- A message in the office, seen from home. -/
theorem spillContext_appendMemory_office :
    ∃ context' result, appendMemory homeContext officeMemory = .ok (context', result) ∧
      spillContext context' homeQuery =
        { spillContext homeContext homeQuery with
          rows := (spillContext homeContext homeQuery).rows.set 5
            (keyValue (lit "messages") (ofNat (homeContext.messages.length + 1))) } := by
  have hisOk : (appendMemory homeContext officeMemory).toOption.isSome := by decide +kernel
  rcases happend : appendMemory homeContext officeMemory with e | ⟨context', result⟩
  · rw [happend] at hisOk
    exact absurd hisOk Bool.false_ne_true
  · refine ⟨context', result, rfl, spillContext_appendMemory happend (by decide +kernel)
      (by decide +kernel) ⟨by decide +kernel, by decide +kernel, by decide +kernel⟩⟩

end SkibidiQL
