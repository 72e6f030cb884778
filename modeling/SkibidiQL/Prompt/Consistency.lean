import SkibidiQL.Prompt.Statements

/-!
# Active atoms of a context

The statements keep one invariant exactly (`StatusExact`): an atom is active when no later atom with the
same key and the same *stored* tab has another value. Readers compare *resolved* tabs
(`ActiveConsistent`). The two agree exactly as long as contradicting active atoms of one resolved tab are
stored under one name (`activeConsistent_iff`).
-/

namespace SkibidiQL

/-- What an atom states: a value for a key within a tab, under the name it is stored with. -/
structure Fact where
  key : Bytes
  tab : Bytes
  value : Bytes
deriving DecidableEq

/-- The fact of an atom. -/
def ContextAtomMeta.fact (atom : ContextAtomMeta) : Fact :=
  ⟨atom.key, atom.tab, atom.value⟩

/-- The atom is active. -/
def ContextAtomMeta.isActive (atom : ContextAtomMeta) : Bool :=
  atom.status == lit "active"

/-- A later fact `b` replaces `a`: another value for the same key under the same stored tab. -/
def Fact.replaces (b a : Fact) : Bool :=
  a.key == b.key && a.tab == b.tab && a.value != b.value

/-- The facts that no later one replaces. -/
def current : List Fact → List Fact
  | [] => []
  | a :: facts => if facts.any (·.replaces a) then current facts else a :: current facts

/-- No two active atoms have the same key and the same resolved tab but different values. -/
def ActiveConsistent (context : ConversationContextMeta) : Prop :=
  ∀ a ∈ context.atoms, ∀ b ∈ context.atoms, a.isActive → b.isActive → a.key = b.key →
    resolveContextTab context a.tab = resolveContextTab context b.tab → a.value = b.value

instance (context : ConversationContextMeta) : Decidable (ActiveConsistent context) := by
  unfold ActiveConsistent
  infer_instance

/-- Two contradicting facts of one resolved tab that are stored under different names. -/
def Fact.Overlooked (tabAliases : List ContextTabAliasMeta) (a b : Fact) : Prop :=
  a.key = b.key ∧ a.value ≠ b.value ∧ a.tab ≠ b.tab ∧
    resolveTab tabAliases a.tab = resolveTab tabAliases b.tab

/-- The facts that a statement stores, with the tab names it stores them under. -/
def storedFacts (context : ConversationContextMeta) : ContextStatement → List Fact
  | .append statement =>
    if context.messages.any fun message ↦ message.id == statement.messageId then
      context.atoms.map (·.fact)
    else
      context.atoms.map (·.fact) ++
        (extractContextAtoms { statement with
          tab := (appendedMessage context statement).tab }).map (·.fact)
  | .tag statement =>
    let source := lit "message_" ++ Bytes.ofNat statement.messageId.toNat
    let tab := resolveContextTab context statement.tab
    if context.messages.any fun message ↦ message.id == statement.messageId then
      context.atoms.map fun atom ↦
        { atom.fact with tab := normalizedTab (if atom.source = source then tab else atom.tab) }
    else context.atoms.map (·.fact)
  | .aliasTab _ => context.atoms.map (·.fact)
  | .merge statement =>
    let source := resolveContextTab context statement.fromTab
    let target := resolveContextTab context statement.toTab
    if source ≠ target then
      context.atoms.map fun atom ↦ { atom.fact with
        tab := normalizedTab
          (if resolveContextTab context atom.tab = source then target else atom.tab) }
    else context.atoms.map (·.fact)

/-- The alias table that a statement stores. -/
def storedAliases (context : ConversationContextMeta) : ContextStatement → List ContextTabAliasMeta
  | .append _ => context.tabAliases
  | .tag _ => context.tabAliases
  | .aliasTab statement =>
    (setContextTabAlias context (normalizedTab statement.aliasTab)
      (resolveContextTab context statement.target)).tabAliases
  | .merge statement =>
    let source := resolveContextTab context statement.fromTab
    let target := resolveContextTab context statement.toTab
    if source ≠ target then (mergedContext context source target).tabAliases
    else context.tabAliases

/-- The facts of the active atoms are the current ones. -/
def StatusExact (atoms : List ContextAtomMeta) : Prop :=
  (atoms.filter (·.isActive)).map (·.fact) = current (atoms.map (·.fact))

/-! ### Current facts -/

/-- Current facts are among the facts. -/
theorem mem_of_mem_current {facts : List Fact} {a : Fact} (h : a ∈ current facts) : a ∈ facts := by
  induction facts with
  | nil => exact h
  | cons f facts ih =>
    unfold current at h
    split at h
    · exact List.mem_cons_of_mem _ (ih h)
    · rcases List.mem_cons.1 h with rfl | h
      · exact List.mem_cons_self
      · exact List.mem_cons_of_mem _ (ih h)

/-- Current facts with one key and one stored tab agree on the value. -/
theorem current_agree {facts : List Fact} {a b : Fact} (ha : a ∈ current facts)
    (hb : b ∈ current facts) (hkey : a.key = b.key) (htab : a.tab = b.tab) :
    a.value = b.value := by
  induction facts with
  | nil => cases ha
  | cons f facts ih =>
    unfold current at ha hb
    split at ha
    · rename_i hreplaced
      rw [if_pos hreplaced] at hb
      exact ih ha hb
    · rename_i hkept
      rw [if_neg hkept] at hb
      have hagree : ∀ g ∈ current facts, g.key = f.key → g.tab = f.tab → f.value = g.value := by
        intro g hg hgkey hgtab
        by_contra hne
        refine hkept (List.any_eq_true.2 ⟨g, mem_of_mem_current hg, ?_⟩)
        simp [Fact.replaces, hgkey, hgtab, hne]
      rcases List.mem_cons.1 ha with rfl | ha' <;> rcases List.mem_cons.1 hb with rfl | hb'
      · rfl
      · exact hagree b hb' hkey.symm htab.symm
      · exact (hagree a ha' hkey htab).symm
      · exact ih ha' hb'

/-- A new last fact is current and removes the ones it replaces. -/
theorem current_append (facts : List Fact) (a : Fact) :
    current (facts ++ [a]) = (current facts).filter (fun f ↦ !a.replaces f) ++ [a] := by
  induction facts with
  | nil => simp [current]
  | cons f facts ih =>
    rw [List.cons_append, current, current, ih, List.any_append]
    by_cases hlater : facts.any (·.replaces f)
    · simp [hlater]
    · by_cases hlast : a.replaces f <;> simp [hlater, hlast]

/-! ### The statuses that the statements keep -/

@[simp]
theorem invalidateFor_fact (atom : ContextAtomMeta) (invalidator : Bytes)
    (existing : ContextAtomMeta) : (invalidateFor atom invalidator existing).fact = existing.fact := by
  unfold invalidateFor
  split <;> rfl

theorem supersedes_eq (atom existing : ContextAtomMeta) :
    supersedes atom existing = (existing.isActive && atom.fact.replaces existing.fact) := by
  simp [supersedes, Fact.replaces, ContextAtomMeta.isActive, ContextAtomMeta.fact, Bool.and_assoc]

/-- These are no longer active, and the others are left. -/
theorem invalidateFor_isActive (atom : ContextAtomMeta) (invalidator : Bytes)
    (existing : ContextAtomMeta) : (invalidateFor atom invalidator existing).isActive =
      (existing.isActive && !atom.fact.replaces existing.fact) := by
  unfold invalidateFor
  rw [supersedes_eq]
  by_cases hactive : existing.isActive <;> by_cases hreplaces : atom.fact.replaces existing.fact
  · simp only [hactive, hreplaces]
    rfl
  all_goals simp [hactive, hreplaces]

/-- Storing one more atom and invalidating the ones it contradicts. -/
theorem StatusExact.store {atoms : List ContextAtomMeta} (h : StatusExact atoms)
    {atom stored : ContextAtomMeta} (hfact : stored.fact = atom.fact) (hactive : stored.isActive)
    (invalidator : Bytes) :
    StatusExact (atoms.map (invalidateFor atom invalidator) ++ [stored]) := by
  have hfacts : (atoms.map (invalidateFor atom invalidator)).map (·.fact) = atoms.map (·.fact) := by
    simp [Function.comp_def]
  have hfilter : ((atoms.map (invalidateFor atom invalidator)).filter (·.isActive)).map (·.fact) =
      ((atoms.filter (·.isActive)).map (·.fact)).filter fun f ↦ !atom.fact.replaces f := by
    simp only [List.filter_map, List.map_map, Function.comp_def, invalidateFor_isActive,
      invalidateFor_fact, List.filter_filter, Bool.and_comm]
  unfold StatusExact at h ⊢
  rw [List.filter_append, List.map_append, List.map_append, hfacts, hfilter, h, List.map_singleton,
    hfact, current_append]
  simp [hactive, hfact]

/-- Recomputing gives exact statuses and leaves the facts. -/
theorem invalidatePrior_spec {done : List ContextAtomMeta} (hdone : StatusExact done)
    {atoms : List ContextAtomMeta} (hatoms : ∀ a ∈ atoms, a.isActive) :
    StatusExact (invalidatePrior done atoms) ∧
      (invalidatePrior done atoms).map (·.fact) = (done ++ atoms).map (·.fact) := by
  induction atoms generalizing done with
  | nil => simpa [invalidatePrior] using hdone
  | cons atom atoms ih =>
    obtain ⟨hexact, hfacts⟩ := ih (hdone.store rfl (hatoms atom List.mem_cons_self) atom.source)
      fun a ha ↦ hatoms a (List.mem_cons_of_mem _ ha)
    refine ⟨hexact, ?_⟩
    rw [invalidatePrior, hfacts]
    simp [Function.comp_def]

/-- `recomputeContextAtomStatus` makes the statuses exact. -/
theorem recompute_spec (context : ConversationContextMeta) :
    StatusExact (recomputeContextAtomStatus context).atoms ∧
      (recomputeContextAtomStatus context).atoms.map (·.fact) =
        context.atoms.map fun atom ↦ { atom.fact with tab := normalizedTab atom.tab } := by
  have hactive : ∀ a ∈ context.atoms.map resetAtom, a.isActive := by
    intro a ha
    obtain ⟨atom, -, rfl⟩ := List.mem_map.1 ha
    rfl
  have hnil : StatusExact [] := rfl
  obtain ⟨hexact, hfacts⟩ := invalidatePrior_spec hnil hactive
  refine ⟨hexact, hfacts.trans ?_⟩
  simp [Function.comp_def, resetAtom, ContextAtomMeta.fact]

/-- Storing atoms keeps the statuses exact and adds their facts. -/
theorem storeAtom_fold_spec (message : ContextMessageMeta) (extracted : List ContextAtomMeta)
    (hactive : ∀ a ∈ extracted, a.isActive) {atoms : List ContextAtomMeta} (h : StatusExact atoms)
    (n : Nat) :
    StatusExact (extracted.foldl (storeAtom message) (atoms, n)).1 ∧
      (extracted.foldl (storeAtom message) (atoms, n)).1.map (·.fact) =
        (atoms ++ extracted).map (·.fact) := by
  induction extracted generalizing atoms n with
  | nil => simpa using h
  | cons atom extracted ih =>
    have hstored : StatusExact (storeAtom message (atoms, n) atom).1 := by
      refine StatusExact.store h ?_ ?_ _
      · rfl
      · exact hactive atom List.mem_cons_self
    obtain ⟨hexact, hfacts⟩ := ih (fun a ha ↦ hactive a (List.mem_cons_of_mem _ ha)) hstored
      (storeAtom message (atoms, n) atom).2
    refine ⟨hexact, hfacts.trans ?_⟩
    simp only [storeAtom, List.map_append, List.map_map, Function.comp_def, invalidateFor_fact,
      List.append_assoc, List.map_cons]
    rfl

/-- An extracted atom is active. -/
theorem extractedAtom_isActive {statement : AppendMemoryStmt} {key : Bytes}
    {extracted : ExtractedValue} {type rule confidence : Bytes} :
    ∀ a ∈ extractedAtom statement key extracted type rule confidence, a.isActive := by
  intro a ha
  unfold extractedAtom at ha
  split at ha
  · cases ha
  · rw [List.mem_singleton.1 ha]
    rfl

/-- An atom that a marker gives is active. -/
theorem markerAtoms_isActive {statement : AppendMemoryStmt} {markers : List String}
    {key type : String} : ∀ a ∈ markerAtoms statement markers key type, a.isActive := by
  intro a ha
  unfold markerAtoms at ha
  split at ha
  · cases ha
  · exact extractedAtom_isActive a ha

/-- Every extracted atom starts active. -/
theorem extractContextAtoms_isActive (statement : AppendMemoryStmt) :
    ∀ a ∈ extractContextAtoms statement, a.isActive := by
  have hremember : ∀ a ∈ rememberAtoms statement, a.isActive := by
    intro a ha
    unfold rememberAtoms at ha
    split at ha
    · cases ha
    · exact extractedAtom_isActive a ha
  have hconstraint : ∀ a ∈ constraintAtoms statement, a.isActive := by
    intro a ha
    unfold constraintAtoms at ha
    split at ha
    · cases ha
    · exact extractedAtom_isActive a ha
  have hquestion : ∀ a ∈ questionAtoms statement, a.isActive := by
    intro a ha
    simp only [questionAtoms] at ha
    split at ha
    · split at ha
      · cases ha
      · exact extractedAtom_isActive a ha
    · cases ha
  unfold extractContextAtoms
  simp only [List.forall_mem_append]
  exact ⟨⟨⟨⟨⟨⟨⟨⟨⟨markerAtoms_isActive, markerAtoms_isActive⟩, markerAtoms_isActive⟩,
    markerAtoms_isActive⟩, hremember⟩, hconstraint⟩, markerAtoms_isActive⟩, markerAtoms_isActive⟩,
    markerAtoms_isActive⟩, hquestion⟩

/-- A message is retagged when there is one of that id. -/
theorem retagMessages_isSome (context : ConversationContextMeta) (messageId : UInt64) (tab : Bytes)
    (messages : List ContextMessageMeta) :
    (retagMessages context messageId tab messages).isSome =
      messages.any fun message ↦ message.id == messageId := by
  induction messages with
  | nil => rfl
  | cons message messages ih =>
    unfold retagMessages
    by_cases hid : message.id = messageId <;> simp [hid, ih]

/-! ### Steps and runs -/

/-- A statement keeps the statuses exact, for the facts and the aliases it stores. -/
theorem apply_spec {context : ConversationContextMeta} (h : StatusExact context.atoms)
    (statement : ContextStatement) :
    StatusExact (statement.apply context).atoms ∧
      (statement.apply context).atoms.map (·.fact) = storedFacts context statement ∧
      (statement.apply context).tabAliases = storedAliases context statement := by
  cases statement with
  | append statement =>
    simp only [ContextStatement.apply, ContextStatement.execute, appendMemory, storedFacts,
      storedAliases, pure, Except.pure]
    by_cases hduplicate : context.messages.any fun message ↦ message.id == statement.messageId
    · rw [if_pos hduplicate, if_pos hduplicate]
      exact ⟨h, rfl, rfl⟩
    · rw [if_neg hduplicate, if_neg hduplicate]
      obtain ⟨hexact, hfacts⟩ := storeAtom_fold_spec (appendedMessage context statement)
        (extractContextAtoms { statement with tab := (appendedMessage context statement).tab })
        (extractContextAtoms_isActive _) h 0
      exact ⟨hexact, by simpa using hfacts, rfl⟩
  | tag statement =>
    have hsome := retagMessages_isSome context statement.messageId
      (resolveContextTab context statement.tab) context.messages
    simp only [ContextStatement.apply, ContextStatement.execute, tagMemory, storedFacts,
      storedAliases, pure, Except.pure, ← hsome]
    cases hretag : retagMessages context statement.messageId
        (resolveContextTab context statement.tab) context.messages with
    | none => exact ⟨h, rfl, rfl⟩
    | some messages =>
      -- Tabs move and the statuses are computed anew, so only the facts have to be compared.
      obtain ⟨hexact, hfacts⟩ := recompute_spec { context with
        messages
        atoms := context.atoms.map (retagAtom context
          (lit "message_" ++ Bytes.ofNat statement.messageId.toNat)
          (resolveContextTab context statement.tab)) }
      refine ⟨hexact, hfacts.trans ?_, rfl⟩
      simp only [List.map_map, Option.isSome_some, if_true]
      refine List.map_congr_left fun atom _ ↦ ?_
      by_cases hsource : atom.source = lit "message_" ++ Bytes.ofNat statement.messageId.toNat <;>
        simp [retagAtom, hsource, ContextAtomMeta.fact]
  | aliasTab statement => exact ⟨h, rfl, rfl⟩
  | merge statement =>
    simp only [ContextStatement.apply, ContextStatement.execute, mergeTabs, storedFacts,
      storedAliases, pure, Except.pure]
    by_cases hsame : resolveContextTab context statement.fromTab ≠
        resolveContextTab context statement.toTab
    · obtain ⟨hexact, hfacts⟩ := recompute_spec (mergedContext context
        (resolveContextTab context statement.fromTab) (resolveContextTab context statement.toTab))
      rw [if_pos hsame, if_pos hsame, if_pos hsame]
      refine ⟨hexact, hfacts.trans ?_, rfl⟩
      simp [mergedContext, setContextTabAlias, mergeAtom, ContextAtomMeta.fact]
    · rw [if_neg hsame, if_neg hsame, if_neg hsame]
      exact ⟨h, rfl, rfl⟩

/-- With exact statuses, active atoms are consistent exactly when no contradicting current facts of one
resolved tab are stored under different names. -/
theorem activeConsistent_iff {context : ConversationContextMeta} (h : StatusExact context.atoms) :
    ActiveConsistent context ↔
      ∀ a ∈ current (context.atoms.map (·.fact)), ∀ b ∈ current (context.atoms.map (·.fact)),
        ¬Fact.Overlooked context.tabAliases a b := by
  unfold StatusExact at h
  rw [← h]
  constructor
  · rintro hconsistent f hf g hg ⟨hkey, hvalue, -, htab⟩
    obtain ⟨a, ha, rfl⟩ := List.mem_map.1 hf
    obtain ⟨b, hb, rfl⟩ := List.mem_map.1 hg
    rw [List.mem_filter] at ha hb
    exact hvalue (hconsistent a ha.1 b hb.1 ha.2 hb.2 hkey htab)
  · intro hnone a ha b hb hactiveA hactiveB hkey htab
    by_contra hvalue
    have hfactA := List.mem_map_of_mem (f := (·.fact)) (List.mem_filter.2 ⟨ha, hactiveA⟩)
    have hfactB := List.mem_map_of_mem (f := (·.fact)) (List.mem_filter.2 ⟨hb, hactiveB⟩)
    refine hnone _ hfactA _ hfactB ⟨hkey, hvalue, fun hstored ↦ ?_, htab⟩
    rw [h] at hfactA hfactB
    exact hvalue (current_agree hfactA hfactB hkey hstored)

/-- A context with its statements so far. -/
def runContext (context : ConversationContextMeta) (statements : List ContextStatement) :
    ConversationContextMeta :=
  statements.foldl ContextStatement.apply context

/-- **Statuses are exact in every state reached.** -/
theorem runContext_statusExact (name : Bytes) (statements : List ContextStatement) :
    StatusExact (runContext { name } statements).atoms := by
  have hrun : ∀ context : ConversationContextMeta, StatusExact context.atoms →
      StatusExact (runContext context statements).atoms := by
    induction statements with
    | nil => exact fun _ h ↦ h
    | cons statement statements ih => exact fun context h ↦ ih _ (apply_spec h statement).1
  exact hrun { name } rfl

end SkibidiQL
