import SkibidiQL.Catalog.CatalogRoundTrip
import SkibidiQL.Catalog.CatalogSteps
import SkibidiQL.Prompt.Noninterference

/-!
# Reachable catalogs survive a restart

No statement leaves a field empty for which the reader of the catalog file has a default: a column type is
one of `columnTypes`, and every tab that is stored has been normalized. So a reachable catalog is
`CatalogOK`, and what is saved of it is what is loaded.
-/

namespace SkibidiQL

open Bytes CatalogFile

/-! ### Contexts -/

/-- An alias entry that the reader keeps. -/
def AliasOK (entry : ContextTabAliasMeta) : Prop :=
  entry.aliasTab ≠ [] ∧ entry.target ≠ []

/-- An appended message is well formed. -/
theorem appendedMessage_ok (context : ConversationContextMeta) (statement : AppendMemoryStmt) :
    MessageOK (appendedMessage context statement) where
  tab := resolveTab_ne_nil _ _
  schemaName := show lit "ConversationMessage" ≠ [] by decide
  schemaVersion := show lit "v1" ≠ [] by decide
  storageRoute := show ({} : ContextMessageMeta).storageRoute ≠ [] by decide

/-- Invalidation keeps an atom well formed. -/
theorem CatalogFile.AtomOK.invalidateFor {existing : ContextAtomMeta} (h : AtomOK existing) (atom : ContextAtomMeta)
    (invalidator : Bytes) : AtomOK (invalidateFor atom invalidator existing) := by
  unfold SkibidiQL.invalidateFor
  split
  · exact ⟨h.tab, h.schemaName, h.schemaVersion, h.extractorConfidence⟩
  · exact h

theorem ruleConfidence_ne_nil (rule : Bytes) : ruleConfidence rule ≠ [] := by
  rw [ruleConfidence]
  split <;> decide

/-- Storing an extracted atom keeps the atoms well formed. -/
theorem storeAtom_ok (message : ContextMessageMeta) {state : List ContextAtomMeta × Nat}
    (hstate : ∀ atom ∈ state.1, AtomOK atom) {statement : AppendMemoryStmt} {atom : ContextAtomMeta}
    (hatom : atom.IsExtracted statement) : ∀ stored ∈ (storeAtom message state atom).1, AtomOK stored := by
  intro stored hstored
  rcases List.mem_append.1 hstored with hstored | hstored
  · obtain ⟨existing, hexisting, rfl⟩ := List.mem_map.1 hstored
    exact (hstate existing hexisting).invalidateFor _ _
  · rw [List.mem_singleton.1 hstored, hatom]
    exact ⟨normalizedTab_ne_nil _, show lit "ContextAtom" ≠ [] by decide,
      show lit "v1" ≠ [] by decide, ruleConfidence_ne_nil _⟩

/-- Storing several extracted atoms keeps the atoms well formed. -/
theorem storeAtoms_ok (message : ContextMessageMeta) {statement : AppendMemoryStmt}
    {atoms : List ContextAtomMeta} (hatoms : ∀ atom ∈ atoms, atom.IsExtracted statement)
    {state : List ContextAtomMeta × Nat} (hstate : ∀ atom ∈ state.1, AtomOK atom) :
    ∀ stored ∈ (atoms.foldl (storeAtom message) state).1, AtomOK stored := by
  induction atoms generalizing state with
  | nil => exact hstate
  | cons atom atoms ih =>
    exact ih (fun atom hatom ↦ hatoms atom (List.mem_cons_of_mem _ hatom))
      (storeAtom_ok message hstate (hatoms atom List.mem_cons_self))

/-- Retagging keeps the messages well formed. -/
theorem retagMessages_ok {context : ConversationContextMeta} {id : UInt64} {tab : Bytes} (htab : tab ≠ [])
    {messages messages' : List ContextMessageMeta}
    (h : retagMessages context id tab messages = some messages')
    (hmessages : ∀ message ∈ messages, MessageOK message) : ∀ message ∈ messages', MessageOK message := by
  induction messages generalizing messages' with
  | nil => cases h
  | cons first messages ih =>
    have hfirst := hmessages first List.mem_cons_self
    have hrest := fun message hmessage ↦ hmessages message (List.mem_cons_of_mem _ hmessage)
    unfold retagMessages at h
    split at h
    · cases h
      refine List.forall_mem_cons.2 ⟨?_, hrest⟩
      exact ⟨htab, hfirst.schemaName, hfirst.schemaVersion, hfirst.storageRoute⟩
    · obtain ⟨rest, hretag, rfl⟩ := Option.map_eq_some_iff.1 h
      exact List.forall_mem_cons.2 ⟨hfirst, ih hretag hrest⟩

/-- Recomputing keeps the atoms well formed. -/
theorem invalidatePrior_ok {done atoms : List ContextAtomMeta} (hdone : ∀ atom ∈ done, AtomOK atom)
    (hatoms : ∀ atom ∈ atoms, AtomOK atom) : ∀ atom ∈ invalidatePrior done atoms, AtomOK atom := by
  induction atoms generalizing done with
  | nil => exact hdone
  | cons atom atoms ih =>
    refine ih (fun stored hstored ↦ ?_) fun atom hatom ↦ hatoms atom (List.mem_cons_of_mem _ hatom)
    rcases List.mem_append.1 hstored with hstored | hstored
    · obtain ⟨existing, hexisting, rfl⟩ := List.mem_map.1 hstored
      exact (hdone existing hexisting).invalidateFor _ _
    · rw [List.mem_singleton.1 hstored]
      exact hatoms atom List.mem_cons_self

/-- Recomputing keeps the context well formed. -/
theorem CatalogFile.ContextOK.recompute {context : ConversationContextMeta} (h : ContextOK context) :
    ContextOK (recomputeContextAtomStatus context) where
  messages := h.messages
  atoms := by
    refine invalidatePrior_ok nofun fun atom hatom ↦ ?_
    obtain ⟨existing, hexisting, rfl⟩ := List.mem_map.1 hatom
    have hok := h.atoms existing hexisting
    exact ⟨normalizedTab_ne_nil _, hok.schemaName, hok.schemaVersion, hok.extractorConfidence⟩
  tabAliases := h.tabAliases

/-- Replacing an alias keeps the aliases well formed. -/
theorem replaceAlias_ok {entry : ContextTabAliasMeta} (hentry : AliasOK entry)
    {entries : List ContextTabAliasMeta} (hentries : ∀ entry ∈ entries, AliasOK entry) :
    ∀ entry' ∈ replaceAlias entry entries, AliasOK entry' := by
  induction entries with
  | nil =>
    intro entry' hentry'
    rw [List.mem_singleton.1 hentry']
    exact hentry
  | cons existing entries ih =>
    have hrest := fun entry' hentry' ↦ hentries entry' (List.mem_cons_of_mem _ hentry')
    unfold replaceAlias
    split
    · exact List.forall_mem_cons.2 ⟨hentry, hrest⟩
    · exact List.forall_mem_cons.2 ⟨hentries existing List.mem_cons_self, ih hrest⟩

/-- A tab alias keeps the context well formed. -/
theorem CatalogFile.ContextOK.setTabAlias {context : ConversationContextMeta} (h : ContextOK context)
    (aliasValue target : Bytes) : ContextOK (setContextTabAlias context aliasValue target) where
  messages := h.messages
  atoms := h.atoms
  tabAliases := replaceAlias_ok ⟨normalizedTab_ne_nil _, resolveTab_ne_nil _ _⟩ h.tabAliases

/-- Merging keeps the aliases well formed. -/
theorem mergeAliases_ok {source target : Bytes} (htarget : target ≠ [])
    {done entries : List ContextTabAliasMeta} (hdone : ∀ entry ∈ done, AliasOK entry)
    (hentries : ∀ entry ∈ entries, AliasOK entry) :
    ∀ entry ∈ mergeAliases source target done entries, AliasOK entry := by
  induction entries generalizing done with
  | nil => exact hdone
  | cons first entries ih =>
    have hfirst := hentries first List.mem_cons_self
    unfold mergeAliases
    refine ih (fun entry hentry ↦ ?_) fun entry hentry ↦ hentries entry (List.mem_cons_of_mem _ hentry)
    rcases List.mem_append.1 hentry with hentry | hentry
    · exact hdone entry hentry
    · rw [List.mem_singleton.1 hentry]
      split
      · exact ⟨hfirst.1, htarget⟩
      · exact hfirst

/-- Merging two tabs keeps the context well formed. -/
theorem CatalogFile.ContextOK.merged {context : ConversationContextMeta} (h : ContextOK context)
    (source : Bytes) {target : Bytes} (htarget : target ≠ []) :
    ContextOK (mergedContext context source target) := by
  refine ContextOK.setTabAlias ⟨fun message hmessage ↦ ?_, fun atom hatom ↦ ?_, ?_⟩ source target
  · obtain ⟨existing, hexisting, rfl⟩ := List.mem_map.1 hmessage
    have hok := h.messages existing hexisting
    refine ⟨?_, hok.schemaName, hok.schemaVersion, hok.storageRoute⟩
    dsimp only [mergeMessage]
    split
    · exact htarget
    · exact hok.tab
  · obtain ⟨existing, hexisting, rfl⟩ := List.mem_map.1 hatom
    have hok := h.atoms existing hexisting
    refine ⟨?_, hok.schemaName, hok.schemaVersion, hok.extractorConfidence⟩
    dsimp only [mergeAtom]
    split
    · exact htarget
    · exact hok.tab
  · exact mergeAliases_ok htarget nofun h.tabAliases

/-- Every context statement fills the fields in. -/
theorem CatalogFile.ContextOK.execute {context context' : ConversationContextMeta} (h : ContextOK context)
    {statement : ContextStatement} {result : NativeQueryResult}
    (hexecute : statement.execute context = .ok (context', result)) : ContextOK context' := by
  -- Every statement fills in the tab it resolves to, which is never empty.
  cases statement with
  | append statement =>
    simp only [ContextStatement.execute, appendMemory] at hexecute
    split at hexecute
    · cases hexecute
    · cases hexecute
      refine ⟨fun message hmessage ↦ ?_, ?_, h.tabAliases⟩
      · rcases List.mem_append.1 hmessage with hmessage | hmessage
        · exact h.messages message hmessage
        · rw [List.mem_singleton.1 hmessage]
          exact appendedMessage_ok context statement
      · exact storeAtoms_ok _ (extractContextAtoms_isExtracted _) h.atoms
  | tag statement =>
    simp only [ContextStatement.execute, tagMemory] at hexecute
    split at hexecute
    · cases hexecute
    · rename_i messages hretag
      cases hexecute
      have htab := resolveTab_ne_nil context.tabAliases statement.tab
      refine ContextOK.recompute ⟨retagMessages_ok htab hretag h.messages, fun atom hatom ↦ ?_,
        h.tabAliases⟩
      obtain ⟨existing, hexisting, rfl⟩ := List.mem_map.1 hatom
      have hok := h.atoms existing hexisting
      unfold retagAtom
      split
      · exact ⟨htab, hok.schemaName, hok.schemaVersion, hok.extractorConfidence⟩
      · exact hok
  | aliasTab statement =>
    cases hexecute
    exact h.setTabAlias _ _
  | merge statement =>
    simp only [ContextStatement.execute, mergeTabs] at hexecute
    cases hexecute
    split
    · exact (h.merged _ (resolveTab_ne_nil _ _)).recompute
    · exact h

/-! ### Tables -/

theorem ne_nil_of_mem_columnTypes {type : Bytes} (h : type ∈ columnTypes) : type ≠ [] := by
  rintro rfl
  exact absurd h (by decide)

namespace Catalog

/-- A column that is created has one of the types. -/
theorem createColumn_type {catalog : Catalog} {columns columns' : List ColumnMeta}
    {definition : ColumnDef} (h : catalog.createColumn columns definition = .ok columns')
    (hcolumns : ∀ column ∈ columns, column.type ∈ columnTypes) :
    ∀ column ∈ columns', column.type ∈ columnTypes := by
  rcases hcheck : catalog.checkColumn columns definition with error | _
  · rw [createColumn, hcheck] at h
    cases h
  · rw [createColumn, hcheck] at h
    cases h
    have htype : upper definition.type ∈ columnTypes := by
      by_contra hnot
      rw [checkColumn, if_pos hnot] at hcheck
      split at hcheck <;> cases hcheck
    intro column hcolumn
    rcases List.mem_append.1 hcolumn with hcolumn | hcolumn
    · exact hcolumns column hcolumn
    · rw [List.mem_singleton.1 hcolumn]
      exact htype

/-- Columns that are created have types of the list. -/
theorem createColumns_type {catalog : Catalog} {definitions : List ColumnDef}
    {columns columns' : List ColumnMeta}
    (h : definitions.foldlM catalog.createColumn columns = .ok columns')
    (hcolumns : ∀ column ∈ columns, column.type ∈ columnTypes) :
    ∀ column ∈ columns', column.type ∈ columnTypes := by
  induction definitions generalizing columns with
  | nil =>
    cases h
    exact hcolumns
  | cons definition definitions ih =>
    rw [List.foldlM_cons] at h
    rcases hfirst : catalog.createColumn columns definition with error | next
    · rw [hfirst] at h
      cases h
    · rw [hfirst] at h
      exact ih h (createColumn_type hfirst hcolumns)

/-! ### Catalogs -/

/-- A table that is added is found under its name. -/
theorem getElem?_addTable (catalog : Catalog) (table : TableMeta) (name : Bytes) :
    (catalog.addTable table).tables[name]? =
      if table.name = name then some table else catalog.tables[name]? := by
  rw [addTable, Std.ExtTreeMap.getElem?_insert]
  simp

/-- A snapshot that is added is found under its name. -/
theorem getElem?_addSnapshot (catalog : Catalog) (snapshot : DatasetSnapshotMeta) (name : Bytes) :
    (catalog.addSnapshot snapshot).snapshots[name]? =
      if snapshot.name = name then some snapshot else catalog.snapshots[name]? := by
  rw [addSnapshot, Std.ExtTreeMap.getElem?_insert]
  simp

variable {catalog : Catalog}

theorem ok_new : CatalogOK {} where
  tables := by simp
  snapshots := by simp
  contexts := by simp

/-- Adding a table with typed columns keeps the catalog well formed. -/
theorem ok_addTable (h : CatalogOK catalog) {table : TableMeta}
    (htable : ∀ column ∈ table.columns, column.type ≠ []) : CatalogOK (catalog.addTable table) where
  tables name value hvalue := by
    rw [getElem?_addTable] at hvalue
    split at hvalue
    · rename_i hname
      cases hvalue
      exact ⟨hname, htable⟩
    · exact h.tables name value hvalue
  snapshots := h.snapshots
  contexts := h.contexts

/-- Removing a table keeps the catalog well formed. -/
theorem ok_removeTable (h : CatalogOK catalog) (name : Bytes) :
    CatalogOK (catalog.removeTable name) := by
  rw [removeTable]
  split
  · refine ⟨fun other table htable ↦ ?_, fun other snapshot hsnapshot ↦ ?_, h.contexts⟩
    · rw [Std.ExtTreeMap.getElem?_erase] at htable
      split at htable
      · cases htable
      · exact h.tables other table htable
    · rw [Std.ExtTreeMap.getElem?_filter, Option.pfilter_eq_some_iff] at hsnapshot
      exact h.snapshots other snapshot hsnapshot.1
  · exact h

/-- Adding a snapshot keeps the catalog well formed. -/
theorem ok_addSnapshot (h : CatalogOK catalog) (snapshot : DatasetSnapshotMeta) :
    CatalogOK (catalog.addSnapshot snapshot) where
  tables := h.tables
  snapshots name value hvalue := by
    rw [getElem?_addSnapshot] at hvalue
    split at hvalue
    · rename_i hname
      cases hvalue
      exact hname
    · exact h.snapshots name value hvalue
  contexts := h.contexts

/-- Adding a well-formed context keeps the catalog well formed. -/
theorem ok_addContext (h : CatalogOK catalog) {context : ConversationContextMeta}
    (hcontext : ContextOK context) : CatalogOK (catalog.addContext context) where
  tables := h.tables
  snapshots := h.snapshots
  contexts name value hvalue := by
    rw [getElem?_addContext] at hvalue
    split at hvalue
    · rename_i hname
      cases hvalue
      exact ⟨hname, hcontext⟩
    · exact h.contexts name value hvalue

/-- `CREATE` keeps the catalog well formed. -/
theorem ok_executeCreate (h : CatalogOK catalog) {statement : CreateStmt} {catalog' : Catalog}
    (hcreate : catalog.executeCreate statement = .ok catalog') : CatalogOK catalog' := by
  rw [executeCreate] at hcreate
  split at hcreate
  · split at hcreate
    · cases hcreate
      exact h
    · cases hcreate
  · rcases hcolumns : statement.columns.foldlM catalog.createColumn [] with error | columns
    · rw [hcolumns] at hcreate
      cases hcreate
    · rw [hcolumns] at hcreate
      cases hcreate
      have htypes := createColumns_type hcolumns nofun
      exact ok_addTable h fun column hcolumn ↦ ne_nil_of_mem_columnTypes (htypes column hcolumn)

/-- A view leaves the catalog as it is. -/
theorem executeView_catalog {σ τ : PromptState} {query : ContextView} {r : NativeQueryResult}
    (h : σ.executeView query = .ok (r, τ)) : τ.catalog = σ.catalog := by
  unfold PromptState.executeView at h
  dsimp only at h
  split at h
  · cases h
    rfl
  · split at h <;> cases h
    rfl

/-- Every prompt statement keeps the catalog well formed. -/
theorem ok_prompt {σ : PromptState} (h : CatalogOK σ.catalog) (statement : PromptStatement) :
    CatalogOK (σ.step statement).catalog := by
  unfold PromptState.step
  split
  case h_2 => exact h
  case h_1 r τ hexecute =>
    cases statement with
    | create name =>
      simp only [PromptState.execute, PromptState.executeCreateContext] at hexecute
      split at hexecute <;> cases hexecute
      exact ok_addContext h ⟨by rintro _ ⟨⟩, by rintro _ ⟨⟩, by rintro _ ⟨⟩⟩
    | change statement =>
      simp only [PromptState.execute] at hexecute
      cases hcontext : σ.catalog.contexts[statement.context]? with
      | none =>
        simp only [PromptState.executeChange, hcontext] at hexecute
        cases hexecute
      | some context =>
        rcases hchange : statement.execute context with error | ⟨changed, result⟩
        · rw [executeChange_of_error hcontext hchange] at hexecute
          cases hexecute
        · rw [executeChange_of_ok hcontext hchange] at hexecute
          cases hexecute
          exact ok_addContext h ((h.contexts _ context hcontext).2.execute hchange)
    | spill query => exact executeView_catalog hexecute ▸ h
    | explain query => exact executeView_catalog hexecute ▸ h
    | showObjects name => exact executeView_catalog hexecute ▸ h

/-- **Every step keeps the catalog well formed.** -/
theorem Step.ok {catalog' : Catalog} (h : CatalogOK catalog) (hstep : Step catalog catalog') :
    CatalogOK catalog' := by
  cases hstep with
  | create statement hcreate => exact ok_executeCreate h hcreate
  | undoCreate statement _ hcreate => exact ok_removeTable (ok_executeCreate h hcreate) _
  | drop statement hdrop =>
    rw [executeDrop] at hdrop
    split at hdrop
    · split at hdrop <;> cases hdrop
      exact ok_removeTable h _
    · split at hdrop <;> cases hdrop
      exact h
  | @undoDrop name backup removed hbackup =>
    have htypes := (h.tables name backup hbackup).2
    cases removed with
    | false => exact ok_addTable h htypes
    | true => exact ok_addTable (ok_removeTable h name) htypes
  | snapshot snapshot => exact ok_addSnapshot h snapshot
  | context cache statement => exact ok_prompt (σ := ⟨catalog, cache⟩) h statement

/-- Every reachable catalog has the form that survives saving and loading. -/
theorem Reachable.ok (h : Reachable catalog) : CatalogOK catalog := by
  induction h with
  | new => exact ok_new
  | step _ hstep ih => exact hstep.ok ih
  | reload _ ih =>
    rw [ih.load_save]
    exact ⟨ih.tables, ih.snapshots, ih.contexts⟩

/-- Loading the file that was saved of a reachable catalog gives its tables, snapshots and contexts. -/
theorem load_save_of_reachable (h : Reachable catalog) :
    (load {} (some catalog.save)).tables = catalog.tables ∧
      (load {} (some catalog.save)).snapshots = catalog.snapshots ∧
      (load {} (some catalog.save)).contexts = catalog.contexts := by
  rw [h.ok.load_save]
  exact ⟨rfl, rfl, rfl⟩

/-- A snapshot whose texts have quotes, backslashes, control bytes, a zero byte and bytes above 127. -/
def awkwardSnapshot : DatasetSnapshotMeta :=
  { name := [34, 92, 0, 255]
    queryText := [10, 13, 9, 8, 12, 1, 127, 128]
    seed := 18446744073709551615
    rows := [⟨lit "0:1", lit "train"⟩, ⟨[], [195, 40]⟩]
    warnings := [[], [92, 117]] }

/-- A snapshot with awkward names, saved and loaded. -/
theorem load_save_of_reachable_awkward :
    (load {} (some (addSnapshot {} awkwardSnapshot).save)).tables = ∅ ∧
      (load {} (some (addSnapshot {} awkwardSnapshot).save)).snapshots =
        (addSnapshot {} awkwardSnapshot).snapshots ∧
      (load {} (some (addSnapshot {} awkwardSnapshot).save)).contexts = ∅ :=
  load_save_of_reachable (Reachable.new.step (.snapshot awkwardSnapshot))

end Catalog

end SkibidiQL
