import SkibidiQL.Prompt.CacheKey
import SkibidiQL.Prompt.TabChains
import SkibidiQL.Prompt.TabIsolation

/-!
# Statuses as a replay of appends

`executeAppendMemory` decides invalidation atom by atom, and `recomputeContextAtomStatus` in a pass over all
atoms. Both follow one rule (`appendRule`): the statuses that appends leave are those of a replay of the rule
over the stored atoms (`Replayed`), and a recomputation replays it over the atoms with their tabs normalised
once more. The two agree when that changes no tab (`recompute_agrees`).
-/

namespace SkibidiQL

open Bytes

/-! ### The rule -/

/-- A new atom invalidates the stored ones that it contradicts, and is stored behind them. -/
def appendRule (stored : List ContextAtomMeta) (atom : ContextAtomMeta) : List ContextAtomMeta :=
  stored.map (invalidateFor atom atom.source) ++ [atom]

/-- The atom as it is before a later one invalidates it. -/
def ContextAtomMeta.activated (atom : ContextAtomMeta) : ContextAtomMeta :=
  { atom with status := lit "active", invalidatedBy := [] }

/-- The append rule over the atoms in order. -/
def replayAppends (atoms : List ContextAtomMeta) : List ContextAtomMeta :=
  (atoms.map ContextAtomMeta.activated).foldl appendRule []

/-- The statuses of the atoms are those that the append rule gives them. -/
def Replayed (atoms : List ContextAtomMeta) : Prop :=
  replayAppends atoms = atoms

/-- What `executeAppendMemory` and `recomputeContextAtomStatus` keep about the status of an atom. -/
def ContextAtomMeta.statusEntry (atom : ContextAtomMeta) : Bytes × Bytes :=
  (atom.status, atom.invalidatedBy)

theorem activated_eq {atom : ContextAtomMeta} (hstatus : atom.status = lit "active")
    (hinvalidatedBy : atom.invalidatedBy = []) : atom.activated = atom := by
  rw [ContextAtomMeta.activated, ← hstatus, ← hinvalidatedBy]

theorem activated_invalidateFor (atom : ContextAtomMeta) (invalidator : Bytes)
    (existing : ContextAtomMeta) :
    (invalidateFor atom invalidator existing).activated = existing.activated := by
  rw [invalidateFor]
  split <;> rfl

/-- Replaying adds the atoms and invalidates, no more. -/
theorem map_activated_foldl (stored atoms : List ContextAtomMeta) :
    (atoms.foldl appendRule stored).map ContextAtomMeta.activated =
      (stored ++ atoms).map ContextAtomMeta.activated := by
  induction atoms generalizing stored with
  | nil => rw [List.foldl_nil, List.append_nil]
  | cons atom atoms ih =>
    rw [List.foldl_cons, ih, appendRule]
    simp [Function.comp_def, activated_invalidateFor]

/-- New active atoms that are stored by the rule keep the statuses replayed. -/
theorem Replayed.foldl {stored : List ContextAtomMeta} (h : Replayed stored)
    {atoms : List ContextAtomMeta} (hatoms : ∀ atom ∈ atoms, atom.activated = atom) :
    Replayed (atoms.foldl appendRule stored) := by
  have hsame : atoms.map ContextAtomMeta.activated = atoms :=
    (List.map_congr_left hatoms).trans (List.map_id atoms)
  rw [Replayed, replayAppends, map_activated_foldl, List.map_append, List.foldl_append, hsame]
  exact congrArg (fun stored ↦ atoms.foldl appendRule stored) h

/-- The statuses are recomputed by replaying the atoms one by one. -/
theorem invalidatePrior_eq_foldl (done atoms : List ContextAtomMeta) :
    invalidatePrior done atoms = atoms.foldl appendRule done := by
  induction atoms generalizing done with
  | nil => rfl
  | cons atom atoms ih =>
    rw [invalidatePrior, ih]
    rfl

/-- `recomputeContextAtomStatus` replays the rule over the atoms as its first loop leaves them. -/
theorem recompute_atoms (context : ConversationContextMeta) :
    (recomputeContextAtomStatus context).atoms = (context.atoms.map resetAtom).foldl appendRule [] :=
  invalidatePrior_eq_foldl [] _

/-- Recomputed statuses are replayed. -/
theorem replayed_recompute (context : ConversationContextMeta) :
    Replayed (recomputeContextAtomStatus context).atoms := by
  have hnil : Replayed [] := rfl
  rw [recompute_atoms]
  refine hnil.foldl fun atom hatom ↦ ?_
  obtain ⟨existing, -, rfl⟩ := List.mem_map.1 hatom
  rfl

/-- The rule does not look at tags. -/
def SameButTags (atom atom' : ContextAtomMeta) : Prop :=
  atom' = { atom with tags := atom'.tags }

/-- Tags do not show in the status of an atom. -/
theorem SameButTags.statusEntry {atom atom' : ContextAtomMeta} (h : SameButTags atom atom') :
    atom'.statusEntry = atom.statusEntry := by
  rw [h]
  rfl

/-- Tags do not show in what an atom invalidates. -/
theorem SameButTags.invalidateFor {atom atom' existing existing' : ContextAtomMeta}
    (hatom : SameButTags atom atom') (hexisting : SameButTags existing existing') :
    SameButTags (SkibidiQL.invalidateFor atom atom.source existing)
      (SkibidiQL.invalidateFor atom' atom'.source existing') := by
  rw [hatom, hexisting, SkibidiQL.invalidateFor, SkibidiQL.invalidateFor]
  have hsame : supersedes { atom with tags := atom'.tags } { existing with tags := existing'.tags } =
      supersedes atom existing := rfl
  rw [hsame]
  split <;> rfl

/-- Tags do not show in a replay. -/
theorem foldl_appendRule_congr {atoms atoms' stored stored' : List ContextAtomMeta}
    (hatoms : List.Forall₂ SameButTags atoms atoms') (hstored : List.Forall₂ SameButTags stored stored') :
    List.Forall₂ SameButTags (atoms.foldl appendRule stored) (atoms'.foldl appendRule stored') := by
  induction hatoms generalizing stored stored' with
  | nil => exact hstored
  | cons hatom _ ih =>
    refine ih (List.rel_append ?_ (.cons hatom .nil))
    exact List.forall₂_map_left_iff.2 (List.forall₂_map_right_iff.2
      (hstored.imp fun existing existing' hexisting ↦ hatom.invalidateFor hexisting))

/-- Recomputing the statuses of replayed atoms, of which only tags have been changed since, leaves them as
they are when the tabs are in normal form. -/
theorem recompute_statusEntry {context : ConversationContextMeta} {atoms : List ContextAtomMeta}
    {retagged : ContextAtomMeta → ContextAtomMeta} (h : Replayed atoms)
    (hatoms : context.atoms = atoms.map retagged)
    (hsame : ∀ atom ∈ atoms, SameButTags atom (retagged atom))
    (htabs : ∀ atom ∈ atoms, normalizedTab atom.tab = atom.tab) :
    (recomputeContextAtomStatus context).atoms.map ContextAtomMeta.statusEntry =
      atoms.map ContextAtomMeta.statusEntry := by
  have hreset : List.Forall₂ SameButTags (atoms.map ContextAtomMeta.activated)
      ((atoms.map retagged).map resetAtom) := by
    rw [List.map_map]
    refine List.forall₂_map_left_iff.2 (List.forall₂_map_right_iff.2 (List.forall₂_same.2 ?_))
    intro atom hatom
    have htab : normalizedTab (retagged atom).tab = atom.tab := by
      rw [hsame atom hatom]
      exact htabs atom hatom
    rw [Function.comp_apply, SameButTags, resetAtom, htab, hsame atom hatom]
    rfl
  have hreplayed : List.Forall₂ SameButTags (replayAppends atoms)
      ((context.atoms.map resetAtom).foldl appendRule []) := by
    rw [hatoms]
    exact foldl_appendRule_congr hreset .nil
  rw [recompute_atoms, ← hreplayed.map_eq_map fun _ _ hab ↦ hab.statusEntry.symm, h]

/-! ### Appends -/

/-- The source that the atoms of a message carry. -/
def messageSource (messageId : UInt64) : Bytes :=
  lit "message_" ++ ofNat messageId.toNat

theorem messageSource_injective : Function.Injective messageSource := by
  intro a b h
  exact UInt64.toNat_inj.1 (ofNat_injective (List.append_cancel_left h))

/-- The atom that a round of the loop over the extracted atoms stores. -/
def storedAtom (message : ContextMessageMeta) (atom : ContextAtomMeta) : ContextAtomMeta :=
  { atom with
    schemaName := lit "ContextAtom"
    schemaVersion := lit "v1"
    accessLabels := message.accessLabels
    tags := message.tags }

/-- The loop over the extracted atoms follows the append rule. -/
theorem foldl_storeAtom (message : ContextMessageMeta) {atoms : List ContextAtomMeta}
    (hsource : ∀ atom ∈ atoms, atom.source = messageSource message.id)
    (state : List ContextAtomMeta × Nat) :
    (atoms.foldl (storeAtom message) state).1 =
      (atoms.map (storedAtom message)).foldl appendRule state.1 := by
  induction atoms generalizing state with
  | nil => rfl
  | cons atom atoms ih =>
    obtain ⟨hatom, hrest⟩ := List.forall_mem_cons.1 hsource
    have hstep : (storeAtom message state atom).1 = appendRule state.1 (storedAtom message atom) := by
      have hstored : (storedAtom message atom).source = messageSource message.id := hatom
      rw [appendRule, hstored]
      rfl
    rw [List.foldl_cons, ih hrest, hstep, List.map_cons, List.foldl_cons]

/-- What the atoms of an appended message have in common when they are stored. -/
theorem storedAtom_extracted (message : ContextMessageMeta) {statement : AppendMemoryStmt}
    {atom : ContextAtomMeta} (hatom : atom ∈ extractContextAtoms statement) :
    (storedAtom message atom).activated = storedAtom message atom ∧
      (storedAtom message atom).source = messageSource statement.messageId ∧
      (storedAtom message atom).tab = normalizedTab statement.tab := by
  have hextracted := extractContextAtoms_isExtracted statement atom hatom
  have hstatus : atom.status = lit "active" := congrArg ContextAtomMeta.status hextracted
  have hinvalidatedBy : atom.invalidatedBy = [] := congrArg ContextAtomMeta.invalidatedBy hextracted
  have hsource : atom.source = messageSource statement.messageId :=
    congrArg ContextAtomMeta.source hextracted
  have htab : atom.tab = normalizedTab statement.tab := extractContextAtoms_tab statement hatom
  exact ⟨activated_eq hstatus hinvalidatedBy, hsource, htab⟩

/-- A successful append stores its atoms by the append rule. -/
theorem appendMemory_replays {context context' : ConversationContextMeta} {statement : AppendMemoryStmt}
    {result : NativeQueryResult} (happend : appendMemory context statement = .ok (context', result)) :
    ∃ stored : List ContextAtomMeta, context'.atoms = stored.foldl appendRule context.atoms ∧
      ∀ atom ∈ stored, atom.activated = atom ∧ atom.source = messageSource statement.messageId ∧
        atom.tab = normalizedTab (appendedMessage context statement).tab := by
  obtain ⟨-, -, -, hatoms⟩ := appendMemory_eq_ok happend
  have hsource : ∀ atom ∈ extractContextAtoms
      { statement with tab := (appendedMessage context statement).tab },
      atom.source = messageSource (appendedMessage context statement).id :=
    fun atom hatom ↦ congrArg ContextAtomMeta.source (extractContextAtoms_isExtracted _ atom hatom)
  rw [foldl_storeAtom _ hsource] at hatoms
  refine ⟨_, hatoms, fun atom hatom ↦ ?_⟩
  obtain ⟨existing, hexisting, rfl⟩ := List.mem_map.1 hatom
  exact storedAtom_extracted _ hexisting

/-- An append of a message whose id is known does nothing. -/
theorem appendMemory_fresh {context context' : ConversationContextMeta} {statement : AppendMemoryStmt}
    {result : NativeQueryResult} (happend : appendMemory context statement = .ok (context', result)) :
    ∀ message ∈ context.messages, message.id ≠ statement.messageId := by
  intro message hmessage heq
  have hknown : (context.messages.any fun other ↦ other.id == statement.messageId) = true :=
    List.any_eq_true.2 ⟨message, hmessage, beq_iff_eq.2 heq⟩
  rw [appendMemory, if_pos hknown] at happend
  cases happend

/-- The tab that an append asks for. -/
def requestedTab (statement : AppendMemoryStmt) : Bytes :=
  if statement.autoTab then (frontSuggestion (inferContextTagSuggestions statement.text)).tag
  else statement.tab

/-- The tab of the append is in normal form once it has been normalised twice, as it is for the atoms. -/
def StoresSettledTab (statement : AppendMemoryStmt) : Prop :=
  SettledTab (normalizedTab (requestedTab statement))

instance (statement : AppendMemoryStmt) : Decidable (StoresSettledTab statement) :=
  inferInstanceAs (Decidable (SettledTab _))

/-- What appends without aliases keep: the statuses are those of a replay, and an atom is stored under the
normal form of the tab of its message. -/
structure AppendedOnly (context : ConversationContextMeta) : Prop where
  tabAliases_eq : context.tabAliases = []
  nodup : (context.messages.map (·.id)).Nodup
  replayed : Replayed context.atoms
  origin : ∀ atom ∈ context.atoms, ∃ message ∈ context.messages,
    atom.source = messageSource message.id ∧ atom.tab = normalizedTab message.tab
  settled : ∀ message ∈ context.messages, SettledTab message.tab

/-- Without aliases a tab resolves to its normal form. -/
theorem resolveContextTab_of_nil {context : ConversationContextMeta} (h : context.tabAliases = [])
    (tab : Bytes) : resolveContextTab context tab = normalizedTab tab := by
  rw [resolveContextTab, h, resolveTab_eq_chase]
  exact AliasChain.Final.chase rfl

/-- A replayed atom is one of the atoms, its status apart. -/
theorem mem_foldl_appendRule {atoms stored : List ContextAtomMeta} {atom : ContextAtomMeta}
    (h : atom ∈ atoms.foldl appendRule stored) :
    ∃ existing ∈ stored ++ atoms, atom.source = existing.source ∧ atom.tab = existing.tab := by
  have hmem : atom.activated ∈ (stored ++ atoms).map ContextAtomMeta.activated :=
    map_activated_foldl stored atoms ▸ List.mem_map_of_mem h
  obtain ⟨existing, hexisting, heq⟩ := List.mem_map.1 hmem
  have hsource : existing.activated.source = atom.activated.source := by rw [heq]
  have htab : existing.activated.tab = atom.activated.tab := by rw [heq]
  exact ⟨existing, hexisting, hsource.symm, htab.symm⟩

/-- A context that was only appended to stays one at a further message. -/
theorem AppendedOnly.apply {context : ConversationContextMeta} (h : AppendedOnly context)
    {statement : AppendMemoryStmt} (hsettled : StoresSettledTab statement) :
    AppendedOnly ((ContextStatement.append statement).apply context) := by
  rcases happend : appendMemory context statement with error | ⟨context', result⟩
  · have hsame : (ContextStatement.append statement).apply context = context := by
      rw [ContextStatement.apply, ContextStatement.execute, happend]
    exact hsame.symm ▸ h
  · have happly : (ContextStatement.append statement).apply context = context' := by
      rw [ContextStatement.apply, ContextStatement.execute, happend]
    obtain ⟨-, haliases, hmessages, -⟩ := appendMemory_eq_ok happend
    obtain ⟨stored, hatoms, hstored⟩ := appendMemory_replays happend
    -- No alias is ever set by appending, so tabs resolve to their normal form.
    have htab : (appendedMessage context statement).tab = normalizedTab (requestedTab statement) :=
      resolveContextTab_of_nil h.tabAliases_eq _
    rw [happly]
    refine ⟨haliases.trans h.tabAliases_eq, ?_, ?_, ?_, ?_⟩
    · rw [hmessages, List.map_append, List.map_singleton]
      refine List.nodup_append.2 ⟨h.nodup, List.nodup_singleton _, ?_⟩
      rintro id hid other hother rfl
      obtain ⟨message, hmessage, rfl⟩ := List.mem_map.1 hid
      exact appendMemory_fresh happend message hmessage (List.mem_singleton.1 hother)
    · rw [hatoms]
      exact h.replayed.foldl fun atom hatom ↦ (hstored atom hatom).1
    · intro atom hatom
      rw [hatoms] at hatom
      obtain ⟨existing, hexisting, hsource, htab'⟩ := mem_foldl_appendRule hatom
      rw [hsource, htab', hmessages]
      rcases List.mem_append.1 hexisting with hexisting | hexisting
      · obtain ⟨message, hmessage, horigin⟩ := h.origin existing hexisting
        exact ⟨message, List.mem_append_left _ hmessage, horigin⟩
      · exact ⟨_, List.mem_append_right _ (List.mem_singleton_self _), (hstored existing hexisting).2⟩
    · intro message hmessage
      rw [hmessages] at hmessage
      rcases List.mem_append.1 hmessage with hmessage | hmessage
      · exact h.settled message hmessage
      · rw [List.mem_singleton.1 hmessage, htab]
        exact hsettled

/-- A context stays appended to through every run of messages. -/
theorem appendedOnly_runContext (name : Bytes) {statements : List AppendMemoryStmt}
    (hsettled : ∀ statement ∈ statements, StoresSettledTab statement) :
    AppendedOnly (runContext { name } (statements.map .append)) := by
  have hrun : ∀ context : ConversationContextMeta, AppendedOnly context →
      AppendedOnly (runContext context (statements.map .append)) := by
    induction statements with
    | nil => exact fun _ h ↦ h
    | cons statement statements ih =>
      obtain ⟨hfirst, hrest⟩ := List.forall_mem_cons.1 hsettled
      exact fun context h ↦ ih hrest _ (h.apply hfirst)
  exact hrun { name } ⟨rfl, .nil, rfl, nofun, nofun⟩

namespace AppendedOnly

variable {context : ConversationContextMeta} (h : AppendedOnly context)
include h

/-- Tabs of such a context are normalized. -/
theorem normalizedTab_eq {atom : ContextAtomMeta} (hatom : atom ∈ context.atoms) :
    normalizedTab atom.tab = atom.tab := by
  obtain ⟨message, hmessage, -, htab⟩ := h.origin atom hatom
  rw [htab]
  exact h.settled message hmessage

theorem recompute : (recomputeContextAtomStatus context).atoms.map ContextAtomMeta.statusEntry =
    context.atoms.map ContextAtomMeta.statusEntry :=
  @recompute_statusEntry context context.atoms id h.replayed (List.map_id _).symm (fun _ _ ↦ rfl)
    fun _ hatom ↦ h.normalizedTab_eq hatom

/-- Retagging a message to its own tab changes tags of its atoms only. -/
theorem sameButTags_retagAtom {message : ContextMessageMeta} (hmessage : message ∈ context.messages)
    {atom : ContextAtomMeta} (hatom : atom ∈ context.atoms) :
    SameButTags atom (retagAtom context (messageSource message.id)
      (resolveContextTab context message.tab) atom) := by
  rw [retagAtom]
  split
  · rename_i hsource
    obtain ⟨origin, horigin, horiginSource, htab⟩ := h.origin atom hatom
    obtain rfl := List.inj_on_of_nodup_map h.nodup horigin hmessage
      (messageSource_injective (horiginSource.symm.trans hsource))
    rw [SameButTags, resolveContextTab_of_nil h.tabAliases_eq, ← htab]
  · rfl

/-- Tagging a message of such a context succeeds. -/
theorem tagMemory {message : ContextMessageMeta} (hmessage : message ∈ context.messages) :
    ∃ context' result, SkibidiQL.tagMemory context
        { context := context.name, messageId := message.id, tab := message.tab } =
          .ok (context', result) ∧
      context'.atoms.map ContextAtomMeta.statusEntry = context.atoms.map ContextAtomMeta.statusEntry := by
  have hsome := retagMessages_isSome context message.id (resolveContextTab context message.tab)
    context.messages
  have hknown : (context.messages.any fun other ↦ other.id == message.id) = true :=
    List.any_eq_true.2 ⟨message, hmessage, beq_self_eq_true message.id⟩
  rw [hknown] at hsome
  obtain ⟨messages, hmessages⟩ := Option.isSome_iff_exists.1 hsome
  rw [SkibidiQL.tagMemory]
  simp only [hmessages]
  refine ⟨_, _, rfl, ?_⟩
  exact recompute_statusEntry h.replayed rfl (fun _ hatom ↦ h.sameButTags_retagAtom hmessage hatom)
    fun _ hatom ↦ h.normalizedTab_eq hatom

end AppendedOnly

/-- In every context that a run of appends builds, each under a tab that is in normal form once it has been
normalised twice, recomputing the statuses leaves them as the appends had set them; so does retagging a
message to its own tab. -/
theorem recompute_agrees (name : Bytes) (statements : List AppendMemoryStmt)
    (hsettled : ∀ statement ∈ statements, StoresSettledTab statement) :
    (recomputeContextAtomStatus (runContext { name } (statements.map .append))).atoms.map
        ContextAtomMeta.statusEntry =
      (runContext { name } (statements.map .append)).atoms.map ContextAtomMeta.statusEntry ∧
    ∀ message ∈ (runContext { name } (statements.map .append)).messages,
      ∃ context' result, tagMemory (runContext { name } (statements.map .append))
          { context := (runContext { name } (statements.map .append)).name, messageId := message.id
            tab := message.tab } = .ok (context', result) ∧
        context'.atoms.map ContextAtomMeta.statusEntry =
          (runContext { name } (statements.map .append)).atoms.map ContextAtomMeta.statusEntry := by
  have h := appendedOnly_runContext name hsettled
  exact ⟨h.recompute, fun message hmessage ↦ h.tagMemory hmessage⟩

/-- Two locations under two tabs. -/
def locationsUnder (first second : Bytes) : List AppendMemoryStmt :=
  [{ context := lit "c", messageId := 1, speaker := lit "user", text := lit "i live in paris", tab := first },
    { context := lit "c", messageId := 2, speaker := lit "user", text := lit "i live in rome"
      tab := second }]

/-- A context of two messages, recomputed. -/
theorem recompute_agrees_home :
    (recomputeContextAtomStatus (runContext { name := lit "c" }
        ((locationsUnder (lit "home") (lit "home")).map .append))).atoms.map ContextAtomMeta.statusEntry =
      (runContext { name := lit "c" }
        ((locationsUnder (lit "home") (lit "home")).map .append)).atoms.map ContextAtomMeta.statusEntry :=
  (recompute_agrees (lit "c") (locationsUnder (lit "home") (lit "home")) (by decide +kernel)).1

/-- A tab that is in normal form after the third time only: the recomputation moves an atom to another tab,
where the later one contradicts it. -/
theorem recompute_disagrees :
    ¬∀ (name : Bytes) (statements : List AppendMemoryStmt),
      (recomputeContextAtomStatus (runContext { name } (statements.map .append))).atoms.map
          ContextAtomMeta.statusEntry =
        (runContext { name } (statements.map .append)).atoms.map ContextAtomMeta.statusEntry := by
  intro h
  exact absurd (h (lit "c") (locationsUnder (lit "x . . .") (lit "x"))) (by decide +kernel)

end SkibidiQL
