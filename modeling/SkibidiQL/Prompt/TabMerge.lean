import SkibidiQL.Prompt.StatusReplay

/-!
# Merging tabs

`executeMergeTabs` retargets the aliases that lead to the source while it resolves in the table it is
changing, and aliases the source in the end. At every point of the loop the table redirects names from the
source to the target (`mergeAliases_retargets`), so the merged table moves what led to the source and nothing
else (`mergedInto_of_normal`). The source and target are resolved tabs; the merge is right exactly when
`normalizedTab` leaves both alone.
-/

namespace SkibidiQL

open Bytes AliasChain

/-! ### Names that normalise to each other -/

/-- A trimmed text is a part of the text. -/
theorem infix_trimText (value : Bytes) : trimText value <:+: value := by
  have hback : trimText value <+: value.dropWhile isSpace := by
    rw [← List.reverse_suffix, trimText, List.reverse_reverse]
    exact List.dropWhile_suffix _
  exact hback.isInfix.trans (List.dropWhile_suffix _).isInfix

/-- What is left of a connective is a prefix. -/
theorem prefix_cutAtConnective (value : Bytes) : cutAtConnective value <+: value := by
  rw [cutAtConnective]
  split
  · exact List.take_prefix _ _
  · split
    · exact List.take_prefix _ _
    · exact List.prefix_rfl

/-- A cleaned value is a part of the text. -/
theorem infix_cleanAtomValue (value : Bytes) : cleanAtomValue value <:+: value := by
  have hstripped : ((cutAtConnective (trimText value)).reverse.dropWhile isTrailingPunctuation).reverse <+:
      cutAtConnective (trimText value) := by
    rw [← List.reverse_suffix, List.reverse_reverse]
    exact List.dropWhile_suffix _
  exact (infix_trimText _).trans (hstripped.isInfix.trans
    ((prefix_cutAtConnective _).isInfix.trans (infix_trimText value)))

/-- Normalising shortens a name, or makes it the main tab. -/
theorem normalizedTab_cases (tab : Bytes) : normalizedTab tab = lit "main" ∨ normalizedTab tab <:+: tab := by
  rw [normalizedTab]
  split
  · exact .inl rfl
  · exact .inr (infix_cleanAtomValue tab)

theorem normalizedTab_main : normalizedTab (lit "main") = lit "main" := by
  decide +kernel

/-- Two different names do not normalise to each other. -/
theorem normalizedTab_eq_of_twice {tab : Bytes} (h : normalizedTab (normalizedTab tab) = tab) :
    normalizedTab tab = tab := by
  rcases normalizedTab_cases tab with hmain | hinfix
  · rw [hmain, normalizedTab_main] at h
    rw [hmain, h]
  · rcases normalizedTab_cases (normalizedTab tab) with hmain | hback
    · rw [h] at hmain
      rw [hmain, normalizedTab_main]
    · rw [h] at hback
      exact hinfix.eq_of_length (Nat.le_antisymm hinfix.length_le hback.length_le)

/-! ### The table during the merge -/

section Table

variable {source target : Bytes}

/-- The entry is kept, or retargeted because its target led to the source. -/
def Retargeted (next : Bytes → Option Bytes) (source target : Bytes)
    (entry entry' : ContextTabAliasMeta) : Prop :=
  entry' = entry ∨ entry' = { entry with target } ∧ ∃ n, (step next)^[n] (normalizedTab entry.target) = source

/-- A retargeted table leads where the table led, the source tab replaced. -/
theorem aliasNext_retargeted {next : Bytes → Option Bytes} (htarget : normalizedTab target = target)
    {table table' : List ContextTabAliasMeta} (h : List.Forall₂ (Retargeted next source target) table table')
    (x : Bytes) : aliasNext table' x = aliasNext table x ∨ aliasNext table' x = some target ∧
      ∃ y, aliasNext table x = some y ∧ ∃ n, (step next)^[n] y = source := by
  induction h with
  | nil => exact .inl rfl
  | @cons entry entry' _ _ hentry _ ih =>
    rw [aliasNext_cons, aliasNext_cons]
    rcases hentry with rfl | ⟨rfl, hlead⟩
    · split
      · exact .inl rfl
      · exact ih
    · dsimp only
      split
      · exact .inr ⟨congrArg some htarget, _, rfl, hlead⟩
      · exact ih

/-- A table with retargeted entries redirects names from the source to the target. -/
theorem redirects_of_retargeted (htarget : normalizedTab target = target)
    {table table' : List ContextTabAliasMeta}
    (h : List.Forall₂ (Retargeted (aliasNext table) source target) table table') :
    Redirects (aliasNext table) (aliasNext table') source target := by
  intro x
  refine (aliasNext_retargeted htarget h x).imp_right ?_
  rintro ⟨hnext, y, hy, n, hn⟩
  refine ⟨hnext, n + 1, ?_⟩
  rw [Function.iterate_succ_apply, step_of_eq_some hy, hn]

/-- The loop of `executeMergeTabs` over the aliases retargets entries that led to the source in the table
before the merge: a name that led elsewhere still does, at every point of the loop. -/
theorem mergeAliases_retargets {table : List ContextTabAliasMeta} (htarget : normalizedTab target = target)
    (hsource : Final (aliasNext table) source) (hshort : ∀ tab, ShortChain table tab)
    {before done rest : List ContextTabAliasMeta} (htable : before ++ rest = table)
    (hdone : List.Forall₂ (Retargeted (aliasNext table) source target) before done) :
    List.Forall₂ (Retargeted (aliasNext table) source target) table
      (mergeAliases source target done rest) := by
  induction rest generalizing before done with
  | nil =>
    rw [List.append_nil] at htable
    subst htable
    exact hdone
  | cons entry rest ih =>
    have hkept (entries : List ContextTabAliasMeta) :
        List.Forall₂ (Retargeted (aliasNext table) source target) entries entries :=
      List.forall₂_same.2 fun _ _ ↦ .inl rfl
    -- The table so far is the old one apart from entries that were redirected from source to target.
    have hredirects : Redirects (aliasNext table) (aliasNext (done ++ entry :: rest)) source target := by
      refine redirects_of_retargeted htarget ?_
      have hall : List.Forall₂ (Retargeted (aliasNext table) source target) (before ++ entry :: rest)
          (done ++ entry :: rest) := List.rel_append hdone (hkept (entry :: rest))
      rwa [htable] at hall
    rw [mergeAliases]
    have htable' : before ++ [entry] ++ rest = table := by
      rw [List.append_assoc, List.singleton_append, htable]
    refine ih htable' (List.rel_append hdone (.cons ?_ .nil))
    · split
      · rename_i hresolved
        refine .inr ⟨rfl, 32, ?_⟩
        -- A name that did not lead to the source before the merge still does not.
        by_contra hne
        obtain ⟨hwithin, hsame⟩ := hredirects.keeps hsource (hshort entry.target) hne
        have hshort' : ShortChain (done ++ entry :: rest) entry.target := hwithin
        rw [hshort'.resolveTab_eq, hsame] at hresolved
        exact hne hresolved
      · exact .inl rfl

end Table

/-! ### The merge -/

/-- The tabs of the context are in normal form, and its alias chains are shorter than the limit of 32 hops. -/
structure NormalTabs (context : ConversationContextMeta) : Prop where
  messages : ∀ message ∈ context.messages,
    normalizedTab message.tab = message.tab ∧ ∀ tag ∈ message.tags, normalizedTab tag = tag
  atoms : ∀ atom ∈ context.atoms,
    normalizedTab atom.tab = atom.tab ∧ ∀ tag ∈ atom.tags, normalizedTab tag = tag
  aliases : ∀ entry ∈ context.tabAliases, normalizedTab entry.aliasTab = entry.aliasTab
  chains : ∀ tab, Within (aliasNext context.tabAliases) 31 (normalizedTab tab)

/-- The tab under which an item is stored after the merge. -/
def movedTab (context : ConversationContextMeta) (source target tab : Bytes) : Bytes :=
  if resolveContextTab context tab = source then target else tab

/-- The message with its tab moved; of the other fields, only the tags may change. -/
def MovedMessage (context : ConversationContextMeta) (source target : Bytes)
    (message message' : ContextMessageMeta) : Prop :=
  message' = { message with tab := movedTab context source target message.tab, tags := message'.tags }

/-- The atom with its tab moved; of the other fields, only the tags and the status may change. -/
def MovedAtom (context : ConversationContextMeta) (source target : Bytes)
    (atom atom' : ContextAtomMeta) : Prop :=
  atom' = { atom with
    tab := movedTab context source target atom.tab
    tags := atom'.tags
    status := atom'.status
    invalidatedBy := atom'.invalidatedBy }

/-- The merge of `source` into `target` moves what resolved to the source, and nothing else. -/
structure MergedInto (context context' : ConversationContextMeta) (source target : Bytes) : Prop where
  resolves : ∀ tab, resolveContextTab context' tab =
    if resolveContextTab context tab = source then target else resolveContextTab context tab
  messages : List.Forall₂ (MovedMessage context source target) context.messages context'.messages
  atoms : List.Forall₂ (MovedAtom context source target) context.atoms context'.atoms
  statuses : Replayed context'.atoms

section Merge

variable {context : ConversationContextMeta} {source target : Bytes}

theorem NormalTabs.shortChain (h : NormalTabs context) (tab : Bytes) : ShortChain context.tabAliases tab :=
  Within.mono (h.chains tab) (by decide)

theorem NormalTabs.final (h : NormalTabs context) (tab : Bytes) :
    Final (aliasNext context.tabAliases) (resolveContextTab context tab) :=
  final_resolveTab_iff.2 (h.shortChain tab)

/-- The entry that the merge adds in the end. -/
theorem mergedContext_tabAliases (context : ConversationContextMeta) (source target : Bytes) :
    (mergedContext context source target).tabAliases =
      replaceAlias { aliasTab := normalizedTab source
                     target := resolveTab (mergeAliases source target [] context.tabAliases) target }
        (mergeAliases source target [] context.tabAliases) :=
  rfl

/-- The merged table redirects names from the source to the target, and the source itself. -/
theorem redirects_mergedContext (hchains : ∀ tab, ShortChain context.tabAliases tab)
    (hsource : Final (aliasNext context.tabAliases) source)
    (htarget : Final (aliasNext context.tabAliases) target) (hne : target ≠ source)
    (hnormalSource : normalizedTab source = source) (hnormalTarget : normalizedTab target = target) :
    Redirects (aliasNext context.tabAliases) (aliasNext (mergedContext context source target).tabAliases)
        source target ∧
      aliasNext (mergedContext context source target).tabAliases source = some target := by
  have hloop : Redirects (aliasNext context.tabAliases)
      (aliasNext (mergeAliases source target [] context.tabAliases)) source target :=
    redirects_of_retargeted hnormalTarget
      (mergeAliases_retargets hnormalTarget hsource hchains (List.nil_append _) .nil)
  have hresolved : resolveTab (mergeAliases source target [] context.tabAliases) target = target :=
    resolveTab_of_final hnormalTarget (hloop.final_of_ne hsource htarget hne)
  have hnext (x : Bytes) : aliasNext (mergedContext context source target).tabAliases x =
      if x = source then some target
      else aliasNext (mergeAliases source target [] context.tabAliases) x := by
    rw [mergedContext_tabAliases, aliasNext_replaceAlias (by rw [hnormalSource, hnormalSource]), hresolved,
      hnormalSource, hnormalTarget]
  refine ⟨fun x ↦ ?_, by rw [hnext, if_pos rfl]⟩
  rw [hnext]
  split
  · rename_i hx
    exact .inr ⟨rfl, 0, hx⟩
  · exact hloop x

/-- After the merge, what resolved to the source resolves to the target, and all else as before. -/
theorem resolveTab_mergedContext (hchains : ∀ tab, Within (aliasNext context.tabAliases) 31 (normalizedTab tab))
    (hsource : Final (aliasNext context.tabAliases) source)
    (htarget : Final (aliasNext context.tabAliases) target) (hne : target ≠ source)
    (hnormalSource : normalizedTab source = source) (hnormalTarget : normalizedTab target = target)
    (tab : Bytes) : resolveTab (mergedContext context source target).tabAliases tab =
      if resolveContextTab context tab = source then target else resolveContextTab context tab := by
  have hshort (tab : Bytes) : ShortChain context.tabAliases tab := Within.mono (hchains tab) (by decide)
  obtain ⟨hredirects, hmoved⟩ :=
    redirects_mergedContext hshort hsource htarget hne hnormalSource hnormalTarget
  have hchain := hchains tab
  have hresolve : resolveContextTab context tab =
      (step (aliasNext context.tabAliases))^[31] (normalizedTab tab) := by
    rw [resolveContextTab, (hshort tab).resolveTab_eq]
    exact hchain.iterate_eq (by decide)
  rw [resolveTab_eq_chase, hresolve]
  split
  · rename_i hlead
    obtain ⟨hwithin, hend⟩ := hredirects.moves hsource htarget hne hmoved hlead
    rw [chase_eq (Nat.le_refl 32) hwithin, hend]
  · rename_i hother
    obtain ⟨hwithin, hsame⟩ := hredirects.keeps hsource hchain hother
    rw [chase_eq (by decide) hwithin, hsame]

theorem movedMessage_mergeMessage (context : ConversationContextMeta) (source target : Bytes)
    (message : ContextMessageMeta) :
    MovedMessage context source target message (mergeMessage context source target message) :=
  rfl

/-- An atom that agrees with another one but for its status has its other fields. -/
theorem eq_of_activated_eq {atom atom' reset : ContextAtomMeta} {tab : Bytes}
    (hreset : reset = { atom with
      tab := tab, tags := reset.tags, status := reset.status, invalidatedBy := reset.invalidatedBy })
    (heq : reset.activated = atom'.activated) :
    atom' = { atom with
      tab := tab, tags := atom'.tags, status := atom'.status, invalidatedBy := atom'.invalidatedBy } := by
  obtain ⟨⟩ := atom'
  rw [hreset] at heq
  simp only [ContextAtomMeta.activated, ContextAtomMeta.mk.injEq] at heq ⊢
  simp [heq]

/-- A merged atom has its new tab and is reset. -/
theorem resetAtom_mergeAtom (context : ConversationContextMeta) (source target : Bytes)
    (atom : ContextAtomMeta) :
    resetAtom (mergeAtom context source target atom) = { atom with
      tab := normalizedTab (movedTab context source target atom.tab)
      tags := (resetAtom (mergeAtom context source target atom)).tags
      status := (resetAtom (mergeAtom context source target atom)).status
      invalidatedBy := (resetAtom (mergeAtom context source target atom)).invalidatedBy } :=
  rfl

/-- The atoms after the merge: the recomputation changes statuses, and normalises tabs that are in normal
form. -/
theorem movedAtoms (h : NormalTabs context) (hnormalTarget : normalizedTab target = target) :
    List.Forall₂ (MovedAtom context source target) context.atoms
      (recomputeContextAtomStatus (mergedContext context source target)).atoms := by
  have hactivated : (context.atoms.map fun atom ↦ (resetAtom (mergeAtom context source target atom)).activated) =
      (recomputeContextAtomStatus (mergedContext context source target)).atoms.map
        ContextAtomMeta.activated := by
    rw [recompute_atoms, map_activated_foldl, List.nil_append, List.map_map]
    show _ = (context.atoms.map (mergeAtom context source target)).map _
    rw [List.map_map]
    rfl
  have hpairs : List.Forall₂ (fun atom atom' : ContextAtomMeta ↦
      (resetAtom (mergeAtom context source target atom)).activated = atom'.activated) context.atoms
        (recomputeContextAtomStatus (mergedContext context source target)).atoms := by
    refine List.forall₂_map_left_iff.1 (List.forall₂_map_right_iff.1 ?_)
    rw [← hactivated]
    exact List.forall₂_same.2 fun _ _ ↦ rfl
  have hnormal : ∀ atom ∈ context.atoms, normalizedTab (movedTab context source target atom.tab) =
      movedTab context source target atom.tab := by
    intro atom hatom
    rw [movedTab]
    split
    · exact hnormalTarget
    · exact (h.atoms atom hatom).1
  refine ((List.forall₂_and_left _ _).2 ⟨hnormal, hpairs⟩).imp ?_
  rintro atom atom' ⟨htab, heq⟩
  refine eq_of_activated_eq ?_ heq
  exact (resetAtom_mergeAtom context source target atom).trans (by rw [htab])

/-- With a source and target in normal form, the merge moves what resolved to the source. -/
theorem mergedInto_of_normal (h : NormalTabs context)
    (hsource : Final (aliasNext context.tabAliases) source)
    (htarget : Final (aliasNext context.tabAliases) target) (hne : target ≠ source)
    (hnormalSource : normalizedTab source = source) (hnormalTarget : normalizedTab target = target) :
    MergedInto context (recomputeContextAtomStatus (mergedContext context source target)) source target where
  resolves tab := resolveTab_mergedContext h.chains hsource htarget hne hnormalSource hnormalTarget tab
  messages := by
    refine List.forall₂_map_right_iff.2 (List.forall₂_same.2 fun message _ ↦ ?_)
    exact movedMessage_mergeMessage context source target message
  atoms := movedAtoms h hnormalTarget
  statuses := replayed_recompute _

/-! ### Sources and targets that are not in normal form -/

/-- Every merged alias comes from one of the table. -/
theorem mem_mergeAliases {table : List ContextTabAliasMeta} {entry : ContextTabAliasMeta}
    (h : entry ∈ mergeAliases source target [] table) :
    ∃ existing ∈ table, entry.aliasTab = existing.aliasTab ∧
      (entry.target = existing.target ∨ entry.target = target) := by
  obtain ⟨rest', heq, hforall⟩ := mergeAliases_forall₂ source target [] table
  rw [heq, List.nil_append] at h
  obtain ⟨existing, hexisting, rfl | rfl⟩ := hforall.exists_left h
  · exact ⟨_, hexisting, rfl, .inl rfl⟩
  · exact ⟨existing, hexisting, rfl, .inr rfl⟩

/-- The entries of the merged table: the one for the source, or one of before, with its target or the new
one. -/
theorem mem_mergedContext {entry : ContextTabAliasMeta}
    (h : entry ∈ (mergedContext context source target).tabAliases) :
    (entry.aliasTab = normalizedTab source ∧
        entry.target = resolveTab (mergeAliases source target [] context.tabAliases) target) ∨
      ∃ existing ∈ context.tabAliases, entry.aliasTab = existing.aliasTab ∧
        (entry.target = existing.target ∨ entry.target = target) := by
  rw [mergedContext_tabAliases] at h
  rcases mem_replaceAlias h with rfl | h
  · exact .inl ⟨rfl, rfl⟩
  · exact .inr (mem_mergeAliases h)

/-- A source that is not in normal form keeps its tabs: the merged table has no alias of that name. -/
theorem normal_source_of_resolves (h : NormalTabs context)
    (hsource : Final (aliasNext context.tabAliases) source) (hne : target ≠ source)
    {tab : Bytes} (htab : normalizedTab tab = source)
    (hresolves : ∀ tab, resolveTab (mergedContext context source target).tabAliases tab =
      if resolveContextTab context tab = source then target else resolveContextTab context tab) :
    normalizedTab source = source := by
  by_contra hnormal
  have hbefore : resolveContextTab context tab = source := by
    rw [resolveContextTab, resolveTab_eq_chase, htab]
    exact hsource.chase
  have hnone : Final (aliasNext (mergedContext context source target).tabAliases) source := by
    refine AliasChain.final_iff.2 fun y hy ↦ ?_
    obtain ⟨entry, hentry, halias, -⟩ := mem_of_aliasNext hy
    rcases mem_mergedContext hentry with ⟨hnew, -⟩ | ⟨existing, hexisting, hold, -⟩
    · rw [hnew] at halias
      exact absurd (normalizedTab_eq_of_twice halias) hnormal
    · rw [hold, h.aliases existing hexisting] at halias
      rw [← halias, h.aliases existing hexisting] at hnormal
      exact absurd rfl hnormal
  have hafter := hresolves tab
  rw [resolveTab_eq_chase, htab, hnone.chase, hbefore, if_pos rfl] at hafter
  exact hne hafter.symm

/-- The target of the new entry, which `executeMergeTabs` resolves once more, leads to the target only if
the target is in normal form. -/
theorem normal_target_of_resolved {table : List ContextTabAliasMeta}
    (htargets : ∀ entry ∈ table, normalizedTab entry.target = entry.target)
    (h : normalizedTab (resolveTab (mergeAliases source target [] table) target) = target) :
    normalizedTab target = target := by
  have hon : ∀ x, x = normalizedTab target ∨ normalizedTab x = x → normalizedTab x = target →
      normalizedTab target = target := by
    rintro x (rfl | hx) hback
    · exact normalizedTab_eq_of_twice hback
    · rw [← hback, hx, hx]
  rw [resolveTab_eq_chase] at h
  refine hon _ ?_ h
  refine chase_induction (P := fun x ↦ x = normalizedTab target ∨ normalizedTab x = x) (.inl rfl) ?_ 32
  intro x y hxy
  obtain ⟨entry, hentry, -, rfl⟩ := mem_of_aliasNext hxy
  obtain ⟨existing, hexisting, -, hold | hmoved⟩ := mem_mergeAliases hentry
  · rw [hold, htargets existing hexisting, htargets existing hexisting]
    exact .inr rfl
  · rw [hmoved]
    exact .inl rfl

/-- A target that is not in normal form is reached by no alias. -/
theorem normal_target_of_resolves (htargets : ∀ entry ∈ context.tabAliases,
      normalizedTab entry.target = entry.target)
    (hne : target ≠ source) {tab : Bytes} (htab : normalizedTab tab = source)
    (hresolved : resolveTab (mergedContext context source target).tabAliases tab = target) :
    normalizedTab target = target := by
  have hon : ∀ x, x = source ∨ (∃ entry ∈ (mergedContext context source target).tabAliases,
      normalizedTab entry.target = x) → x = target → normalizedTab target = target := by
    rintro x (rfl | ⟨entry, hentry, rfl⟩) hx
    · exact absurd hx.symm hne
    · rcases mem_mergedContext hentry with ⟨-, hnew⟩ | ⟨existing, hexisting, -, hold | hmoved⟩
      · rw [hnew] at hx
        exact normal_target_of_resolved htargets hx
      · rw [hold, htargets existing hexisting] at hx
        rw [← hx, htargets existing hexisting]
      · rwa [hmoved] at hx
  rw [resolveTab_eq_chase, htab] at hresolved
  refine hon _ ?_ hresolved
  refine chase_induction (P := fun x ↦ x = source ∨ ∃ entry ∈
    (mergedContext context source target).tabAliases, normalizedTab entry.target = x) (.inl rfl) ?_ 32
  intro x y hxy
  obtain ⟨entry, hentry, -, htarget⟩ := mem_of_aliasNext hxy
  exact .inr ⟨entry, hentry, htarget⟩

end Merge

/-- The merge of two tabs moves what resolved to the source and nothing else when the resolved source and
target are in normal form; if the targets of the aliases are in normal form, only then. -/
theorem mergeTabs_moves_iff {context : ConversationContextMeta} (h : NormalTabs context)
    {statement : MergeTabsStmt} (hne : resolveContextTab context statement.fromTab ≠
      resolveContextTab context statement.toTab) :
    (normalizedTab (resolveContextTab context statement.fromTab) =
        resolveContextTab context statement.fromTab ∧
      normalizedTab (resolveContextTab context statement.toTab) =
        resolveContextTab context statement.toTab →
      MergedInto context ((ContextStatement.merge statement).apply context)
        (resolveContextTab context statement.fromTab) (resolveContextTab context statement.toTab)) ∧
    ((∀ entry ∈ context.tabAliases, normalizedTab entry.target = entry.target) →
      MergedInto context ((ContextStatement.merge statement).apply context)
        (resolveContextTab context statement.fromTab) (resolveContextTab context statement.toTab) →
      normalizedTab (resolveContextTab context statement.fromTab) =
          resolveContextTab context statement.fromTab ∧
        normalizedTab (resolveContextTab context statement.toTab) =
          resolveContextTab context statement.toTab) := by
  have happly : (ContextStatement.merge statement).apply context =
      recomputeContextAtomStatus (mergedContext context (resolveContextTab context statement.fromTab)
        (resolveContextTab context statement.toTab)) := by
    show (if _ then _ else _) = _
    rw [if_pos hne]
  have hsource := h.final statement.fromTab
  have htarget := h.final statement.toTab
  rw [happly]
  refine ⟨fun ⟨hnormalSource, hnormalTarget⟩ ↦
    mergedInto_of_normal h hsource htarget hne.symm hnormalSource hnormalTarget, fun htargets hmerged ↦ ?_⟩
  -- Conversely, a tab that is written as the source must end at the target.
  obtain ⟨tab, htab⟩ : ∃ tab, normalizedTab tab = resolveContextTab context statement.fromTab :=
    exists_normalizedTab_eq context.tabAliases statement.fromTab
  have hbefore : resolveContextTab context tab = resolveContextTab context statement.fromTab := by
    rw [resolveContextTab, resolveTab_eq_chase, htab]
    exact hsource.chase
  have hafter := hmerged.resolves tab
  rw [if_pos hbefore] at hafter
  exact ⟨normal_source_of_resolves h hsource hne.symm htab hmerged.resolves,
    normal_target_of_resolves htargets hne.symm htab hafter⟩

/-- Without aliases normalized tabs are normal. -/
theorem normalTabs_of_no_aliases {context : ConversationContextMeta} (haliases : context.tabAliases = [])
    (hmessages : ∀ message ∈ context.messages,
      normalizedTab message.tab = message.tab ∧ ∀ tag ∈ message.tags, normalizedTab tag = tag)
    (hatoms : ∀ atom ∈ context.atoms,
      normalizedTab atom.tab = atom.tab ∧ ∀ tag ∈ atom.tags, normalizedTab tag = tag) :
    NormalTabs context where
  messages := hmessages
  atoms := hatoms
  aliases := by
    rw [haliases]
    nofun
  chains tab := by
    have hfinal : Final (aliasNext []) (normalizedTab tab) := rfl
    rw [haliases]
    exact Within.mono (within_zero.2 hfinal) (Nat.zero_le 31)

/-- A location on one tab and another one on a second tab. -/
def twoTabs : ConversationContextMeta :=
  runContext { name := lit "c" } ((locationsUnder (lit "puppy") (lit "dog")).map .append)

theorem normalTabs_twoTabs : NormalTabs twoTabs :=
  normalTabs_of_no_aliases (by decide +kernel) (by decide +kernel) (by decide +kernel)

/-- The merge of the two tabs. -/
theorem mergeTabs_moves_iff_puppy :
    MergedInto twoTabs
      ((ContextStatement.merge { context := lit "c", fromTab := lit "puppy", toTab := lit "dog" }).apply twoTabs)
      (resolveContextTab twoTabs (lit "puppy")) (resolveContextTab twoTabs (lit "dog")) :=
  let merge : MergeTabsStmt := { context := lit "c", fromTab := lit "puppy", toTab := lit "dog" }
  (@mergeTabs_moves_iff twoTabs normalTabs_twoTabs merge
    (by decide +kernel)).1 ⟨by decide +kernel, by decide +kernel⟩

/-- A merge of a tab whose normal form normalises to another tab: the tab itself does not resolve to the
target. -/
theorem mergeTabs_not_moves :
    ¬∀ (name : Bytes) (statements : List ContextStatement) (statement : MergeTabsStmt),
      NormalTabs (runContext { name } statements) →
      resolveContextTab (runContext { name } statements) statement.fromTab ≠
        resolveContextTab (runContext { name } statements) statement.toTab →
      MergedInto (runContext { name } statements)
        ((ContextStatement.merge statement).apply (runContext { name } statements))
        (resolveContextTab (runContext { name } statements) statement.fromTab)
        (resolveContextTab (runContext { name } statements) statement.toTab) := by
  intro h
  have hmerged := h (lit "c") ((locationsUnder (lit "puppy") (lit "dog")).map .append)
    { context := lit "c", fromTab := lit "puppy . .", toTab := lit "dog" } normalTabs_twoTabs
    (by decide +kernel)
  exact absurd (hmerged.resolves (lit "puppy . .")) (by decide +kernel)

end SkibidiQL
