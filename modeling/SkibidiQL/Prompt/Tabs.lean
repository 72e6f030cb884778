import SkibidiQL.Prompt.Extraction

/-!
# Tabs of a context

A context carries an alias table for its tabs. `resolveContextTab` follows it from a tab, at most 32
hops, and stops at a tab it has seen before.
-/

namespace SkibidiQL

open Bytes

/-- The loop of `resolveContextTab`, with the hops left and the tabs seen so far. -/
def resolveFrom (tabAliases : List ContextTabAliasMeta) : Nat → List Bytes → Bytes → Bytes
  | 0, _, current => current
  | hops + 1, seen, current =>
    if current ∈ seen then current
    else
      match tabAliases.find? fun entry ↦ normalizedTab entry.aliasTab == current with
      | none => current
      | some entry =>
        resolveFrom tabAliases hops (current :: seen) (normalizedTab entry.target)

/-- `resolveContextTab`, which reads the alias table of the context only. -/
def resolveTab (tabAliases : List ContextTabAliasMeta) (tab : Bytes) : Bytes :=
  resolveFrom tabAliases 32 [] (normalizedTab tab)

/-- `resolveContextTab`. -/
def resolveContextTab (context : ConversationContextMeta) (tab : Bytes) : Bytes :=
  resolveTab context.tabAliases tab

/-- A normalized tab has a name. -/
theorem normalizedTab_ne_nil (tab : Bytes) : normalizedTab tab ≠ [] := by
  rw [normalizedTab]
  split
  · decide
  · rename_i h
    exact fun hnil ↦ h (List.isEmpty_iff.2 hnil)

/-- A chain of aliases leads to a tab with a name. -/
theorem resolveFrom_ne_nil (tabAliases : List ContextTabAliasMeta) {hops : Nat} {seen : List Bytes}
    {current : Bytes} (h : current ≠ []) : resolveFrom tabAliases hops seen current ≠ [] := by
  induction hops generalizing seen current with
  | zero => exact h
  | succ hops ih =>
    rw [resolveFrom]
    split
    · exact h
    · split
      · exact h
      · exact ih (normalizedTab_ne_nil _)

theorem resolveTab_ne_nil (tabAliases : List ContextTabAliasMeta) (tab : Bytes) :
    resolveTab tabAliases tab ≠ [] :=
  resolveFrom_ne_nil tabAliases (normalizedTab_ne_nil tab)

/-- `contextMatchesTab`. -/
def contextMatchesTab (context : ConversationContextMeta) (primaryTab : Bytes) (tags : List Bytes)
    (tabFilter : Bytes) : Bool :=
  tabFilter.isEmpty || resolveContextTab context primaryTab == tabFilter ||
    tags.any fun tag ↦ resolveContextTab context tag == tabFilter

/-- The loop of `setContextTabAlias`: the entry of the alias is replaced, or a new one appended. -/
def replaceAlias (entry : ContextTabAliasMeta) :
    List ContextTabAliasMeta → List ContextTabAliasMeta
  | [] => [entry]
  | existing :: rest =>
    if normalizedTab existing.aliasTab = entry.aliasTab then entry :: rest
    else existing :: replaceAlias entry rest

/-- `setContextTabAlias`. -/
def setContextTabAlias (context : ConversationContextMeta) (aliasValue targetValue : Bytes) :
    ConversationContextMeta :=
  let entry : ContextTabAliasMeta :=
    { aliasTab := normalizedTab aliasValue, target := resolveContextTab context targetValue }
  { context with tabAliases := replaceAlias entry context.tabAliases }

/-- The first loop of `recomputeContextAtomStatus` on one atom. -/
def resetAtom (atom : ContextAtomMeta) : ContextAtomMeta :=
  { atom with
    tab := normalizedTab atom.tab
    tags := sortUnique (atom.tags.map normalizedTab)
    status := lit "active"
    invalidatedBy := [] }

/-- The comparison that invalidates `existing` in favour of the later `atom`. -/
def supersedes (atom existing : ContextAtomMeta) : Bool :=
  existing.status == lit "active" && existing.key == atom.key && existing.tab == atom.tab &&
    existing.value != atom.value

/-- What happens to `existing` when `atom` comes after it. -/
def invalidateFor (atom : ContextAtomMeta) (invalidator : Bytes) (existing : ContextAtomMeta) :
    ContextAtomMeta :=
  if supersedes atom existing then
    { existing with status := lit "invalidated", invalidatedBy := invalidator }
  else existing

/-- The second loop of `recomputeContextAtomStatus`: every atom in turn is compared with the atoms
before it, which are in `done`. -/
def invalidatePrior (done : List ContextAtomMeta) : List ContextAtomMeta → List ContextAtomMeta
  | [] => done
  | atom :: atoms => invalidatePrior (done.map (invalidateFor atom atom.source) ++ [atom]) atoms

/-- `recomputeContextAtomStatus`. -/
def recomputeContextAtomStatus (context : ConversationContextMeta) : ConversationContextMeta :=
  { context with atoms := invalidatePrior [] (context.atoms.map resetAtom) }

end SkibidiQL
