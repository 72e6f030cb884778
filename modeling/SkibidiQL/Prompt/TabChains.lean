import SkibidiQL.Base.AliasChain
import SkibidiQL.Base.ListRules
import SkibidiQL.Prompt.Consistency

/-!
# Chains of tab aliases

`resolveContextTab` follows the alias table as far as 32 hops. It stops at a tab that is no alias of another
one exactly when the chain from the tab is that short (`terminalTab_iff`), in a table whose tabs are all in
the normal form that `normalizedTab` leaves alone. Statements keep the table in this form as long as their
own tabs settle: `normalizedTab` is not idempotent, as it cuts at one connective and strips the punctuation
of one word only.
-/

/-- Functions that cannot tell related elements apart give equal lists. -/
theorem List.Forall₂.map_eq_map {α β γ : Type} {R : α → β → Prop} {l : List α} {m : List β} {f : α → γ}
    {g : β → γ} (h : List.Forall₂ R l m) (hfg : ∀ a b, R a b → f a = g b) : l.map f = m.map g := by
  refine List.forall₂_eq_eq_eq ▸ List.forall₂_map_left_iff.2 (List.forall₂_map_right_iff.2 ?_)
  exact h.imp hfg

namespace SkibidiQL

open Bytes AliasChain

/-- Where the alias table sends a tab. -/
def aliasNext (tabAliases : List ContextTabAliasMeta) (tab : Bytes) : Option Bytes :=
  (tabAliases.find? fun entry ↦ normalizedTab entry.aliasTab == tab).map
    fun entry ↦ normalizedTab entry.target

/-- Normalising the tab a second time changes nothing. -/
def SettledTab (tab : Bytes) : Prop :=
  normalizedTab (normalizedTab tab) = normalizedTab tab

instance (tab : Bytes) : Decidable (SettledTab tab) :=
  inferInstanceAs (Decidable (normalizedTab (normalizedTab tab) = normalizedTab tab))

/-- The chain of aliases from the tab has at most 32 hops. -/
def ShortChain (tabAliases : List ContextTabAliasMeta) (tab : Bytes) : Prop :=
  Within (aliasNext tabAliases) 32 (normalizedTab tab)

instance (tabAliases : List ContextTabAliasMeta) (tab : Bytes) : Decidable (ShortChain tabAliases tab) :=
  inferInstanceAs (Decidable (Within (aliasNext tabAliases) 32 (normalizedTab tab)))

/-- The tab resolves to a tab that resolves to itself and is no alias of a different one. -/
def TerminalTab (context : ConversationContextMeta) (tab : Bytes) : Prop :=
  resolveContextTab context (resolveContextTab context tab) = resolveContextTab context tab ∧
    ∀ entry ∈ context.tabAliases, entry.aliasTab = resolveContextTab context tab →
      entry.target = resolveContextTab context tab

instance (context : ConversationContextMeta) (tab : Bytes) : Decidable (TerminalTab context tab) := by
  unfold TerminalTab
  infer_instance

section Table

variable {tabAliases : List ContextTabAliasMeta} {tab : Bytes}

/-! ### The resolver -/

/-- The first alias of a tab decides. -/
theorem aliasNext_cons (entry : ContextTabAliasMeta) (rest : List ContextTabAliasMeta) (tab : Bytes) :
    aliasNext (entry :: rest) tab =
      if normalizedTab entry.aliasTab = tab then some (normalizedTab entry.target)
      else aliasNext rest tab := by
  rw [aliasNext, List.find?_cons]
  split
  · rename_i h
    rw [if_pos (eq_of_beq h)]
    rfl
  · rename_i h
    rw [if_neg (ne_of_beq_false h)]
    rfl

/-- The resolver follows the aliases. -/
theorem resolveFrom_eq_chase (hops : Nat) (seen : List Bytes) (current : Bytes) :
    resolveFrom tabAliases hops seen current = chase (aliasNext tabAliases) hops seen current := by
  induction hops generalizing seen current with
  | zero => rfl
  | succ hops ih =>
    rw [resolveFrom, chase]
    by_cases hseen : current ∈ seen
    · rw [if_pos hseen, if_pos hseen]
    · rw [if_neg hseen, if_neg hseen, aliasNext]
      generalize tabAliases.find? (fun entry ↦ normalizedTab entry.aliasTab == current) = found
      rcases found with - | entry
      · rfl
      · exact ih _ _

/-- From a tab it does so for 32 hops at most. -/
theorem resolveTab_eq_chase (tab : Bytes) :
    resolveTab tabAliases tab = chase (aliasNext tabAliases) 32 [] (normalizedTab tab) :=
  resolveFrom_eq_chase 32 [] _

/-- The end of a short chain. -/
theorem ShortChain.resolveTab_eq (h : ShortChain tabAliases tab) :
    resolveTab tabAliases tab = (step (aliasNext tabAliases))^[32] (normalizedTab tab) := by
  rw [resolveTab_eq_chase]
  exact chase_eq (Nat.le_refl 32) h

/-- A tab resolves to one without an alias exactly when its chain is short. -/
theorem final_resolveTab_iff :
    Final (aliasNext tabAliases) (resolveTab tabAliases tab) ↔ ShortChain tabAliases tab := by
  rw [resolveTab_eq_chase]
  exact final_chase_iff

/-- An alias that leads on is one of the table. -/
theorem mem_of_aliasNext {x y : Bytes} (h : aliasNext tabAliases x = some y) :
    ∃ entry ∈ tabAliases, normalizedTab entry.aliasTab = x ∧ normalizedTab entry.target = y := by
  obtain ⟨entry, hfind, htarget⟩ := Option.map_eq_some_iff.1 h
  obtain ⟨halias, hmem⟩ := List.find?_eq_some_iff_append.1 hfind
  obtain ⟨before, after, rfl, -⟩ := hmem
  exact ⟨entry, List.mem_append_right _ List.mem_cons_self, eq_of_beq halias, htarget⟩

/-- A tab resolves to the normal form of some tab. -/
theorem exists_normalizedTab_eq (tabAliases : List ContextTabAliasMeta) (tab : Bytes) :
    ∃ other, normalizedTab other = resolveTab tabAliases tab := by
  rw [resolveTab_eq_chase]
  refine chase_induction (P := fun x ↦ ∃ other, normalizedTab other = x) ⟨tab, rfl⟩ ?_ 32
  intro x y hxy
  obtain ⟨entry, -, -, htarget⟩ := mem_of_aliasNext hxy
  exact ⟨entry.target, htarget⟩

/-! ### Settled tables -/

/-- The tabs of the table are in a normal form that `normalizedTab` leaves alone, and no tab is listed as an
alias twice. -/
structure SettledAliases (tabAliases : List ContextTabAliasMeta) : Prop where
  alias_eq : ∀ entry ∈ tabAliases, normalizedTab entry.aliasTab = entry.aliasTab
  target_eq : ∀ entry ∈ tabAliases, normalizedTab entry.target = entry.target
  nodup : (tabAliases.map (·.aliasTab)).Nodup

namespace SettledAliases

variable (h : SettledAliases tabAliases)
include h

/-- Where no tab has two aliases each of them leads on. -/
theorem aliasNext_of_mem {entry : ContextTabAliasMeta} (hentry : entry ∈ tabAliases) :
    aliasNext tabAliases entry.aliasTab = some entry.target := by
  induction tabAliases with
  | nil => exact absurd hentry List.not_mem_nil
  | cons first rest ih =>
    obtain ⟨hfirst, hrest⟩ := List.nodup_cons.1 h.nodup
    rw [aliasNext_cons, h.alias_eq first List.mem_cons_self]
    rcases List.mem_cons.1 hentry with rfl | hentry'
    · rw [if_pos rfl, h.target_eq entry List.mem_cons_self]
    · rw [if_neg fun heq ↦ hfirst (List.mem_map.2 ⟨entry, hentry', heq.symm⟩)]
      exact ih ⟨fun e he ↦ h.alias_eq e (List.mem_cons_of_mem _ he),
        fun e he ↦ h.target_eq e (List.mem_cons_of_mem _ he), hrest⟩ hentry'

/-- A tab is final when its aliases lead nowhere else. -/
theorem final_iff (tab : Bytes) : Final (aliasNext tabAliases) tab ↔
    ∀ entry ∈ tabAliases, entry.aliasTab = tab → entry.target = tab := by
  rw [AliasChain.final_iff]
  constructor
  · rintro hfinal entry hentry rfl
    exact hfinal entry.target (h.aliasNext_of_mem hentry)
  · intro hall other hnext
    obtain ⟨entry, hentry, halias, htarget⟩ := mem_of_aliasNext hnext
    rw [h.alias_eq entry hentry] at halias
    rw [h.target_eq entry hentry] at htarget
    rw [← htarget, hall entry hentry halias]

/-- Settled tabs resolve to settled tabs. -/
theorem normalizedTab_resolveTab (htab : SettledTab tab) :
    normalizedTab (resolveTab tabAliases tab) = resolveTab tabAliases tab := by
  rw [resolveTab_eq_chase]
  refine chase_induction (P := fun x ↦ normalizedTab x = x) htab ?_ 32
  intro x y hxy
  obtain ⟨entry, hentry, -, rfl⟩ := mem_of_aliasNext hxy
  rw [h.target_eq entry hentry, h.target_eq entry hentry]

end SettledAliases

/-- At the end of a chain, resolving once more changes nothing. -/
theorem resolveTab_of_final (hnormal : normalizedTab tab = tab) (h : Final (aliasNext tabAliases) tab) :
    resolveTab tabAliases tab = tab := by
  rw [resolveTab_eq_chase, hnormal]
  exact h.chase

/-- In a settled table, a settled tab resolves to a terminal tab exactly when its chain is short. -/
theorem terminalTab_iff {context : ConversationContextMeta} (h : SettledAliases context.tabAliases)
    (htab : SettledTab tab) : TerminalTab context tab ↔ ShortChain context.tabAliases tab := by
  have hnormal : normalizedTab (resolveContextTab context tab) = resolveContextTab context tab :=
    h.normalizedTab_resolveTab htab
  rw [← final_resolveTab_iff]
  constructor
  · exact fun hterminal ↦ (h.final_iff _).2 hterminal.2
  · exact fun hfinal ↦ ⟨resolveTab_of_final hnormal hfinal, (h.final_iff _).1 hfinal⟩

/-! ### Changes of the table -/

/-- Setting an alias changes where its tab leads. -/
theorem aliasNext_replaceAlias {entry : ContextTabAliasMeta}
    (hentry : normalizedTab entry.aliasTab = entry.aliasTab) (x : Bytes) :
    aliasNext (replaceAlias entry tabAliases) x =
      if x = entry.aliasTab then some (normalizedTab entry.target) else aliasNext tabAliases x := by
  induction tabAliases with
  | nil =>
    rw [replaceAlias, aliasNext_cons, hentry]
    exact if_congr eq_comm rfl rfl
  | cons existing rest ih =>
    rw [replaceAlias]
    split
    · rename_i hsame
      rw [aliasNext_cons, aliasNext_cons, hsame, hentry]
      by_cases hx : x = entry.aliasTab
      · rw [if_pos hx.symm, if_pos hx]
      · rw [if_neg (Ne.symm hx), if_neg hx, if_neg (Ne.symm hx)]
    · rename_i hother
      rw [aliasNext_cons, aliasNext_cons, ih]
      by_cases hx : normalizedTab existing.aliasTab = x
      · rw [if_pos hx, if_pos hx, if_neg fun heq ↦ hother (hx.trans heq)]
      · rw [if_neg hx, if_neg hx]

/-- The table keeps its other aliases. -/
theorem mem_replaceAlias {entry other : ContextTabAliasMeta} (h : other ∈ replaceAlias entry tabAliases) :
    other = entry ∨ other ∈ tabAliases := by
  induction tabAliases with
  | nil => exact .inl (List.mem_singleton.1 h)
  | cons existing rest ih =>
    rw [replaceAlias] at h
    split at h
    · exact (List.mem_cons.1 h).imp_right (List.mem_cons_of_mem _)
    · rcases List.mem_cons.1 h with rfl | h
      · exact .inr List.mem_cons_self
      · exact (ih h).imp_right (List.mem_cons_of_mem _)

/-- The aliases of the table with one entry replaced: it has the same aliases, or one more. -/
theorem nodup_replaceAlias (hnormal : ∀ entry ∈ tabAliases, normalizedTab entry.aliasTab = entry.aliasTab)
    (hnodup : (tabAliases.map (·.aliasTab)).Nodup) (entry : ContextTabAliasMeta) :
    ((replaceAlias entry tabAliases).map (·.aliasTab)).Nodup := by
  induction tabAliases with
  | nil => exact List.nodup_singleton _
  | cons existing rest ih =>
    obtain ⟨hexisting, hrest⟩ := List.nodup_cons.1 hnodup
    have hsame := hnormal existing List.mem_cons_self
    rw [replaceAlias, hsame]
    split
    · rename_i heq
      rw [List.map_cons, ← heq]
      exact List.nodup_cons.2 ⟨hexisting, hrest⟩
    · rename_i hne
      refine List.nodup_cons.2 ⟨fun hmem ↦ ?_, ih (fun e he ↦ hnormal e (List.mem_cons_of_mem _ he)) hrest⟩
      obtain ⟨other, hother, heq⟩ := List.mem_map.1 hmem
      rcases mem_replaceAlias hother with rfl | hother
      · exact hne heq.symm
      · exact hexisting (List.mem_map.2 ⟨other, hother, heq⟩)

/-- Setting an alias keeps the table settled. -/
theorem SettledAliases.replaceAlias (h : SettledAliases tabAliases) {entry : ContextTabAliasMeta}
    (halias : normalizedTab entry.aliasTab = entry.aliasTab)
    (htarget : normalizedTab entry.target = entry.target) :
    SettledAliases (SkibidiQL.replaceAlias entry tabAliases) where
  alias_eq other hother := by
    rcases mem_replaceAlias hother with rfl | hother
    · exact halias
    · exact h.alias_eq other hother
  target_eq other hother := by
    rcases mem_replaceAlias hother with rfl | hother
    · exact htarget
    · exact h.target_eq other hother
  nodup := nodup_replaceAlias h.alias_eq h.nodup entry

/-- The loop of `executeMergeTabs` over the aliases keeps the aliases and sets some targets. -/
theorem mergeAliases_forall₂ (source target : Bytes) (done rest : List ContextTabAliasMeta) :
    ∃ rest', mergeAliases source target done rest = done ++ rest' ∧
      List.Forall₂ (fun entry entry' ↦ entry' = entry ∨ entry' = { entry with target }) rest rest' := by
  induction rest generalizing done with
  | nil => exact ⟨[], (List.append_nil done).symm, .nil⟩
  | cons entry rest ih =>
    rw [mergeAliases]
    obtain ⟨rest', heq, hforall⟩ := ih (done ++ [if resolveTab (done ++ entry :: rest) entry.target = source
      then { entry with target } else entry])
    refine ⟨_ :: rest', heq.trans (List.append_assoc _ _ _), .cons ?_ hforall⟩
    split
    · exact .inr rfl
    · exact .inl rfl

/-- Merging two tabs keeps the table settled. -/
theorem SettledAliases.mergeAliases (h : SettledAliases tabAliases) (source : Bytes) {target : Bytes}
    (htarget : normalizedTab target = target) :
    SettledAliases (SkibidiQL.mergeAliases source target [] tabAliases) := by
  obtain ⟨rest', heq, hforall⟩ := mergeAliases_forall₂ source target [] tabAliases
  rw [heq, List.nil_append]
  have hback : ∀ entry' ∈ rest', ∃ entry ∈ tabAliases,
      entry' = entry ∨ entry' = { entry with target } := fun entry' hentry' ↦ hforall.exists_left hentry'
  refine ⟨fun entry' hentry' ↦ ?_, fun entry' hentry' ↦ ?_, ?_⟩
  · obtain ⟨entry, hentry, rfl | rfl⟩ := hback entry' hentry'
    · exact h.alias_eq entry' hentry
    · exact h.alias_eq entry hentry
  · obtain ⟨entry, hentry, rfl | rfl⟩ := hback entry' hentry'
    · exact h.target_eq _ hentry
    · exact htarget
  · have hnames : tabAliases.map (·.aliasTab) = rest'.map (·.aliasTab) :=
      hforall.map_eq_map fun entry entry' hentry ↦ by
        rcases hentry with rfl | rfl <;> rfl
    exact hnames ▸ h.nodup

end Table

/-! ### Statements -/

/-- The tabs of the statement that may enter the alias table settle. -/
def ContextStatement.SettledTabs : ContextStatement → Prop
  | .append _ => True
  | .tag _ => True
  | .aliasTab statement => SettledTab statement.aliasTab ∧ SettledTab statement.target
  | .merge statement => SettledTab statement.fromTab ∧ SettledTab statement.toTab

instance (statement : ContextStatement) : Decidable statement.SettledTabs := by
  cases statement <;> unfold ContextStatement.SettledTabs <;> infer_instance

theorem SettledTab.of_eq {tab : Bytes} (h : normalizedTab tab = tab) : SettledTab tab := by
  rw [SettledTab, h, h]

/-- `ALIAS TAB` keeps the table settled. -/
theorem SettledAliases.setContextTabAlias {context : ConversationContextMeta}
    (h : SettledAliases context.tabAliases) {aliasValue targetValue : Bytes}
    (halias : SettledTab aliasValue) (htarget : SettledTab targetValue) :
    SettledAliases (SkibidiQL.setContextTabAlias context aliasValue targetValue).tabAliases := by
  rw [SkibidiQL.setContextTabAlias]
  exact h.replaceAlias halias (h.normalizedTab_resolveTab htarget)

/-- Every statement with settled tabs does. -/
theorem settledAliases_apply {context : ConversationContextMeta} (hexact : StatusExact context.atoms)
    (h : SettledAliases context.tabAliases) {statement : ContextStatement}
    (hsettled : statement.SettledTabs) : SettledAliases (statement.apply context).tabAliases := by
  have hresolved {tab : Bytes} (htab : SettledTab tab) : SettledTab (resolveContextTab context tab) :=
    .of_eq (h.normalizedTab_resolveTab htab)
  rw [(apply_spec hexact statement).2.2]
  rcases statement with statement | statement | statement | statement
  · exact h
  · exact h
  · obtain ⟨halias, htarget⟩ := hsettled
    rw [storedAliases]
    exact h.setContextTabAlias (.of_eq halias) (hresolved htarget)
  · obtain ⟨hfrom, hto⟩ := hsettled
    rw [storedAliases]
    split
    · rw [mergedContext]
      refine SettledAliases.setContextTabAlias ?_ (hresolved hfrom) (hresolved hto)
      exact h.mergeAliases _ (h.normalizedTab_resolveTab hto)
    · exact h

/-- Along a run whose tabs settle, the alias table stays settled. -/
theorem settledAliases_runContext (name : Bytes) {statements : List ContextStatement}
    (hsettled : ∀ statement ∈ statements, statement.SettledTabs) :
    SettledAliases (runContext { name } statements).tabAliases := by
  have hrun : ∀ context : ConversationContextMeta, StatusExact context.atoms →
      SettledAliases context.tabAliases → SettledAliases (runContext context statements).tabAliases := by
    induction statements with
    | nil => exact fun _ _ h ↦ h
    | cons statement statements ih =>
      obtain ⟨hfirst, hrest⟩ := List.forall_mem_cons.1 hsettled
      exact fun context hexact h ↦
        ih hrest _ (apply_spec hexact statement).1 (settledAliases_apply hexact h hfirst)
  exact hrun { name } rfl ⟨nofun, nofun, .nil⟩

/-- `executeAliasTab` sets the entry of the alias to the resolved target, which it resolves twice. -/
theorem aliasNext_aliasTab {context : ConversationContextMeta} {statement : AliasTabStmt}
    (halias : SettledTab statement.aliasTab)
    (hnormal : normalizedTab (resolveContextTab context statement.target) =
      resolveContextTab context statement.target)
    (hfinal : Final (aliasNext context.tabAliases) (resolveContextTab context statement.target)) (x : Bytes) :
    aliasNext ((ContextStatement.aliasTab statement).apply context).tabAliases x =
      if x = normalizedTab statement.aliasTab then some (resolveContextTab context statement.target)
      else aliasNext context.tabAliases x := by
  have hagain : resolveContextTab context (resolveContextTab context statement.target) =
      resolveContextTab context statement.target := resolveTab_of_final hnormal hfinal
  have hstored := @aliasNext_replaceAlias context.tabAliases
    { aliasTab := normalizedTab (normalizedTab statement.aliasTab)
      target := resolveContextTab context (resolveContextTab context statement.target) }
    (by rw [halias, halias]) x
  refine hstored.trans ?_
  rw [halias, hagain, hnormal]

/-- After aliasing a settled tab to another one whose chain is short, both resolve to one tab. -/
theorem aliasTab_resolve {context : ConversationContextMeta} (h : SettledAliases context.tabAliases)
    {statement : AliasTabStmt} (halias : SettledTab statement.aliasTab)
    (htarget : SettledTab statement.target) (hshort : ShortChain context.tabAliases statement.target) :
    resolveContextTab ((ContextStatement.aliasTab statement).apply context) statement.aliasTab =
      resolveContextTab ((ContextStatement.aliasTab statement).apply context) statement.target := by
  have hnormal : normalizedTab (resolveContextTab context statement.target) =
      resolveContextTab context statement.target := h.normalizedTab_resolveTab htarget
  have hfinal := final_resolveTab_iff.2 hshort
  have hnext := aliasNext_aliasTab halias hnormal hfinal
  set aliases := ((ContextStatement.aliasTab statement).apply context).tabAliases
  obtain ⟨hend, hfirst, hsecond⟩ := of_set hnext hfinal hshort.resolveTab_eq.symm
  have hshortAlias : Within (aliasNext aliases) 1 (normalizedTab statement.aliasTab) := by
    rw [Within, Function.iterate_one, hfirst]
    exact hend
  have hshortTarget : ShortChain aliases statement.target := by
    rw [ShortChain, Within, hsecond]
    exact hend
  show resolveTab aliases statement.aliasTab = resolveTab aliases statement.target
  rw [hshortTarget.resolveTab_eq, hsecond, resolveTab_eq_chase, chase_eq (by decide) hshortAlias,
    Function.iterate_one, hfirst]

/-- In every context that a run of statements with settled tabs reaches, a settled tab resolves to a terminal
tab exactly when its chain is short, and aliasing a tab to one whose chain is short makes them resolve to one
tab. -/
theorem tabs_resolve_terminally (name : Bytes) (statements : List ContextStatement)
    (hsettled : ∀ statement ∈ statements, statement.SettledTabs) :
    (∀ tab, SettledTab tab → (TerminalTab (runContext { name } statements) tab ↔
      ShortChain (runContext { name } statements).tabAliases tab)) ∧
    ∀ statement : AliasTabStmt, SettledTab statement.aliasTab → SettledTab statement.target →
      ShortChain (runContext { name } statements).tabAliases statement.target →
        resolveContextTab (runContext { name } (statements ++ [.aliasTab statement]))
            statement.aliasTab =
          resolveContextTab (runContext { name } (statements ++ [.aliasTab statement]))
            statement.target := by
  have h := settledAliases_runContext name hsettled
  refine ⟨fun tab htab ↦ terminalTab_iff h htab, fun statement halias htarget hshort ↦ ?_⟩
  rw [runContext, List.foldl_append]
  exact aliasTab_resolve h halias htarget hshort

/-- An alias for a tab, and an alias for that alias. -/
def puppyAliases : List ContextStatement :=
  [.aliasTab { context := lit "c", aliasTab := lit "puppy", target := lit "dog" },
    .aliasTab { context := lit "c", aliasTab := lit "dog", target := lit "pets" }]

theorem tabs_resolve_terminally_puppy :
    TerminalTab (runContext { name := lit "c" } puppyAliases) (lit "puppy") :=
  ((tabs_resolve_terminally (lit "c") puppyAliases (by decide +kernel)).1 (lit "puppy")
    (by decide +kernel)).2 (by decide +kernel)

/-- Aliases that continue each other: the tab `0` stands for `1`, which is then made to stand for `2`. -/
def longChain (n : Nat) : List ContextStatement :=
  (List.range n).map fun i ↦
    .aliasTab { context := lit "c", aliasTab := ofNat i, target := ofNat (i + 1) }

/-- A chain of aliases that is one hop too long. -/
theorem tabs_not_terminal :
    ¬∀ (name : Bytes) (statements : List ContextStatement) (tab : Bytes),
      TerminalTab (runContext { name } statements) tab := by
  intro h
  exact absurd (h (lit "c") (longChain 33) (lit "0")) (by decide +kernel)

end SkibidiQL
