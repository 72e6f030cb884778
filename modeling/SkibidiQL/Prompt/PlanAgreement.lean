import SkibidiQL.Base.ListRules
import SkibidiQL.Prompt.ContextPlan

/-!
# Explain agrees with spill

The two selections are followed side by side with `rankedAtoms` and `budgeted`. The invariant of the loop
over the atoms is `Tracks`: the vector holds the candidates that `addCandidate` keeps, the table gives their
positions, and the running sum of a plan is the sum of their costs.
-/

namespace SkibidiQL

open Bytes KeyedVector

/-- The diversity key of a candidate. -/
def RankedAtom.diversityKey (ranked : RankedAtom) : Bytes :=
  contextAtomDiversityKey ranked.atom

/-- The token cost of a candidate. -/
def RankedAtom.cost (receipts : Bool) (ranked : RankedAtom) : Nat :=
  estimateContextTokens (renderContextAtom ranked.atom receipts)

/-- The candidate as a plan has it. -/
def RankedAtom.plan (receipts : Bool) (ranked : RankedAtom) : PlanAtom where
  atom := ranked.atom
  utility := ranked.utility
  ordinal := ranked.ordinal
  tokenCost := ranked.cost receipts
  redacted := shouldRedact ranked.atom.accessLabels

/-- A candidate is offered to the vector of its diversity keys. -/
theorem addCandidate_eq_offer (candidate : RankedAtom) (active : List RankedAtom) :
    addCandidate candidate active = offer RankedAtom.diversityKey RankedAtom.beats candidate active := by
  induction active with
  | nil => rfl
  | cons current active ih =>
    rw [addCandidate, offer, ih]
    rfl

/-- The candidates of some atoms with their positions, offered to those that are kept already. -/
def candidatesFrom (lowerQuery : Bytes) (active : List RankedAtom)
    (entries : List (ContextAtomMeta × Nat)) : List RankedAtom :=
  entries.foldl (fun active entry ↦
    if entry.1.status = lit "active" then
      addCandidate { atom := entry.1, ordinal := entry.2
                     utility := contextAtomUtilityLower entry.1 lowerQuery } active
    else active) active

/-- The access labels of some atoms, added to those that are known. -/
def labelsFrom (labels : List Bytes) (entries : List (ContextAtomMeta × Nat)) : List Bytes :=
  entries.foldl (fun labels entry ↦ entry.1.accessLabels.foldl addUnique labels) labels

section Scan

variable {context : ConversationContextMeta} {tabFilter lowerQuery : Bytes} {receipts : Bool}

/-! ### The candidates of a spill -/

/-- The table gives the positions of the candidates. -/
def SpillScan.Tracks (scan : SpillScan) : Prop :=
  Positions RankedAtom.diversityKey scan.active (scan.activeByDiversityKey[·]?)

/-- Storing a candidate keeps the positions tracked. -/
theorem SpillScan.Tracks.store {scan : SpillScan} (h : scan.Tracks) (candidate : RankedAtom) :
    ∃ table, scan.store candidate = some { scan with
        active := addCandidate candidate scan.active, activeByDiversityKey := table } ∧
      Positions RankedAtom.diversityKey (addCandidate candidate scan.active) (table[·]?) := by
  rw [addCandidate_eq_offer, SpillScan.store]
  cases hfound : scan.activeByDiversityKey[contextAtomDiversityKey candidate.atom]? with
  | none =>
    rw [h.offer_of_none hfound]
    refine ⟨_, rfl, h.append hfound ?_ fun k hk ↦ ?_⟩
    · exact Std.ExtTreeMap.getElem?_insert_self
    · rw [Std.ExtTreeMap.getElem?_insert, if_neg]
      exact fun heq ↦ hk (Std.LawfulEqCmp.eq_of_compare heq).symm
  | some existing =>
    obtain ⟨current, hcurrent, hkey⟩ := h.get hfound
    rw [h.offer_of_some hfound hcurrent hkey]
    simp only [hcurrent, Option.bind_eq_bind, Option.bind_some]
    refine ⟨scan.activeByDiversityKey, ?_, ?_⟩
    · change (if candidate.beats current then _ else _) = _
      by_cases hbeats : candidate.beats current
      · rw [if_pos hbeats, if_pos hbeats]
      · rw [if_neg hbeats, if_neg hbeats, set_of_getElem? hcurrent]
    · by_cases hbeats : candidate.beats current
      · rw [if_pos hbeats]
        exact h.set hcurrent hkey.symm
      · rw [if_neg hbeats]
        exact h.set hcurrent rfl

/-- The scan after some atoms that match the tab filter. -/
def SpillScan.after (lowerQuery : Bytes) (scan : SpillScan) (shown : List (ContextAtomMeta × Nat))
    (table : NameMap Nat) : SpillScan :=
  { scan with
    accessLabels := labelsFrom scan.accessLabels shown
    active := candidatesFrom lowerQuery scan.active shown
    invalidated := scan.invalidated ++
      (shown.map Prod.fst).filter fun atom ↦ atom.status == lit "invalidated"
    activeByDiversityKey := table }

/-- Two stretches of atoms are one. -/
theorem SpillScan.after_after (scan : SpillScan) (shown later : List (ContextAtomMeta × Nat))
    (table table' : NameMap Nat) :
    (scan.after lowerQuery shown table).after lowerQuery later table' =
      scan.after lowerQuery (shown ++ later) table' := by
  simp only [SpillScan.after, labelsFrom, candidatesFrom, List.foldl_append, List.map_append,
    List.filter_append, List.append_assoc]

/-- The atom at a position, if it matches the tab filter. -/
def shownEntry (context : ConversationContextMeta) (tabFilter : Bytes)
    (entry : ContextAtomMeta × Nat) : List (ContextAtomMeta × Nat) :=
  [entry].filter fun entry ↦ contextMatchesTab context entry.1.tab entry.1.tags tabFilter

/-- Visiting an atom stores it when it is shown. -/
theorem SpillScan.Tracks.visitAtom {scan : SpillScan} (h : scan.Tracks)
    (entry : ContextAtomMeta × Nat) :
    ∃ table, scan.visitAtom context tabFilter lowerQuery entry =
        some (scan.after lowerQuery (shownEntry context tabFilter entry) table) ∧
      (scan.after lowerQuery (shownEntry context tabFilter entry) table).Tracks := by
  obtain ⟨atom, index⟩ := entry
  rw [SpillScan.visitAtom, shownEntry, List.filter_singleton]
  cases contextMatchesTab context atom.tab atom.tags tabFilter with
  | false =>
    refine ⟨scan.activeByDiversityKey, ?_, h⟩
    exact congrArg some (by simp [SpillScan.after, labelsFrom, candidatesFrom])
  | true =>
    by_cases hactive : atom.status = lit "active"
    · have hlabelled : SpillScan.Tracks
        { scan with accessLabels := atom.accessLabels.foldl addUnique scan.accessLabels } := h
      obtain ⟨table, hstore, htracks⟩ := hlabelled.store
        { atom := atom, utility := contextAtomUtilityLower atom lowerQuery, ordinal := index }
      have hnot : (lit "active" == lit "invalidated") = false := by decide
      refine ⟨table, ((if_pos hactive).trans hstore).trans (congrArg some ?_), ?_⟩
      · simp [SpillScan.after, labelsFrom, candidatesFrom, hactive, hnot]
      · simpa [SpillScan.Tracks, SpillScan.after, candidatesFrom, hactive] using htracks
    · refine ⟨scan.activeByDiversityKey, (if_neg hactive).trans ?_, ?_⟩
      · have hne : lit "invalidated" ≠ lit "active" := by decide
        by_cases hinvalidated : atom.status = lit "invalidated"
        · refine (if_pos hinvalidated).trans (congrArg some ?_)
          simp [SpillScan.after, labelsFrom, candidatesFrom, hinvalidated, hne]
        · refine (if_neg hinvalidated).trans (congrArg some ?_)
          simp [SpillScan.after, labelsFrom, candidatesFrom, hinvalidated, hactive]
      · simpa [SpillScan.Tracks, SpillScan.after, candidatesFrom, hactive] using h

/-- The loop of `executeSpillContext` over the atoms. -/
theorem SpillScan.Tracks.foldlM_visitAtom {scan : SpillScan} (h : scan.Tracks)
    (entries : List (ContextAtomMeta × Nat)) :
    ∃ table, entries.foldlM (SpillScan.visitAtom context tabFilter lowerQuery) scan =
      some (scan.after lowerQuery (entries.filter fun entry ↦
        contextMatchesTab context entry.1.tab entry.1.tags tabFilter) table) := by
  induction entries generalizing scan with
  | nil => exact ⟨scan.activeByDiversityKey, by simp [SpillScan.after, labelsFrom, candidatesFrom]⟩
  | cons entry entries ih =>
    obtain ⟨table, hvisit, htracks⟩ := @Tracks.visitAtom context tabFilter lowerQuery _ h entry
    obtain ⟨table', hrest⟩ := ih htracks
    refine ⟨table', ?_⟩
    rw [List.foldlM_cons, hvisit]
    refine hrest.trans ?_
    rw [SpillScan.after_after, shownEntry, ← List.filter_append, List.singleton_append]

/-! ### The candidates of a plan -/

/-- The vector of a plan holds the candidates, the table gives their positions, and the running sum is the
sum of their costs. -/
structure PlanScan.Tracks (receipts : Bool) (scan : PlanScan) (active : List RankedAtom) : Prop where
  active_eq : scan.active = active.map (RankedAtom.plan receipts)
  positions : Positions RankedAtom.diversityKey active (scan.activeByDiversityKey[·]?)
  cost_eq : scan.allActiveTokenCost = (active.map (RankedAtom.cost receipts)).sum

/-- The plan stores the candidate's plan in the same place. -/
theorem PlanScan.Tracks.store {scan : PlanScan} {active : List RankedAtom}
    (h : scan.Tracks receipts active) (candidate : RankedAtom) :
    ∃ table, scan.store (candidate.plan receipts) = some { scan with
        active := (addCandidate candidate active).map (RankedAtom.plan receipts)
        allActiveTokenCost := ((addCandidate candidate active).map (RankedAtom.cost receipts)).sum
        activeByDiversityKey := table } ∧
      Positions RankedAtom.diversityKey (addCandidate candidate active) (table[·]?) := by
  rw [addCandidate_eq_offer, PlanScan.store]
  dsimp only [RankedAtom.plan]
  cases hfound : scan.activeByDiversityKey[contextAtomDiversityKey candidate.atom]? with
  | none =>
    rw [h.positions.offer_of_none hfound]
    refine ⟨scan.activeByDiversityKey.insert candidate.diversityKey active.length,
      congrArg some ?_, h.positions.append hfound ?_ fun k hk ↦ ?_⟩
    · rw [h.active_eq, h.cost_eq]
      simp [RankedAtom.plan, RankedAtom.diversityKey]
    · exact Std.ExtTreeMap.getElem?_insert_self
    · rw [Std.ExtTreeMap.getElem?_insert, if_neg]
      exact fun heq ↦ hk (Std.LawfulEqCmp.eq_of_compare heq).symm
  | some existing =>
    obtain ⟨current, hcurrent, hkey⟩ := h.positions.get hfound
    have hplan : scan.active[existing]? = some (current.plan receipts) := by
      rw [h.active_eq, List.getElem?_map, hcurrent]
      rfl
    rw [h.positions.offer_of_some hfound hcurrent hkey]
    simp only [hplan, Option.bind_eq_bind, Option.bind_some]
    refine ⟨scan.activeByDiversityKey, ?_, ?_⟩
    -- The cost of the beaten plan is part of the sum, so the subtraction does not wrap around.
    · change (if candidate.beats current then _ else _) = _
      by_cases hbeats : candidate.beats current
      · rw [if_pos hbeats, if_pos hbeats]
        have hle : ¬(current.plan receipts).tokenCost > scan.allActiveTokenCost := by
          rw [h.cost_eq]
          exact Nat.not_lt.2 (List.le_sum_map (RankedAtom.cost receipts) hcurrent)
        rw [if_neg hle, h.active_eq, h.cost_eq, List.sum_map_set _ hcurrent, List.map_set]
        rfl
      · rw [if_neg hbeats, if_neg hbeats, set_of_getElem? hcurrent, ← h.active_eq, ← h.cost_eq]
    · by_cases hbeats : candidate.beats current
      · rw [if_pos hbeats]
        exact h.positions.set hcurrent hkey.symm
      · rw [if_neg hbeats]
        exact h.positions.set hcurrent rfl

/-- The scan after some atoms, of which `shown` match the tab filter. -/
def PlanScan.after (lowerQuery : Bytes) (receipts : Bool) (scan : PlanScan) (active : List RankedAtom)
    (pruned : Nat) (shown : List (ContextAtomMeta × Nat)) (table : NameMap Nat) : PlanScan :=
  { scan with
    scannedAtoms := scan.scannedAtoms + shown.length
    prunedTabAtoms := scan.prunedTabAtoms + pruned
    prunedInvalidatedAtoms := scan.prunedInvalidatedAtoms +
      shown.countP fun entry ↦ entry.1.status != lit "active"
    accessLabels := labelsFrom scan.accessLabels shown
    active := (candidatesFrom lowerQuery active shown).map (RankedAtom.plan receipts)
    allActiveTokenCost :=
      ((candidatesFrom lowerQuery active shown).map (RankedAtom.cost receipts)).sum
    activeByDiversityKey := table }

/-- Two stretches of atoms are one in the plan as well. -/
theorem PlanScan.after_after (scan : PlanScan) (active : List RankedAtom) (pruned later : Nat)
    (shown others : List (ContextAtomMeta × Nat)) (table table' : NameMap Nat) :
    (scan.after lowerQuery receipts active pruned shown table).after lowerQuery receipts
        (candidatesFrom lowerQuery active shown) later others table' =
      scan.after lowerQuery receipts active (pruned + later) (shown ++ others) table' := by
  simp only [PlanScan.after, labelsFrom, candidatesFrom, List.foldl_append, List.length_append,
    List.countP_append, Nat.add_assoc]

/-- The plan visits an atom as the view does. -/
theorem PlanScan.Tracks.visitAtom {scan : PlanScan} {active : List RankedAtom}
    (h : scan.Tracks receipts active) (entry : ContextAtomMeta × Nat) :
    ∃ table, scan.visitAtom context tabFilter lowerQuery receipts entry =
        some (scan.after lowerQuery receipts active
          (1 - (shownEntry context tabFilter entry).length) (shownEntry context tabFilter entry)
          table) ∧
      Positions RankedAtom.diversityKey
        (candidatesFrom lowerQuery active (shownEntry context tabFilter entry)) (table[·]?) := by
  obtain ⟨atom, index⟩ := entry
  rw [PlanScan.visitAtom, shownEntry, List.filter_singleton]
  cases contextMatchesTab context atom.tab atom.tags tabFilter with
  | false =>
    refine ⟨scan.activeByDiversityKey, congrArg some ?_, h.positions⟩
    simp [PlanScan.after, labelsFrom, candidatesFrom, ← h.active_eq, ← h.cost_eq]
  | true =>
    by_cases hactive : atom.status = lit "active"
    · have hlabelled : PlanScan.Tracks receipts
        { scan with
          scannedAtoms := scan.scannedAtoms + 1
          accessLabels := atom.accessLabels.foldl addUnique scan.accessLabels } active :=
        ⟨h.active_eq, h.positions, h.cost_eq⟩
      obtain ⟨table, hstore, hpositions⟩ := hlabelled.store
        { atom := atom, utility := contextAtomUtilityLower atom lowerQuery, ordinal := index }
      refine ⟨table, ((if_neg (not_not.2 hactive)).trans hstore).trans (congrArg some ?_), ?_⟩
      · simp [PlanScan.after, labelsFrom, candidatesFrom, hactive]
      · simpa [candidatesFrom, hactive] using hpositions
    · refine ⟨scan.activeByDiversityKey, (if_pos hactive).trans (congrArg some ?_), ?_⟩
      · simp [PlanScan.after, labelsFrom, candidatesFrom, hactive, ← h.active_eq, ← h.cost_eq]
      · simpa [candidatesFrom, hactive] using h.positions

/-- The loop of `executeExplainContext` over the atoms. -/
theorem PlanScan.Tracks.foldlM_visitAtom {scan : PlanScan} {active : List RankedAtom}
    (h : scan.Tracks receipts active) (entries : List (ContextAtomMeta × Nat)) :
    ∃ table, entries.foldlM (PlanScan.visitAtom context tabFilter lowerQuery receipts) scan =
      some (scan.after lowerQuery receipts active
        (entries.length - (entries.filter fun entry ↦
          contextMatchesTab context entry.1.tab entry.1.tags tabFilter).length)
        (entries.filter fun entry ↦
          contextMatchesTab context entry.1.tab entry.1.tags tabFilter) table) := by
  induction entries generalizing scan active with
  | nil =>
    refine ⟨scan.activeByDiversityKey, congrArg some ?_⟩
    simp [PlanScan.after, labelsFrom, candidatesFrom, ← h.active_eq, ← h.cost_eq]
  | cons entry entries ih =>
    obtain ⟨table, hvisit, hpositions⟩ := @Tracks.visitAtom context tabFilter lowerQuery receipts _ _ h entry
    have htracks : (scan.after lowerQuery receipts active
        (1 - (shownEntry context tabFilter entry).length) (shownEntry context tabFilter entry) table).Tracks
        receipts (candidatesFrom lowerQuery active (shownEntry context tabFilter entry)) :=
      ⟨rfl, hpositions, rfl⟩
    obtain ⟨table', hrest⟩ := ih htracks
    refine ⟨table', ?_⟩
    rw [List.foldlM_cons, hvisit]
    refine hrest.trans ?_
    have hone := List.length_filter_le
      (fun entry ↦ contextMatchesTab context entry.1.tab entry.1.tags tabFilter) [entry]
    have hmany := List.length_filter_le
      (fun entry ↦ contextMatchesTab context entry.1.tab entry.1.tags tabFilter) entries
    rw [PlanScan.after_after, shownEntry, ← List.filter_append, List.singleton_append]
    congr 2
    rw [← List.singleton_append (l := entries), List.filter_append, List.length_append,
      List.length_append, List.length_singleton]
    rw [List.length_singleton] at hone
    omega

/-! ### The messages -/

/-- The access labels of some messages. -/
def messageLabelsFrom (labels : List Bytes) (messages : List ContextMessageMeta) : List Bytes :=
  messages.foldl (fun labels message ↦ message.accessLabels.foldl addUnique labels) labels

/-- The mentioned entities of some messages. -/
def messageEntitiesFrom (entities : List Bytes) (messages : List ContextMessageMeta) : List Bytes :=
  messages.foldl (fun entities message ↦ message.mentionedEntities.foldl addUnique entities) entities

/-- The view collects labels and entities from the messages of its tab. -/
theorem SpillScan.foldl_visitMessage (scan : SpillScan) (messages : List ContextMessageMeta) :
    messages.foldl (SpillScan.visitMessage context tabFilter) scan =
      { scan with
        accessLabels := messageLabelsFrom scan.accessLabels (messages.filter fun message ↦
          contextMatchesTab context message.tab message.tags tabFilter)
        mentionedEntities := messageEntitiesFrom scan.mentionedEntities (messages.filter fun message ↦
          contextMatchesTab context message.tab message.tags tabFilter) } := by
  induction messages generalizing scan with
  | nil => rfl
  | cons message messages ih =>
    rw [List.foldl_cons, ih, List.filter_cons, SpillScan.visitMessage]
    cases contextMatchesTab context message.tab message.tags tabFilter with
    | false => rfl
    | true => rfl

/-- The plan counts the messages of its tab. -/
theorem PlanScan.foldl_visitMessage (scan : PlanScan) (messages : List ContextMessageMeta) :
    messages.foldl (PlanScan.visitMessage context tabFilter) scan =
      { scan with
        scannedMessages := scan.scannedMessages + (messages.filter fun message ↦
          contextMatchesTab context message.tab message.tags tabFilter).length
        prunedTabMessages := scan.prunedTabMessages +
          (messages.length - (messages.filter fun message ↦
            contextMatchesTab context message.tab message.tags tabFilter).length)
        accessLabels := messageLabelsFrom scan.accessLabels (messages.filter fun message ↦
          contextMatchesTab context message.tab message.tags tabFilter)
        mentionedEntities := messageEntitiesFrom scan.mentionedEntities (messages.filter fun message ↦
          contextMatchesTab context message.tab message.tags tabFilter) } := by
  induction messages generalizing scan with
  | nil => rfl
  | cons message messages ih =>
    have hle := List.length_filter_le
      (fun message ↦ contextMatchesTab context message.tab message.tags tabFilter) messages
    rw [List.foldl_cons, ih, List.filter_cons, PlanScan.visitMessage]
    cases contextMatchesTab context message.tab message.tags tabFilter with
    | false =>
      simp only [Bool.not_false, if_true, Bool.false_eq_true, if_false, List.length_cons]
      congr 1
      omega
    | true =>
      simp only [Bool.not_true, Bool.false_eq_true, if_true, if_false, List.length_cons]
      congr 1 <;> omega

end Scan

/-! ### Sorting and rendering -/

/-- The plan sorts its candidates as the view does. -/
theorem insertionSort_plan (receipts : Bool) (active : List RankedAtom) :
    ((active.map (RankedAtom.plan receipts)).insertionSort fun left right ↦
        left.utility > right.utility ||
          (left.utility == right.utility && left.ordinal ≥ right.ordinal)) =
      (active.insertionSort fun left right ↦
        left.utility > right.utility ||
          (left.utility == right.utility && left.ordinal ≥ right.ordinal)).map
        (RankedAtom.plan receipts) := by
  refine (List.map_insertionSort _ _ (RankedAtom.plan receipts) active ?_).symm
  exact fun _ _ _ _ ↦ Iff.rfl

/-- The budget on one candidate. -/
def admitAtom (receipts : Bool) (tokenBudget : Nat) (state : List ContextAtomMeta × Nat)
    (ranked : RankedAtom) : List ContextAtomMeta × Nat :=
  if (!state.1.isEmpty && state.2 + ranked.cost receipts > tokenBudget) ||
      (state.1.isEmpty && ranked.cost receipts > tokenBudget) then state
  else (state.1 ++ [ranked.atom], state.2 + ranked.cost receipts)

theorem budgeted_eq (receipts : Bool) (tokenBudget : Nat) (active : List RankedAtom) :
    budgeted receipts tokenBudget active = active.foldl (admitAtom receipts tokenBudget) ([], 0) :=
  rfl

/-- What `executeSpillContext` has rendered when the budget has admitted some atoms. -/
def spillRender (receipts : Bool) (state : List ContextAtomMeta × Nat) : SpillRender where
  renderedAtoms := state.1.map fun atom ↦ renderContextAtom atom receipts
  tokenCost := state.2
  redactedAtoms := state.1.countP fun atom ↦ shouldRedact atom.accessLabels

/-- A further atom is counted when it is redacted. -/
theorem countP_redacted (rendered : List ContextAtomMeta) (atom : ContextAtomMeta) :
    (rendered ++ [atom]).countP (fun atom ↦ shouldRedact atom.accessLabels) =
      if shouldRedact atom.accessLabels then
        (rendered.countP fun atom ↦ shouldRedact atom.accessLabels) + 1
      else rendered.countP fun atom ↦ shouldRedact atom.accessLabels := by
  rw [List.countP_append, List.countP_singleton]
  split <;> rfl

/-- The view renders an atom as the budget admits it. -/
theorem visit_spillRender (receipts : Bool) (tokenBudget : Nat) (state : List ContextAtomMeta × Nat)
    (ranked : RankedAtom) :
    (spillRender receipts state).visit receipts tokenBudget ranked =
      spillRender receipts (admitAtom receipts tokenBudget state ranked) := by
  have hempty : (spillRender receipts state).renderedAtoms.isEmpty = state.1.isEmpty :=
    List.isEmpty_map
  rw [SpillRender.visit, hempty, admitAtom, apply_ite (spillRender receipts), ← ite_or]
  simp only [Bool.or_eq_true]
  refine if_congr Iff.rfl rfl ?_
  rw [spillRender, spillRender, List.map_append, countP_redacted]
  rfl

/-- The view renders what the budget admits. -/
theorem foldl_spillRender (receipts : Bool) (tokenBudget : Nat) (active : List RankedAtom) :
    active.foldl (SpillRender.visit receipts tokenBudget) {} =
      spillRender receipts (budgeted receipts tokenBudget active) := by
  have hinit : ({} : SpillRender) = spillRender receipts ([], 0) := rfl
  rw [budgeted_eq, hinit]
  exact List.foldl_hom (spillRender receipts) (visit_spillRender receipts tokenBudget)

/-- What `executeExplainContext` has counted when the budget has admitted some atoms. -/
def planRender (state : List ContextAtomMeta × Nat) : PlanRender where
  renderedAtoms := state.1.length
  tokenCost := state.2
  redactedAtoms := state.1.countP fun atom ↦ shouldRedact atom.accessLabels

/-- The plan charges an atom as the budget admits it. -/
theorem visit_planRender (receipts : Bool) (tokenBudget : Nat) (state : List ContextAtomMeta × Nat)
    (ranked : RankedAtom) :
    (planRender state).visit tokenBudget (ranked.plan receipts) =
      planRender (admitAtom receipts tokenBudget state ranked) := by
  have hzero : ((planRender state).renderedAtoms == 0) = state.1.isEmpty := by
    obtain ⟨rendered, tokenCost⟩ := state
    cases rendered <;> rfl
  have hpos : decide ((planRender state).renderedAtoms > 0) = !state.1.isEmpty := by
    obtain ⟨rendered, tokenCost⟩ := state
    cases rendered <;> rfl
  rw [PlanRender.visit, hzero, hpos, admitAtom, apply_ite planRender, ← ite_or]
  simp only [Bool.or_eq_true]
  refine if_congr Iff.rfl rfl ?_
  rw [planRender, planRender, List.length_append, countP_redacted]
  rfl

/-- The plan charges what the budget admits. -/
theorem foldl_planRender (receipts : Bool) (tokenBudget : Nat) (active : List RankedAtom) :
    (active.map (RankedAtom.plan receipts)).foldl (PlanRender.visit tokenBudget) {} =
      planRender (budgeted receipts tokenBudget active) := by
  have hinit : ({} : PlanRender) = planRender ([], 0) := rfl
  rw [budgeted_eq, List.foldl_map, hinit]
  exact List.foldl_hom planRender (visit_planRender receipts tokenBudget)

/-- The atoms that the budget admits cost at most as much as all. -/
theorem budgeted_cost_le (receipts : Bool) (tokenBudget : Nat) (active : List RankedAtom) :
    (budgeted receipts tokenBudget active).2 ≤ (active.map (RankedAtom.cost receipts)).sum := by
  have hgeneral : ∀ (active : List RankedAtom) (state : List ContextAtomMeta × Nat),
      (active.foldl (admitAtom receipts tokenBudget) state).2 ≤
        state.2 + (active.map (RankedAtom.cost receipts)).sum := by
    intro active
    induction active with
    | nil => exact fun state ↦ Nat.le_refl _
    | cons ranked active ih =>
      intro state
      have hstep : (admitAtom receipts tokenBudget state ranked).2 ≤ state.2 + ranked.cost receipts := by
        rw [admitAtom]
        split
        · exact Nat.le_add_right _ _
        · exact Nat.le_refl _
      rw [List.foldl_cons, List.map_cons, List.sum_cons]
      exact (ih _).trans (by omega)
  exact (hgeneral active ([], 0)).trans (Nat.le_of_eq (Nat.zero_add _))

/-! ### The statements -/

/-- `executeSpillContext` returns the view of the context. -/
theorem executeSpillContext_eq (context : ConversationContextMeta) (statement : ContextQueryStmt) :
    executeSpillContext context statement = some (spillContext context statement) := by
  have htracks : SpillScan.Tracks (context.messages.foldl
      (SpillScan.visitMessage context (tabFilterOf context statement.tab)) {}) := by
    rw [SpillScan.foldl_visitMessage]
    exact .nil fun k ↦ Std.ExtTreeMap.getElem?_empty
  obtain ⟨table, hscan⟩ := @SpillScan.Tracks.foldlM_visitAtom context
    (tabFilterOf context statement.tab) (lowerText statement.query) _ htracks context.atoms.zipIdx
  refine (congrArg (· >>= _) hscan).trans (congrArg some ?_)
  rw [SpillScan.foldl_visitMessage, foldl_spillRender]
  change SpillScan.result context statement (tabFilterOf context statement.tab) _
    (rankedAtoms context (tabFilterOf context statement.tab) (lowerText statement.query))
    (spillRender _ (budgeted _ _
      (rankedAtoms context (tabFilterOf context statement.tab) (lowerText statement.query)))) = _
  rw [spillContext]
  cases budgeted statement.receipts statement.tokenBudget
    (rankedAtoms context (tabFilterOf context statement.tab) (lowerText statement.query))
  rfl

/-- The costs of the candidates before and after sorting. -/
theorem sum_rankedAtoms (context : ConversationContextMeta) (tabFilter lowerQuery : Bytes)
    (receipts : Bool) :
    ((rankedAtoms context tabFilter lowerQuery).map (RankedAtom.cost receipts)).sum =
      ((activeCandidates context tabFilter lowerQuery).map (RankedAtom.cost receipts)).sum :=
  ((List.perm_insertionSort _ _).map _).sum_nat

/-- A difference that is only taken when it is positive. -/
theorem sub_if_gt (a b : Nat) : (if a > b then a - b else 0) = a - b := by
  split
  · rfl
  · omega

/-- `executeExplainContext` returns the plan of the context: its running sum never falls below zero. -/
theorem executeExplainContext_eq (context : ConversationContextMeta) (statement : ContextQueryStmt) :
    executeExplainContext context statement = some (explainContext context statement) := by
  have htracks : PlanScan.Tracks statement.receipts (context.messages.foldl
      (PlanScan.visitMessage context (tabFilterOf context statement.tab)) {}) [] := by
    rw [PlanScan.foldl_visitMessage]
    exact ⟨rfl, .nil fun k ↦ Std.ExtTreeMap.getElem?_empty, rfl⟩
  obtain ⟨table, hscan⟩ := @PlanScan.Tracks.foldlM_visitAtom context
    (tabFilterOf context statement.tab) (lowerText statement.query) statement.receipts _ _ htracks
    context.atoms.zipIdx
  refine (congrArg (· >>= _) hscan).trans (congrArg some ?_)
  rw [PlanScan.foldl_visitMessage]
  dsimp only [PlanScan.after]
  rw [insertionSort_plan, foldl_planRender]
  change PlanScan.result context statement (tabFilterOf context statement.tab)
    { scannedMessages := 0 + (matchingMessages context (tabFilterOf context statement.tab)).length
      scannedAtoms := 0 + (matchingAtoms context (tabFilterOf context statement.tab)).length
      prunedTabMessages := 0 + (context.messages.length -
        (matchingMessages context (tabFilterOf context statement.tab)).length)
      prunedTabAtoms := 0 + (context.atoms.zipIdx.length -
        (matchingAtoms context (tabFilterOf context statement.tab)).length)
      prunedInvalidatedAtoms := 0 + (matchingAtoms context (tabFilterOf context statement.tab)).countP
        fun entry ↦ entry.1.status != lit "active"
      allActiveTokenCost := ((activeCandidates context (tabFilterOf context statement.tab)
        (lowerText statement.query)).map (RankedAtom.cost statement.receipts)).sum
      accessLabels := visibleLabels context (tabFilterOf context statement.tab)
      mentionedEntities := visibleEntities context (tabFilterOf context statement.tab)
      active := _
      activeByDiversityKey := _ }
    ((rankedAtoms context (tabFilterOf context statement.tab) (lowerText statement.query)).map
      (RankedAtom.plan statement.receipts))
    (planRender (budgeted statement.receipts statement.tokenBudget
      (rankedAtoms context (tabFilterOf context statement.tab) (lowerText statement.query)))) = _
  -- The ranking only reorders the active candidates, so their costs have the same sum.
  rw [← sum_rankedAtoms]
  simp only [PlanScan.result, explainContext, sub_if_gt, Nat.zero_add, List.length_map,
    List.length_zipIdx, ← List.map_take, List.map_map]
  cases budgeted statement.receipts statement.tokenBudget
    (rankedAtoms context (tabFilterOf context statement.tab) (lowerText statement.query))
  rfl

/-- The value of a field in the rows of a result. -/
def fieldValue (field : String) : List Tuple → Option Value
  | [] => none
  | row :: rows =>
    if row.head? = some (.text (lit field)) then row[1]? else fieldValue field rows

/-- Explain and spill, run with the same parameters on a context, agree on the numbers of candidates,
rendered atoms and redacted atoms and on the cost; the full cost of a plan is the sum of the costs of all
candidates and at least the cost of those rendered. -/
theorem explain_agrees_with_spill (context : ConversationContextMeta) (statement : ContextQueryStmt) :
    ∃ (plan view : NativeQueryResult) (candidates : List RankedAtom) (rendered cost redacted : Nat),
      executeExplainContext context statement = some plan ∧
      executeSpillContext context statement = some view ∧
      candidates =
        rankedAtoms context (tabFilterOf context statement.tab) (lowerText statement.query) ∧
      fieldValue "rank_candidates" plan.rows = some (.text (ofNat candidates.length)) ∧
      fieldValue "active_atoms" view.rows = some (.text (ofNat candidates.length)) ∧
      fieldValue "rendered_if_spilled" plan.rows = some (.text (ofNat rendered)) ∧
      fieldValue "rendered_atoms" view.rows = some (.text (ofNat rendered)) ∧
      fieldValue "estimated_token_cost" plan.rows = some (.text (ofNat cost)) ∧
      fieldValue "token_cost" view.rows = some (.text (ofNat cost)) ∧
      fieldValue "redacted_atoms" plan.rows = some (.text (ofNat redacted)) ∧
      fieldValue "redacted_atoms" view.rows = some (.text (ofNat redacted)) ∧
      fieldValue "estimated_full_token_cost" plan.rows = some (.text (ofNat
        (candidates.map fun ranked ↦
          estimateContextTokens (renderContextAtom ranked.atom statement.receipts)).sum)) ∧
      cost ≤ (candidates.map fun ranked ↦
        estimateContextTokens (renderContextAtom ranked.atom statement.receipts)).sum := by
  have hcost := budgeted_cost_le statement.receipts statement.tokenBudget
    (rankedAtoms context (tabFilterOf context statement.tab) (lowerText statement.query))
  have hplan := executeExplainContext_eq context statement
  have hview := executeSpillContext_eq context statement
  rw [explainContext] at hplan
  rw [spillContext] at hview
  rcases hbudget : budgeted statement.receipts statement.tokenBudget
    (rankedAtoms context (tabFilterOf context statement.tab) (lowerText statement.query)) with
    ⟨rendered, cost⟩
  rw [hbudget] at hcost hplan hview
  refine ⟨_, _, _, rendered.length, cost,
    rendered.countP fun atom ↦ shouldRedact atom.accessLabels, hplan, hview, rfl,
    rfl, rfl, rfl, ?_, rfl, rfl, rfl, rfl, rfl, hcost⟩
  exact congrArg (fun count ↦ some (Value.text (ofNat count)))
    (List.length_map (fun atom ↦ renderContextAtom atom statement.receipts))

end SkibidiQL
