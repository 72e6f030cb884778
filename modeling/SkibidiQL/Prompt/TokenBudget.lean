import SkibidiQL.Base.GreedyBudget
import SkibidiQL.Prompt.Consistency
import SkibidiQL.Prompt.PlanAgreement

/-!
# The token budget

The last loops of `executeSpillContext` and `executeExplainContext` select candidates greedily
(`budgeted_eq_accept`), so the costs of what is rendered keep within the budget. The text that is assembled
from them need not: the separators are paid for only by what the estimates were rounded up by. The estimate
of the text exceeds the costs by a quarter of the overhangs (`estimate_joined`).
-/

namespace SkibidiQL

open Bytes GreedyBudget

/-- The candidates of a query in rank order. -/
def candidates (context : ConversationContextMeta) (statement : ContextQueryStmt) : List RankedAtom :=
  rankedAtoms context (tabFilterOf context statement.tab) (lowerText statement.query)

/-- The candidates that the token budget admits. -/
def renderedCandidates (context : ConversationContextMeta) (statement : ContextQueryStmt) :
    List RankedAtom :=
  accept (RankedAtom.cost statement.receipts) statement.tokenBudget (candidates context statement)

/-- The candidates that it does not accept. -/
def leftOutCandidates (context : ConversationContextMeta) (statement : ContextQueryStmt) :
    List RankedAtom :=
  passOver (RankedAtom.cost statement.receipts) statement.tokenBudget (candidates context statement)

/-- The token cost of what a query renders. -/
def renderedCost (context : ConversationContextMeta) (statement : ContextQueryStmt) : Nat :=
  total (RankedAtom.cost statement.receipts) (renderedCandidates context statement)

/-! ### The loops -/

section Loop

variable {receipts : Bool} {tokenBudget : Nat}

/-- One candidate: the two tests of the source are one, as nothing has been spent when nothing is
rendered. -/
theorem admitAtom_eq {state : List ContextAtomMeta × Nat} (hempty : state.1 = [] → state.2 = 0)
    (ranked : RankedAtom) :
    admitAtom receipts tokenBudget state ranked =
      if state.2 + ranked.cost receipts ≤ tokenBudget then
        (state.1 ++ [ranked.atom], state.2 + ranked.cost receipts)
      else state := by
  have htest : ((!state.1.isEmpty && decide (state.2 + ranked.cost receipts > tokenBudget)) ||
      (state.1.isEmpty && decide (ranked.cost receipts > tokenBudget))) = true ↔
        ¬state.2 + ranked.cost receipts ≤ tokenBudget := by
    rcases hstate : state.1.isEmpty with - | -
    · simp
    · simp [hempty (List.isEmpty_iff.1 hstate)]
  rw [admitAtom, if_congr htest rfl rfl, ite_not]

/-- The loop accepts what the budget accepts. -/
theorem foldl_admitAtom {state : List ContextAtomMeta × Nat} (hempty : state.1 = [] → state.2 = 0)
    (hspent : state.2 ≤ tokenBudget) (active : List RankedAtom) :
    active.foldl (admitAtom receipts tokenBudget) state =
      (state.1 ++ (accept (RankedAtom.cost receipts) (tokenBudget - state.2) active).map (·.atom),
        state.2 + total (RankedAtom.cost receipts)
          (accept (RankedAtom.cost receipts) (tokenBudget - state.2) active)) := by
  induction active generalizing state with
  | nil => simp [accept]
  | cons ranked active ih =>
    rw [List.foldl_cons, admitAtom_eq hempty]
    split
    · rename_i hfits
      rw [ih (fun h ↦ absurd h (List.concat_ne_nil _ _)) hfits,
        accept_cons_of_le (by omega), Nat.sub_sub]
      simp [Nat.add_assoc]
    · rename_i hover
      rw [ih hempty hspent, accept_cons_of_lt (by omega)]

/-- The budget admits candidates greedily. -/
theorem budgeted_eq_accept (active : List RankedAtom) :
    budgeted receipts tokenBudget active =
      ((accept (RankedAtom.cost receipts) tokenBudget active).map (·.atom),
        total (RankedAtom.cost receipts) (accept (RankedAtom.cost receipts) tokenBudget active)) := by
  rw [budgeted_eq, foldl_admitAtom (fun _ ↦ rfl) (Nat.zero_le _)]
  simp

end Loop

/-! ### What the statements return -/

/-- The text of a candidate in a view. -/
def RankedAtom.text (receipts : Bool) (ranked : RankedAtom) : Bytes :=
  renderContextAtom ranked.atom receipts

/-- The rows of a result that give a field. -/
def fieldRows (field : String) (rows : List Tuple) : List Tuple :=
  rows.filter fun row ↦ row.head? = some (.text (lit field))

theorem fieldRows_append (field : String) (rows rows' : List Tuple) :
    fieldRows field (rows ++ rows') = fieldRows field rows ++ fieldRows field rows' :=
  List.filter_append rows rows'

/-- Rows of one field are all of that field. -/
theorem fieldRows_map_self {α : Type} (field : String) (items : List α) (value : α → Bytes) :
    fieldRows field (items.map fun item ↦ keyValue (lit field) (value item)) =
      items.map fun item ↦ keyValue (lit field) (value item) := by
  refine List.filter_eq_self.2 fun row hrow ↦ ?_
  obtain ⟨item, -, rfl⟩ := List.mem_map.1 hrow
  exact decide_eq_true rfl

/-- Rows of another field are none of it. -/
theorem fieldRows_map_other {α : Type} {field other : String} (h : lit other ≠ lit field) (items : List α)
    (value : α → Bytes) : fieldRows field (items.map fun item ↦ keyValue (lit other) (value item)) = [] := by
  refine List.filter_eq_nil_iff.2 fun row hrow ↦ ?_
  obtain ⟨item, -, rfl⟩ := List.mem_map.1 hrow
  simpa [keyValue] using h

/-- A spill lists the candidates that the budget admits, joins their texts, and reports their cost. -/
theorem executeSpillContext_rendered (context : ConversationContextMeta) (statement : ContextQueryStmt) :
    ∃ view, executeSpillContext context statement = some view ∧
      fieldRows "view_atom" view.rows = (renderedCandidates context statement).map
        (fun ranked ↦ keyValue (lit "view_atom") (ranked.text statement.receipts)) ∧
      fieldValue "current_context" view.rows = some (.text (joinStrings (lit " | ")
        ((renderedCandidates context statement).map (RankedAtom.text statement.receipts)))) ∧
      fieldValue "token_cost" view.rows = some (.text (ofNat (renderedCost context statement))) := by
  refine ⟨_, executeSpillContext_eq context statement, ?_⟩
  rw [spillContext]
  simp only [budgeted_eq_accept, List.map_map]
  refine ⟨?_, rfl, rfl⟩
  rw [fieldRows_append, fieldRows_append]
  have hatoms := fieldRows_map_self "view_atom" (renderedCandidates context statement)
    (RankedAtom.text statement.receipts)
  refine (congrArg₂ (· ++ ·) (congrArg₂ (· ++ ·) rfl hatoms) ?_).trans (List.append_nil _)
  -- The invalidated atoms are listed under a field of their own.
  split
  · exact fieldRows_map_other (by decide) _ _
  · rfl

/-- A plan counts the candidates that the budget admits, and estimates their cost. -/
theorem executeExplainContext_rendered (context : ConversationContextMeta) (statement : ContextQueryStmt) :
    ∃ plan, executeExplainContext context statement = some plan ∧
      fieldValue "rendered_if_spilled" plan.rows =
        some (.text (ofNat (renderedCandidates context statement).length)) ∧
      fieldValue "estimated_token_cost" plan.rows =
        some (.text (ofNat (renderedCost context statement))) := by
  refine ⟨_, executeExplainContext_eq context statement, ?_⟩
  rw [explainContext]
  simp only [budgeted_eq_accept, List.length_map]
  exact ⟨rfl, rfl⟩

/-- The greedy selection of both statements: it keeps within the budget, leaves out only candidates that do
not fit in what remains of it, and costs no less in total under a larger budget. -/
theorem budget_maximal_monotone (context : ConversationContextMeta) (statement : ContextQueryStmt) :
    (∃ view, executeSpillContext context statement = some view ∧
      fieldRows "view_atom" view.rows = (renderedCandidates context statement).map
        (fun ranked ↦ keyValue (lit "view_atom") (ranked.text statement.receipts)) ∧
      fieldValue "token_cost" view.rows = some (.text (ofNat (renderedCost context statement)))) ∧
    (∃ plan, executeExplainContext context statement = some plan ∧
      fieldValue "rendered_if_spilled" plan.rows =
        some (.text (ofNat (renderedCandidates context statement).length)) ∧
      fieldValue "estimated_token_cost" plan.rows =
        some (.text (ofNat (renderedCost context statement)))) ∧
    (renderedCandidates context statement ++ leftOutCandidates context statement).Perm
      (candidates context statement) ∧
    renderedCost context statement ≤ statement.tokenBudget ∧
    (∀ ranked ∈ leftOutCandidates context statement,
      statement.tokenBudget < renderedCost context statement + ranked.cost statement.receipts) ∧
    ∀ larger, statement.tokenBudget ≤ larger →
      renderedCost context statement ≤ renderedCost context { statement with tokenBudget := larger } := by
  obtain ⟨view, hview, hatoms, -, hcost⟩ := executeSpillContext_rendered context statement
  refine ⟨⟨view, hview, hatoms, hcost⟩, executeExplainContext_rendered context statement, ?_, ?_, ?_, ?_⟩
  · exact accept_append_passOver_perm _ _
  · exact total_accept_le _ _
  · exact fun ranked hranked ↦ lt_total_accept_add hranked
  · exact fun larger hlarger ↦ total_accept_mono hlarger _

/-! ### The assembled text -/

/-- What the estimate of a text leaves of the four bytes of its last token, counted with the three bytes of
a separator. -/
def RankedAtom.overhang (receipts : Bool) (ranked : RankedAtom) : Nat :=
  ((ranked.text receipts).length + 3) % 4

/-- No rendered atom is empty. -/
theorem RankedAtom.text_length_pos (receipts : Bool) (ranked : RankedAtom) :
    0 < (ranked.text receipts).length := by
  rw [RankedAtom.text, renderContextAtom]
  simp only [List.length_append]
  have hspace : (lit " ").length = 1 := rfl
  omega

/-- The length of an atom from its tokens. -/
theorem RankedAtom.length_add_three (receipts : Bool) (ranked : RankedAtom) :
    (ranked.text receipts).length + 3 = 4 * ranked.cost receipts + ranked.overhang receipts := by
  have hpos := ranked.text_length_pos receipts
  have hcost : ranked.cost receipts = ((ranked.text receipts).length + 3) / 4 :=
    Nat.max_eq_right (show 1 ≤ ((ranked.text receipts).length + 3) / 4 by omega)
  rw [hcost, RankedAtom.overhang]
  omega

/-- Joined texts, with a separator behind the last one. -/
theorem joined_length (receipts : Bool) (ranked : RankedAtom) (rest : List RankedAtom) :
    (joinStrings (lit " | ") ((ranked :: rest).map (RankedAtom.text receipts))).length + 3 =
      4 * total (RankedAtom.cost receipts) (ranked :: rest) +
        total (RankedAtom.overhang receipts) (ranked :: rest) := by
  have hone := ranked.length_add_three receipts
  induction rest generalizing ranked with
  | nil =>
    show (ranked.text receipts).length + 3 = _
    rw [hone]
    rfl
  | cons next rest ih =>
    have hrest := ih next (next.length_add_three receipts)
    have hseparator : (lit " | ").length = 3 := rfl
    rw [total_cons ranked, total_cons ranked, List.map_cons, List.map_cons, joinStrings,
      ← List.map_cons, List.length_append, List.length_append, hseparator]
    · omega
    · exact fun h ↦ List.cons_ne_nil _ _ h

/-- The estimate of the joined texts exceeds the costs by a quarter of the overhangs. -/
theorem estimate_joined (receipts : Bool) {ranked : List RankedAtom} (h : ranked ≠ []) :
    estimateContextTokens (joinStrings (lit " | ") (ranked.map (RankedAtom.text receipts))) =
      total (RankedAtom.cost receipts) ranked + total (RankedAtom.overhang receipts) ranked / 4 := by
  obtain ⟨first, rest, rfl⟩ := List.exists_cons_of_ne_nil h
  have hlength := joined_length receipts first rest
  have hpos : 1 ≤ first.cost receipts := Nat.le_max_left _ _
  rw [estimateContextTokens, hlength]
  rw [total_cons] at *
  omega

/-- The text that a spill assembles is within the budget, by the estimate of the engine. -/
def TextWithinBudget (context : ConversationContextMeta) (statement : ContextQueryStmt) : Prop :=
  ∃ view text, executeSpillContext context statement = some view ∧
    fieldValue "current_context" view.rows = some (.text text) ∧
    estimateContextTokens text ≤ statement.tokenBudget

/-- The whole text is within the budget when the tokens and what hangs over are. -/
theorem textWithinBudget_iff (context : ConversationContextMeta) {statement : ContextQueryStmt}
    (h : 1 ≤ statement.tokenBudget) :
    TextWithinBudget context statement ↔
      renderedCost context statement +
        total (RankedAtom.overhang statement.receipts) (renderedCandidates context statement) / 4 ≤
          statement.tokenBudget := by
  obtain ⟨view, hview, -, htext, -⟩ := executeSpillContext_rendered context statement
  have hestimate : TextWithinBudget context statement ↔ estimateContextTokens
      (joinStrings (lit " | ") ((renderedCandidates context statement).map
        (RankedAtom.text statement.receipts))) ≤ statement.tokenBudget := by
    constructor
    · rintro ⟨view', text, hview', htext', hle⟩
      obtain rfl := Option.some.inj (hview.symm.trans hview')
      obtain rfl := Value.text.inj (Option.some.inj (htext.symm.trans htext'))
      exact hle
    · exact fun hle ↦ ⟨view, _, hview, htext, hle⟩
  rw [hestimate, renderedCost]
  rcases hrendered : renderedCandidates context statement with - | ⟨ranked, rest⟩
  · have hempty : estimateContextTokens (joinStrings (lit " | ") []) = 1 := rfl
    refine iff_of_true (hempty.symm ▸ h) ?_
    rw [total_nil, total_nil]
    exact Nat.zero_le _
  · rw [estimate_joined _ (List.cons_ne_nil _ _)]

/-- The assembled text is within every budget if and only if the overhangs of the candidates are less than
four together; under one budget, what the budget leaves must make up for the overhangs of what it admits. -/
theorem textWithinBudget_forall_iff (context : ConversationContextMeta) (statement : ContextQueryStmt) :
    ((∀ tokenBudget, 1 ≤ tokenBudget → TextWithinBudget context { statement with tokenBudget }) ↔
      total (RankedAtom.overhang statement.receipts) (candidates context statement) < 4) ∧
    (1 ≤ statement.tokenBudget → (TextWithinBudget context statement ↔
      total (RankedAtom.overhang statement.receipts) (renderedCandidates context statement) <
        4 * (statement.tokenBudget - renderedCost context statement + 1))) := by
  have hspent (statement : ContextQueryStmt) :
      renderedCost context statement ≤ statement.tokenBudget :=
    total_accept_le _ _
  refine ⟨⟨fun hall ↦ ?_, fun hless tokenBudget hpos ↦ ?_⟩, fun hpos ↦ ?_⟩
  · -- A budget that just covers all candidates admits them all.
    by_contra hmore
    have hsome : candidates context statement ≠ [] := by
      intro hnil
      rw [hnil, total_nil] at hmore
      omega
    obtain ⟨first, rest, hcons⟩ := List.exists_cons_of_ne_nil hsome
    have hcost : 1 ≤ first.cost statement.receipts := Nat.le_max_left _ _
    have hbudget : 1 ≤ total (RankedAtom.cost statement.receipts) (candidates context statement) := by
      rw [hcons, total_cons]
      omega
    have hwithin := (textWithinBudget_iff context hbudget).1 (hall _ hbudget)
    have hadmit : renderedCandidates context { statement with
        tokenBudget := total (RankedAtom.cost statement.receipts) (candidates context statement) } =
          candidates context statement :=
      accept_of_total_le (Nat.le_refl _)
    rw [renderedCost, hadmit] at hwithin
    dsimp only at hwithin
    omega
  · rw [textWithinBudget_iff context hpos]
    have hle : total (RankedAtom.overhang statement.receipts)
        (renderedCandidates context { statement with tokenBudget }) ≤
          total (RankedAtom.overhang statement.receipts) (candidates context statement) :=
      total_le_of_sublist (accept_sublist _ _)
    have hcost := hspent { statement with tokenBudget }
    dsimp only at *
    omega
  · rw [textWithinBudget_iff context hpos]
    have hcost := hspent statement
    omega

/-- Two memories, whose atoms have overhangs of three and one. -/
def parisAndRest : List ContextStatement :=
  [.append { context := lit "c", messageId := 1, speaker := lit "user"
             text := lit "i live in paris", tab := lit "home" },
    .append { context := lit "c", messageId := 2, speaker := lit "user"
              text := lit "todo: rest", tab := lit "home" }]

/-- A query with the budget that the two atoms use up. -/
def parisAndRestQuery : ContextQueryStmt where
  context := lit "c"
  query := lit "where"
  tokenBudget := 14
  receipts := false

/-- The assembled text of a context that two appends have built can exceed the budget. -/
theorem spillContext_exceeds_budget :
    ¬∀ (name : Bytes) (statements : List ContextStatement) (statement : ContextQueryStmt),
      1 ≤ statement.tokenBudget → TextWithinBudget (runContext { name } statements) statement := by
  intro h
  have hwithin := h (lit "c") parisAndRest parisAndRestQuery (by decide)
  rw [textWithinBudget_iff _ (by decide)] at hwithin
  exact absurd hwithin (by decide +kernel)

end SkibidiQL
