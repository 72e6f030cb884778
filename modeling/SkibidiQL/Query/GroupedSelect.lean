import SkibidiQL.Query.StreamingAgreement

/-!
# Grouped statements with and without a further clause

Which of its two branches `executeSelect` takes on a grouped statement hangs on clauses that do not ask for
other rows: an ORDER BY, a LIMIT that is large enough, a HAVING that always holds. The result stays the
same multiset of rows exactly when the columns are aligned.
-/

namespace SkibidiQL

variable {catalog : Catalog} {statement : SelectStmt} {projections : List StreamProjection}
  {rows : List EvalRow} {names : List Bytes} {output : List OutputRow}
  {groups : List (Tuple × List EvalRow)}

/-! ### The branch over stored rows -/

/-- The condition, if there is one, holds on these rows. -/
def HoldsOn (condition : Option Expr) (rows : List EvalRow) : Prop :=
  ∀ expression ∈ condition, ∀ value, evalGrouped expression rows = .ok value → value.asBoolean

/-- A condition that holds on the rows is passed. -/
theorem eq_true_of_passesHaving {condition : Option Expr} (h : HoldsOn condition rows) {included : Bool}
    (hincluded : passesHaving condition rows = .ok included) : included = true := by
  rcases condition with _ | condition
  · exact (Except.ok.inj hincluded).symm
  · obtain ⟨value, hvalue, hbool⟩ := Except.bind_eq_ok.1 hincluded
    rw [← Except.ok.inj hbool]
    exact h condition rfl value hvalue

/-- Where it does a group gives its row. -/
theorem materializedRow_eq_some (hhaving : HoldsOn statement.having rows) {result : Option OutputRow}
    (h : materializedRow statement names rows = .ok result) :
    ∃ row, result = some row ∧ projectGrouped statement rows = .ok row.values := by
  rw [materializedRow, Except.bind_eq_ok] at h
  obtain ⟨included, hincluded, h⟩ := h
  obtain rfl := eq_true_of_passesHaving hhaving hincluded
  rw [if_pos rfl] at h
  obtain ⟨values, hvalues, h⟩ := Except.bind_eq_ok.1 h
  obtain ⟨orderKeys, -, h⟩ := Except.bind_eq_ok.1 h
  exact ⟨_, (Except.ok.inj h).symm, hvalues⟩

/-- When HAVING excludes no group, the branch computes the stored rows. -/
theorem storedRows_of_materialized {order : GroupOrder} (hgroups : groupRows statement.groupBy rows = .ok groups)
    (hhaving : ∀ group ∈ groups, HoldsOn statement.having group.2)
    (h : materialized order statement names rows = .ok output) :
    storedRows order statement rows = .ok (output.map (·.values)) := by
  rw [materialized, hgroups, Except.ok_bind, Except.bind_eq_ok] at h
  obtain ⟨results, hresults, h⟩ := h
  obtain rfl := Except.ok.inj h
  rw [storedRows, hgroups, Except.ok_bind, List.mapM_eq_ok_iff]
  rw [List.mapM_eq_ok_iff] at hresults
  have hentries : ∀ group ∈ order.entries groups, HoldsOn statement.having group.2 :=
    fun group hgroup ↦ hhaving group (order.mem_entries.1 hgroup)
  clear hgroups h hhaving
  generalize order.entries groups = entries at hentries hresults ⊢
  induction hresults with
  | nil => exact .nil
  | cons hresult _ ih =>
    obtain ⟨hholds, hrest⟩ := List.forall_mem_cons.1 hentries
    obtain ⟨row, rfl, hvalues⟩ := materializedRow_eq_some hholds hresult
    exact .cons hvalues (ih hrest)

/-! ### The clauses behind the grouping -/

/-- Ordering keeps the rows. -/
theorem orderRows_perm (statement : SelectStmt) (output : List OutputRow) :
    (orderRows statement output).Perm output := by
  rw [orderRows]
  split
  · exact .refl _
  · exact List.mergeSort_perm _ _

/-- The number of rows that a LIMIT admits is at least this. -/
def LimitAtLeast (limit : Option Expr) (count : ℕ) : Prop :=
  limit.isSome → count ≤ rowCount limit

/-- Without DISTINCT and OFFSET, and with room for all rows, only their order changes. -/
theorem finishRows_perm (hdistinct : statement.distinct = false) (hoffset : statement.offset = none)
    (hlimit : LimitAtLeast statement.limit output.length) :
    (finishRows statement output).Perm (output.map (·.values)) := by
  rw [finishRows, hdistinct]
  refine List.Perm.map _ ?_
  have hperm := orderRows_perm statement output
  have hzero : rowCount none = 0 := rfl
  show (limitRows statement (orderRows statement output)).Perm output
  rw [limitRows, hoffset, hzero, List.drop_zero]
  split
  · rename_i hsome
    refine (List.Perm.of_eq (List.take_of_length_le ?_)).trans hperm
    rw [hperm.length_eq]
    exact hlimit hsome
  · exact hperm

/-! ### The pipeline -/

/-- No column of a streamed statement asks for a whole row. -/
theorem wholeRowCall_eq_none (h : streamProjections statement = some projections) :
    wholeRowCall statement.columns = none := by
  have hplan := forall₂_of_streamProjections h
  generalize statement.columns = columns at hplan
  clear h
  induction hplan with
  | nil => rfl
  | @cons column projection columns projections hcolumn _ ih =>
    rcases streamProjection_eq_some hcolumn with
      ⟨name, args, alias', argument, rfl, hsimple, -, -⟩ | ⟨hfunction, -, -⟩
    · rw [wholeRowCall, if_neg]
      · exact ih
      · rcases simpleAggregateName_cases hsimple with rfl | rfl | rfl | rfl | rfl | rfl | rfl <;> decide
    · rw [wholeRowCall]
      · exact ih
      · exact hfunction

/-- The names of the output columns of rows that are all kept. -/
def rowNames (catalog : Catalog) (statement : SelectStmt) (rows : List EvalRow) : List Bytes :=
  outputNames catalog statement (rows.head?.map fun row ↦ row.columns.getD [])

/-- A grouped statement without a call over whole rows is its groups. -/
theorem selectRows_grouped (order : GroupOrder) (hwhole : wholeRowCall statement.columns = none)
    (hgrouped : statement.grouped) :
    selectRows order catalog statement rows =
      groupedOutput order statement (rowNames catalog statement rows) rows >>= fun output ↦
        pure { columns := rowNames catalog statement rows, rows := finishRows statement output } := by
  simp only [selectRows, hwhole, bestRows, hgrouped, if_true, Except.pure_eq_ok, Except.ok_bind,
    Option.isSome_none]
  rfl

/-- The streaming lambda runs on statements without the clauses that order or restrict the result. -/
theorem clauses_of_streamProjections (h : streamProjections statement = some projections) :
    statement.having = none ∧ statement.distinct = false ∧ statement.orderBy = [] ∧
      statement.limit = none ∧ statement.offset = none := by
  rw [streamProjections] at h
  split at h
  · cases h
  · rename_i hclauses
    simpa [and_assoc] using hclauses

/-- A grouped statement that streams is streamed. -/
theorem groupedOutput_streamed (order : GroupOrder) (hplan : streamProjections statement = some projections) :
    groupedOutput order statement names rows =
      streamed order statement.groupBy projections rows >>= fun output ↦
        pure (output.map fun values ↦ { values }) := by
  rw [groupedOutput, hplan]

/-- A grouped statement that streams is its streamed groups. -/
theorem selectRows_streamed (order : GroupOrder) (hplan : streamProjections statement = some projections)
    (hgrouped : statement.grouped) :
    selectRows order catalog statement rows =
      streamed order statement.groupBy projections rows >>= fun output ↦
        pure { columns := rowNames catalog statement rows, rows := output } := by
  obtain ⟨-, hdistinct, horder, hlimit, hoffset⟩ := clauses_of_streamProjections hplan
  have hfinish (output : List OutputRow) : finishRows statement output = output.map (·.values) := by
    rw [finishRows, hdistinct, orderRows, horder, limitRows, hlimit, hoffset]
    rfl
  rw [selectRows_grouped order (wholeRowCall_eq_none hplan) hgrouped, groupedOutput_streamed order hplan]
  rcases streamed order statement.groupBy projections rows with e | output
  · rfl
  · show Except.ok _ = Except.ok _
    have hvalues : (output.map fun values ↦ ({ values } : OutputRow)).map (·.values) = output := by
      rw [List.map_map]
      exact List.map_id output
    rw [hfinish, hvalues]

/-- The statement with these clauses besides. -/
def SelectStmt.withClauses (statement : SelectStmt) (having : Option Expr) (orderBy : List OrderItem)
    (limit : Option Expr) : SelectStmt :=
  { statement with having, orderBy, limit }

/-- Further clauses leave a grouped statement grouped. -/
theorem grouped_withClauses {having : Option Expr} {orderBy : List OrderItem} {limit : Option Expr}
    (hhaving : statement.having = none) (hgrouped : statement.grouped) :
    (statement.withClauses having orderBy limit).grouped := by
  rw [SelectStmt.grouped, selectHasAggregate, hhaving] at hgrouped
  rw [SelectStmt.grouped, selectHasAggregate]
  simp only [Option.any_none, Bool.or_false, Bool.or_eq_true] at hgrouped
  simp only [SelectStmt.withClauses, Bool.or_eq_true]
  tauto

/-- With `HAVING`, `ORDER BY` or `LIMIT` a statement does not stream. -/
theorem streamProjections_withClauses {having : Option Expr} {orderBy : List OrderItem}
    {limit : Option Expr} (h : having.isSome ∨ orderBy ≠ [] ∨ limit.isSome) :
    streamProjections (statement.withClauses having orderBy limit) = none := by
  rw [streamProjections, if_pos]
  simp only [SelectStmt.withClauses, Bool.or_eq_true]
  rcases h with h | h | h
  · simp [h]
  · simp [h]
  · simp [h]

/-- Streaming and stored grouping agree exactly when the columns are aligned, and then only does the
statement keep its rows under an ORDER BY, a LIMIT for all rows or a HAVING that holds on all groups. -/
theorem groupings_agree_iff (order : GroupOrder) (catalog : Catalog) (statement : SelectStmt) (rows : List EvalRow)
    {projections : List StreamProjection} {groups : List (Tuple × List EvalRow)}
    (hplan : streamProjections statement = some projections) (hgrouped : statement.grouped)
    (hgroups : groupRows statement.groupBy rows = .ok groups) :
    (∀ names output, materialized order statement names rows = .ok output →
      ((∃ streamedRows, streamed order statement.groupBy projections rows = .ok streamedRows ∧
          streamedRows.Perm (output.map (·.values))) ↔
        Aligned statement rows)) ∧
    ∀ having orderBy limit, having.isSome ∨ orderBy ≠ [] ∨ limit.isSome →
      (∀ group ∈ groups, HoldsOn having group.2) → LimitAtLeast limit groups.length →
      ∀ result', selectRows order catalog (statement.withClauses having orderBy limit) rows = .ok result' →
        ((∃ result, selectRows order catalog statement rows = .ok result ∧ result.rows.Perm result'.rows) ↔
          Aligned statement rows) := by
  have hstreamed (stored : List Tuple) (hstored : storedRows order statement rows = .ok stored) :
      (∃ output, streamed order statement.groupBy projections rows = .ok output ∧ output.Perm stored) ↔
        Aligned statement rows := by
    rw [← streamedRows_perm_iff hplan hstored]
    simp only [← Except.toOption_eq_some, streamed_toOption]
  obtain ⟨hhaving, hdistinct, -, -, hoffset⟩ := clauses_of_streamProjections hplan
  constructor
  · intro names output houtput
    have hholds : ∀ group ∈ groups, HoldsOn statement.having group.2 := by
      rw [hhaving]
      exact fun _ _ ↦ nofun
    exact hstreamed _ (storedRows_of_materialized hgroups hholds houtput)
  · intro having orderBy limit hclause hholds hlimit result' hresult'
    have hwhole : wholeRowCall (statement.withClauses having orderBy limit).columns = none :=
      show wholeRowCall statement.columns = none from wholeRowCall_eq_none hplan
    have hgrouped' : (statement.withClauses having orderBy limit).grouped :=
      grouped_withClauses hhaving hgrouped
    have hdecline : streamProjections (statement.withClauses having orderBy limit) = none :=
      streamProjections_withClauses hclause
    rw [selectRows_grouped order hwhole hgrouped', groupedOutput, hdecline] at hresult'
    obtain ⟨output, houtput, hresult'⟩ := Except.bind_eq_ok.1 hresult'
    obtain rfl := Except.ok.inj hresult'
    have hstored : storedRows order (statement.withClauses having orderBy limit) rows =
        .ok (output.map (·.values)) :=
      storedRows_of_materialized hgroups hholds houtput
    have hlength : output.length = groups.length := by
      obtain ⟨groups', hgroups', hmap⟩ := Except.bind_eq_ok.1 hstored
      obtain rfl := Except.ok.inj (hgroups.symm.trans hgroups')
      have hlengths := (List.mapM_eq_ok_iff.1 hmap).length_eq
      rw [(order.entries_perm groups).length_eq, List.length_map] at hlengths
      exact hlengths.symm
    -- The further clauses drop no group and no row of the output, so they only reorder it.
    have hfinish : (finishRows (statement.withClauses having orderBy limit) output).Perm
        (output.map (·.values)) := by
      refine finishRows_perm hdistinct hoffset ?_
      rw [hlength]
      exact hlimit
    rw [← hstreamed _ hstored, selectRows_streamed order hplan hgrouped]
    constructor
    · rintro ⟨result, hresult, hperm⟩
      obtain ⟨streamedRows, hrows, hresult⟩ := Except.bind_eq_ok.1 hresult
      obtain rfl := Except.ok.inj hresult
      exact ⟨streamedRows, hrows, hperm.trans hfinish⟩
    · rintro ⟨streamedRows, hrows, hperm⟩
      rw [hrows]
      exact ⟨_, rfl, hperm.trans hfinish.symm⟩

/-! ### A name that is missing first -/

/-- `slay name, headcount(*) no-cap players vibe-check team`. -/
def nameOfTeam : SelectStmt where
  columns := [.column { column := lit "name" },
    .function (lit "headcount") [.wildcard {}] false []]
  fromTable := lit "players"
  groupBy := [.column { column := lit "team" }]

/-- A player of `players` with the columns `team` and `name`. -/
def player (team : Int64) (name : Value) : EvalRow where
  columns := some [⟨lit "players", [], lit "team"⟩, ⟨lit "players", [], lit "name"⟩]
  values := [.integer team, name]

/-- Two players of one team, the first without a name. -/
def unnamedFirst : List EvalRow :=
  [player 1 .null, player 1 (.text (lit "ada"))]

/-- The lambda answers the name of the second player, the other branch the missing name of the first. -/
theorem nameOfTeam_differs : ∃ projections, streamProjections nameOfTeam = some projections ∧
    streamed KeyedGroups.newestFirst nameOfTeam.groupBy projections unnamedFirst = .ok [[.text (lit "ada"), countValue 2]] ∧
    (∃ output, materialized KeyedGroups.newestFirst nameOfTeam [] unnamedFirst = .ok output ∧
      output.map (·.values) = [[.null, countValue 2]]) ∧
    ¬[[Value.text (lit "ada"), countValue 2]].Perm [[.null, countValue 2]] :=
  ⟨_, rfl, rfl, ⟨_, rfl, rfl⟩, by decide⟩

/-- With the named player first the two branches agree. -/
theorem nameOfTeam_agrees : ∃ streamedRows,
    streamed KeyedGroups.newestFirst nameOfTeam.groupBy
      [.representative (.column { column := lit "name" }), .aggregate .count none]
      unnamedFirst.reverse = .ok streamedRows ∧
    streamedRows.Perm [[.text (lit "ada"), countValue 2]] := by
  have hagree := (groupings_agree_iff KeyedGroups.newestFirst {} nameOfTeam unnamedFirst.reverse rfl rfl rfl).1 []
    [⟨[.text (lit "ada"), countValue 2], []⟩] rfl
  refine hagree.2 fun groups hgroups ↦ ?_
  obtain rfl := Except.ok.inj hgroups
  refine List.forall_mem_singleton.2 (List.forall_mem_cons.2 ⟨nofun, List.forall_mem_singleton.2 ?_⟩)
  exact fun hwolves ↦ absurd hwolves.1 (by decide)

end SkibidiQL
