import SkibidiQL.Query.DirectPredicate
import SkibidiQL.Query.DirectScan

/-!
# Direct aggregation and the generic pipeline

The generic pipeline streams the rows on which WHERE holds. Direct aggregation answers what streaming the rows
accepted by its own test would answer, or, from the value counts, what the pipeline answers.
-/

namespace SkibidiQL

open Bytes

variable {order : GroupOrder} {db : Database} {statement : SelectStmt} {plan : DirectPlan} {limit : Nat}
  {statistics statistics' : Statistics} {projections : List StreamProjection} {columns : List BoundColumn}
  {rows : List StoredRow} {row : StoredRow} {route : DirectRoute}

namespace DirectPlan

/-- Whether WHERE holds on the row. -/
def satisfies (plan : DirectPlan) (row : StoredRow) : Bool :=
  plan.predicate.all fun predicate ↦ predicate.holds (row.field predicate.column)

end DirectPlan

/-! ### The generic pipeline -/

/-- The names of the output do not depend on the rows. -/
theorem rowNames_eq (h : Planned db statement plan projections) (catalog : Catalog) (rows : List EvalRow) :
    rowNames catalog statement rows = outputNames catalog statement none := by
  have hnames : ∀ sample, outputNames catalog statement sample =
      statement.columns.zipIdx.flatMap fun item ↦ [expressionAlias item.1 item.2] := by
    intro sample
    rw [outputNames]
    refine List.flatMap_congr fun item hitem ↦ ?_
    have hwildcard := h.wildcards item.1 (List.fst_mem_of_mem_zipIdx hitem)
    obtain ⟨expression, index⟩ := item
    cases expression with
    | wildcard wildcard => exact absurd hwildcard nofun
    | _ => rfl
  rw [rowNames, hnames, hnames]

namespace Planned

variable (h : Planned db statement plan projections)

include h

theorem grouped : statement.grouped := by
  have hshape := h.shape
  rw [directShape, Bool.and_eq_true] at hshape
  rw [SelectStmt.grouped, hshape.2, Bool.or_true]

/-- The filter of the pipeline. -/
theorem filterRows_eq :
    filterRows statement.where' ((db.stored statement.fromTable).map (bindRow (plan.bound statement))) =
      .ok (((db.stored statement.fromTable).filter plan.satisfies).map (bindRow (plan.bound statement))) := by
  rcases planPredicate_eq_some h.predicate_eq with
    ⟨hwhere, hnone⟩ | ⟨expression, predicate, hwhere, hsome, hop, -, heval⟩
  · rw [hwhere, filterRows, List.filter_eq_self.2]
    · rfl
    · intro row _
      rw [DirectPlan.satisfies, hnone]
      rfl
  · rw [hwhere, filterRows]
    refine (List.filterM_eq_ok (p := fun row ↦ predicate.holds (row.values.getD predicate.column .null))
      fun row hrow ↦ ?_).trans (congrArg Except.ok ?_)
    · obtain ⟨stored, -, rfl⟩ := List.mem_map.1 hrow
      obtain ⟨value, hvalue, hboolean⟩ := apply_eq_ok hop (stored.field predicate.column)
      rw [DirectPlan.bound, heval, hvalue, Except.ok_bind, hboolean]
      rfl
    · rw [List.filter_map]
      refine congrArg _ (List.filter_congr fun row _ ↦ ?_)
      rw [DirectPlan.satisfies, hsome]
      rfl

/-- The generic pipeline streams the rows on which WHERE holds. -/
theorem scanSelect_eq :
    scanSelect order db statement =
      plan.streamedFrom order statement projections ((db.stored statement.fromTable).filter plan.satisfies) >>=
        fun rows ↦ pure { columns := outputNames db.catalog statement none, rows } := by
  rw [scanSelect, scanTable_eq_ok h.table_eq, Except.ok_bind, genericSelect]
  show filterRows statement.where' ((db.stored statement.fromTable).map (bindRow (plan.bound statement))) >>= _ = _
  rw [h.filterRows_eq, Except.ok_bind, selectRows_streamed order h.stream_plan h.grouped, rowNames_eq h]
  rfl

/-- WHERE holds on a row. -/
theorem holdsOnRow_iff {condition : Expr} (hwhere : statement.where' = some condition) (row : StoredRow) :
    HoldsOnRow condition (bindRow (plan.bound statement) row) ↔ plan.satisfies row := by
  rcases planPredicate_eq_some h.predicate_eq with
    ⟨hnone, -⟩ | ⟨expression, predicate, hsome, hpredicate, hop, -, heval⟩
  · rw [hwhere] at hnone
    cases hnone
  · obtain rfl := Option.some.inj (hwhere.symm.trans hsome)
    obtain ⟨value, hvalue, hboolean⟩ := apply_eq_ok hop (row.field predicate.column)
    rw [HoldsOnRow, DirectPlan.bound, heval, hvalue, DirectPlan.satisfies, hpredicate, Option.all_some,
      ← hboolean]
    simp

end Planned

/-! ### One column over all rows -/

/-- The values of a column that are not NULL. -/
def columnValues (rows : List StoredRow) (column : Nat) : List Value :=
  (rows.map (·.field column)).filter fun value ↦ !value.isNull

/-- The values of a column are those that its aggregate is over. -/
theorem nonNullValues_eq {expression : Expr} {column : Nat} (h : Reads columns expression column)
    (rows : List StoredRow) :
    nonNullValues expression (rows.map (bindRow columns)) = .ok (columnValues rows column) := by
  have hvalues : rows.mapM (eval expression ∘ bindRow columns) = .ok (rows.map (·.field column)) :=
    List.mapM_eq_ok fun row _ ↦ h row
  rw [nonNullValues, List.mapM_map, hvalues]
  rfl

/-- The streamed column of an aggregate. -/
theorem streamColumn_eq (kind : AggregateKind) {expression : Expr} {column : Nat}
    (h : Reads columns expression column) (rows : List StoredRow) :
    (streamColumn (.aggregate kind (some expression)) (rows.map (bindRow columns))).toOption =
      (streamedResult kind (columnValues rows column)).toOption := by
  rw [streamColumn_aggregate, nonNullValues_eq h]
  rfl

/-- Without GROUP BY there is one output row. -/
theorem streamedFrom_scalar (h : Planned db statement plan projections) (hscalar : plan.groupColumns = [])
    (rows : List StoredRow) :
    (plan.streamedFrom order statement projections rows).toOption =
      (projections.mapM (streamColumn · (rows.map (bindRow (plan.bound statement))))).toOption.map fun tuple ↦
        [tuple] := by
  have hgroupBy : statement.groupBy = [] := by
    have hlength := h.groups.length_eq
    rw [hscalar] at hlength
    exact List.length_eq_zero_iff.1 hlength
  have hgroups (rows : List EvalRow) : groupRows [] rows = .ok [([], rows)] := rfl
  rw [DirectPlan.streamedFrom, streamed_toOption, streamedRows, hgroupBy, hgroups, Except.ok_bind,
    order.entries_singleton, List.mapM_cons]
  rcases projections.mapM (streamColumn · (rows.map (bindRow (plan.bound statement)))) with e | tuple <;> rfl

/-- A single count has no groups and one projection. -/
theorem singleCount_eq_some {argument : Option Nat} (h : plan.singleCount = some argument) :
    plan.groupColumns = [] ∧ plan.projections = [.aggregate .count argument] := by
  rw [DirectPlan.singleCount.eq_def] at h
  split at h
  · rename_i hcolumns hprojections
    rw [← Option.some.inj h]
    exact ⟨hcolumns, hprojections⟩
  · cases h

/-- The one count of a select list over these rows. -/
theorem streamedFrom_singleCount (h : Planned db statement plan projections) {argument : Option Nat}
    (hsingle : plan.singleCount = some argument) (rows : List StoredRow) :
    plan.streamedFrom order statement projections rows = .ok
      [[countValue (rows.filter fun row ↦ argument.all fun column ↦ !(row.field column).isNull).length]] := by
  obtain ⟨hscalar, hprojections⟩ := singleCount_eq_some hsingle
  have hstreams := h.streams
  rw [hprojections] at hstreams
  rw [← Except.toOption_eq_some, streamedFrom_scalar h hscalar]
  cases hstreams with
  | @cons _ stream _ _ hstream hrest =>
    cases hrest
    have hcount : (streamColumn stream (rows.map (bindRow (plan.bound statement)))).toOption = some (countValue
        (rows.filter fun row ↦ argument.all fun column ↦ !(row.field column).isNull).length) := by
      cases hstream with
      | countRows =>
        rw [streamColumn, foldColumn_countRows, List.length_map]
        simp [StreamProjection.result, AggregateState.result]
      | @aggregate _ column _ hreads =>
        have hne : ∀ value ∈ columnValues rows column, value.isNull = false := fun value hvalue ↦ by
          simpa using (List.mem_filter.1 hvalue).2
        rw [DirectPlan.bound, streamColumn_eq _ hreads, streamedResult, foldlM_add_count hne, columnValues,
          List.filter_map, List.length_map]
        simp [AggregateState.result]
        rfl
    obtain ⟨value, hvalue, hsome⟩ : ∃ value,
        streamColumn stream (rows.map (bindRow (plan.bound statement))) = .ok value ∧ value = countValue
          (rows.filter fun row ↦ argument.all fun column ↦ !(row.field column).isNull).length :=
      ⟨_, Except.toOption_eq_some.1 hcount, rfl⟩
    rw [List.mapM_cons, hvalue, hsome]
    rfl

/-! ### The rows of an answer -/

/-- The values of a column that are not NULL have one type. -/
theorem exists_type (htable : db.catalog.tables[statement.fromTable]? = some plan.table) {column : Nat}
    (hlt : column < plan.table.columns.length) :
    ∃ type, ∀ row ∈ db.stored statement.fromTable, (row.field column).isNull = false →
      (row.field column).type = type := by
  obtain ⟨c, hc⟩ : ∃ c, plan.table.columns[column]? = some c := ⟨_, List.getElem?_eq_getElem hlt⟩
  refine ⟨(declaredValueType c).toOption.getD .null, fun row hrow hnull ↦ ?_⟩
  have hadmits := db.admits_field htable hrow hc
  rw [ColumnMeta.Admits, hnull, if_neg Bool.false_ne_true] at hadmits
  rw [hadmits]
  rfl

/-- No value of the table is a NaN. -/
def NaNFree (db : Database) (name : Bytes) : Prop :=
  ∀ row ∈ db.stored name, ∀ value ∈ row.values, value.isNaN = false

/-- No field of a table without NaN is one. -/
theorem NaNFree.field {name : Bytes} (h : NaNFree db name) (hrow : row ∈ db.stored name) (column : Nat) :
    (row.field column).isNaN = false := by
  rw [StoredRow.field, List.getD_eq_getElem?_getD]
  cases hget : row.values[column]? with
  | none => rfl
  | some value => exact h row hrow value (List.mem_of_getElem? hget)

/-- The range of a column of the table. -/
def DirectPlan.range (limit : Nat) (rows : List StoredRow) (column : Nat) : ColumnRange :=
  ColumnRange.ofValues limit (rows.map (·.field column))

/-- The range of a column is one of its values. -/
theorem covers_column (limit : Nat) (htable : db.catalog.tables[statement.fromTable]? = some plan.table)
    (hnan : NaNFree db statement.fromTable) {column : Nat} (hlt : column < plan.table.columns.length) :
    (DirectPlan.range limit (db.stored statement.fromTable) column).Covers
      (columnValues (db.stored statement.fromTable) column) := by
  obtain ⟨type, htype⟩ := exists_type htable hlt
  refine ColumnRange.covers_ofValues limit type ?_ ?_
  · intro value hvalue hnull
    obtain ⟨row, hrow, rfl⟩ := List.mem_map.1 hvalue
    exact htype row hrow hnull
  · intro value hvalue
    obtain ⟨row, hrow, rfl⟩ := List.mem_map.1 hvalue
    exact hnan.field hrow column

/-! ### The way to an answer -/

/-- The value counts have the count that the statement asks for. -/
def DirectPlan.Counted (limit : Nat) (plan : DirectPlan) (rows : List StoredRow) : Prop :=
  ∃ predicate argument, plan.predicate = some predicate ∧ plan.singleCount = some argument ∧
    DirectPlan.asksValueCounts predicate argument ∧
    (DirectPlan.range limit rows predicate.column).valueCountsExact

/-- Any other aggregate is answered by hash, unless by the dense path. -/
theorem DirectPlan.groupRoute_cases (hroute : plan.groupRoute limit db statistics statement.fromTable =
    .ok (route, statistics')) : route = .hash ∨ ∃ column minimum maximum, route = .dense column minimum maximum := by
  obtain ⟨column, -, hroute⟩ := Except.bind_eq_ok.1 hroute
  cases column with
  | none =>
    cases hroute
    exact .inl rfl
  | some column =>
    obtain ⟨⟨range, statistics₁⟩, -, hroute⟩ := Except.bind_eq_ok.1 hroute
    obtain ⟨bounds, -, hroute⟩ := Except.bind_eq_ok.1 hroute
    cases bounds with
    | none =>
      cases hroute
      exact .inl rfl
    | some bounds =>
      cases hroute
      exact .inr ⟨column, _, _, rfl⟩

namespace Planned

variable (h : Planned db statement plan projections) (hcurrent : StatisticsCurrent limit db statistics)

include h hcurrent

/-- The range of a column is found or computed. -/
theorem ensureColumnRange_eq {column : Nat} (hlt : column < plan.table.columns.length) :
    ∃ statistics', ensureColumnRange limit db statistics statement.fromTable (plan.columnName column) =
        .ok (DirectPlan.range limit (db.stored statement.fromTable) column, statistics') ∧
      StatisticsCurrent limit db statistics' := by
  refine hcurrent.ensureColumnRange h.table_eq ?_
  rw [DirectPlan.columnName, List.getElem?_eq_getElem hlt, Option.map_some, Option.getD_some,
    List.findIdx?_eq_some_iff_getElem]
  refine ⟨hlt, beq_self_eq_true _, fun j hj heq ↦ ?_⟩
  have hnodup := db.columns_nodup _ _ h.table_eq
  have hcolumn : column < (plan.table.columns.map (·.name)).length := by rwa [List.length_map]
  have hj : j < (plan.table.columns.map (·.name)).length := Nat.lt_trans hj hcolumn
  have hname : (plan.table.columns.map (·.name))[j] = (plan.table.columns.map (·.name))[column] := by
    simpa using heq
  exact absurd (hnodup.getElem_inj_iff.1 hname) (by omega)

/-- A plan is proved empty by the range of its predicate's column. -/
theorem provesEmpty_eq : ∃ statistics', plan.provesEmpty limit db statistics statement.fromTable =
      .ok (plan.predicate.any fun predicate ↦ minMaxProvesEmpty predicate
        (DirectPlan.range limit (db.stored statement.fromTable) predicate.column), statistics') ∧
    StatisticsCurrent limit db statistics' := by
  rw [DirectPlan.provesEmpty]
  cases hpredicate : plan.predicate with
  | none => exact ⟨statistics, rfl, hcurrent⟩
  | some predicate =>
    obtain ⟨statistics', hensure, hcurrent'⟩ :=
      h.ensureColumnRange_eq hcurrent (h.predicate_lt hpredicate)
    refine ⟨statistics', ?_, hcurrent'⟩
    simp only [hensure, Except.ok_bind]
    rfl

/-- The way of a single count. -/
theorem countRoute_eq {argument : Option Nat} (hsingle : plan.singleCount = some argument)
    (hroute : plan.countRoute limit db statistics statement.fromTable argument = .ok (route, statistics')) :
    (∃ predicate, plan.predicate = some predicate ∧ DirectPlan.asksValueCounts predicate argument ∧
      (DirectPlan.range limit (db.stored statement.fromTable) predicate.column).valueCountsExact ∧
      route = .counted ((DirectPlan.range limit (db.stored statement.fromTable)
        predicate.column).countOf predicate.literal)) ∨
      ¬plan.Counted limit (db.stored statement.fromTable) ∧ route = .countScan argument := by
  rw [DirectPlan.countRoute.eq_def] at hroute
  cases hpredicate : plan.predicate with
  | none =>
    simp only [hpredicate] at hroute
    cases hroute
    refine .inr ⟨?_, rfl⟩
    rintro ⟨predicate, argument', hpredicate', -⟩
    rw [hpredicate] at hpredicate'
    cases hpredicate'
  | some predicate =>
    simp only [hpredicate] at hroute
    have hargument (argument' : Option Nat) (hsingle' : plan.singleCount = some argument') :
        argument = argument' := Option.some.inj (hsingle.symm.trans hsingle')
    -- The value counts answer only when the predicate asks for them and none was dropped.
    split at hroute
    · rename_i hasks
      obtain ⟨statistics₁, hensure, -⟩ := h.ensureColumnRange_eq hcurrent (h.predicate_lt hpredicate)
      simp only [hensure, Except.ok_bind] at hroute
      split at hroute
      · rename_i hexact
        cases hroute
        exact .inl ⟨predicate, rfl, hasks, hexact, rfl⟩
      · rename_i hexact
        cases hroute
        refine .inr ⟨?_, rfl⟩
        rintro ⟨predicate', argument', hpredicate', -, -, hexact'⟩
        obtain rfl := Option.some.inj (hpredicate.symm.trans hpredicate')
        exact hexact hexact'
    · rename_i hasks
      cases hroute
      refine .inr ⟨?_, rfl⟩
      rintro ⟨predicate', argument', hpredicate', hsingle', hasks', -⟩
      obtain rfl := Option.some.inj (hpredicate.symm.trans hpredicate')
      rw [hargument argument' hsingle'] at hasks
      exact hasks hasks'

/-- What is behind the choice of the way. -/
theorem route_cases (hroute : plan.route limit db statistics statement.fromTable = .ok (route, statistics')) :
    (∃ predicate, plan.predicate = some predicate ∧ route = .pruned ∧
      minMaxProvesEmpty predicate
        (DirectPlan.range limit (db.stored statement.fromTable) predicate.column)) ∨
    (∀ predicate ∈ plan.predicate, minMaxProvesEmpty predicate
        (DirectPlan.range limit (db.stored statement.fromTable) predicate.column) = false) ∧
      ((∃ predicate argument, plan.predicate = some predicate ∧ plan.singleCount = some argument ∧
          DirectPlan.asksValueCounts predicate argument ∧
          (DirectPlan.range limit (db.stored statement.fromTable) predicate.column).valueCountsExact ∧
          route = .counted ((DirectPlan.range limit (db.stored statement.fromTable)
            predicate.column).countOf predicate.literal)) ∨
        ¬plan.Counted limit (db.stored statement.fromTable) ∧
          ((∃ argument, plan.singleCount = some argument ∧ route = .countScan argument) ∨
            ∃ statistics₁, plan.groupRoute limit db statistics₁ statement.fromTable =
              .ok (route, statistics'))) := by
  obtain ⟨statistics₁, hempty, hcurrent₁⟩ := h.provesEmpty_eq hcurrent
  rw [DirectPlan.route, hempty, Except.ok_bind] at hroute
  dsimp only at hroute
  split at hroute
  · rename_i hany
    cases hroute
    cases hpredicate : plan.predicate with
    | none =>
      rw [hpredicate] at hany
      cases hany
    | some predicate =>
      rw [hpredicate] at hany
      exact .inl ⟨predicate, rfl, rfl, hany⟩
  · rename_i hany
    refine .inr ⟨fun predicate hpredicate ↦ ?_, ?_⟩
    · rw [Option.mem_def.1 hpredicate] at hany
      exact Bool.eq_false_iff.2 hany
    -- A single count has ways of its own, by value counts or by a scan; all else is grouped.
    · split at hroute
      · rename_i argument hsingle
        rcases h.countRoute_eq hcurrent₁ hsingle hroute with
          ⟨predicate, hpredicate, hasks, hexact, heq⟩ | ⟨hcounted, heq⟩
        · exact .inl ⟨predicate, argument, hpredicate, hsingle, hasks, hexact, heq⟩
        · exact .inr ⟨hcounted, .inl ⟨argument, hsingle, heq⟩⟩
      · rename_i hsingle
        refine .inr ⟨?_, .inr ⟨statistics₁, hroute⟩⟩
        rintro ⟨predicate, argument, -, hsingle', -⟩
        rw [hsingle] at hsingle'
        cases hsingle'

omit hcurrent in
/-- By its range no row satisfies the predicate, in the test by comparison. -/
theorem filter_selects_of_proved (hnan : NaNFree db statement.fromTable) {predicate : PredicatePlan}
    (hpredicate : plan.predicate = some predicate)
    (hproves : minMaxProvesEmpty predicate
      (DirectPlan.range limit (db.stored statement.fromTable) predicate.column)) :
    (db.stored statement.fromTable).filter plan.selects = [] := by
  have hlt := h.predicate_lt hpredicate
  have hop : comparisonOperator predicate.op := by
    rcases planPredicate_eq_some h.predicate_eq with ⟨-, hnone⟩ | ⟨_, predicate', -, hsome, hop, -, -⟩
    · rw [hpredicate] at hnone
      cases hnone
    · obtain rfl := Option.some.inj (hpredicate.symm.trans hsome)
      exact hop
  obtain ⟨type, htype⟩ := exists_type h.table_eq hlt
  rw [List.filter_eq_nil_iff]
  intro row hrow
  rw [DirectPlan.selects, hpredicate, Option.all_some, Bool.not_eq_true]
  by_cases hnull : (row.field predicate.column).isNull
  · rw [PredicatePlan.accepts, hnull]
    rfl
  · refine Covers.accepts_of_minMaxProvesEmpty type (covers_column limit h.table_eq hnan hlt) ?_ ?_ hop
      hproves _ ?_
    · intro v hv
      obtain ⟨hv, hnull⟩ := List.mem_filter.1 hv
      obtain ⟨row', hrow', rfl⟩ := List.mem_map.1 hv
      exact htype row' hrow' (by simpa using hnull)
    · intro v hv
      obtain ⟨row', hrow', rfl⟩ := List.mem_map.1 (List.mem_filter.1 hv).1
      exact hnan.field hrow' _
    · exact List.mem_filter.2 ⟨List.mem_map.2 ⟨row, hrow, rfl⟩, by simpa using hnull⟩

omit hcurrent in
/-- The scan of the single count. -/
theorem countScan_eq {argument : Option Nat} (hsingle : plan.singleCount = some argument) :
    plan.rows db statement.fromTable order (.countScan argument) =
      plan.streamedFrom order statement projections ((db.stored statement.fromTable).filter plan.selects) := by
  have hargument : ∀ column ∈ argument, column < plan.table.columns.length := by
    refine h.projections_lt (.aggregate .count argument) ?_
    rw [(singleCount_eq_some hsingle).2]
    exact List.mem_cons_self
  rw [DirectPlan.rows, List.filterM_eq_ok fun row hrow ↦ h.countsRow_eq hargument hrow,
    streamedFrom_singleCount h hsingle, List.filter_filter]
  simp only [Bool.and_comm]
  rfl

omit hcurrent in
/-- The value counts have the number of rows on which WHERE holds. -/
theorem countOf_eq (hnan : NaNFree db statement.fromTable) {predicate : PredicatePlan} {argument : Option Nat}
    (hpredicate : plan.predicate = some predicate) (hsingle : plan.singleCount = some argument)
    (hasks : DirectPlan.asksValueCounts predicate argument)
    (hexact : (DirectPlan.range limit (db.stored statement.fromTable) predicate.column).valueCountsExact) :
    (DirectPlan.range limit (db.stored statement.fromTable) predicate.column).countOf predicate.literal =
        ((db.stored statement.fromTable).filter plan.satisfies).length ∧
      plan.streamedFrom order statement projections ((db.stored statement.fromTable).filter plan.satisfies) =
        .ok [[countValue ((db.stored statement.fromTable).filter plan.satisfies).length]] := by
  simp only [DirectPlan.asksValueCounts, Bool.and_eq_true, beq_iff_eq, Bool.or_eq_true,
    Bool.not_eq_true'] at hasks
  obtain ⟨⟨hop, hargument⟩, hliteral⟩ := hasks
  have hop' : predicate.op = .eq := normalizeColumnPredicateOp_eq.1 hop
  -- the rows on which WHERE holds have a value in the column
  have hsatisfies (row : StoredRow) : plan.satisfies row = (!(row.field predicate.column).isNull &&
      (row.field predicate.column == predicate.literal)) := by
    rw [DirectPlan.satisfies, hpredicate, Option.all_some, PredicatePlan.holds, hliteral, Bool.or_false, hop']
    cases (row.field predicate.column).isNull <;> rfl
  constructor
  · rw [(covers_column limit h.table_eq hnan (h.predicate_lt hpredicate)).counts hexact, columnValues,
      List.countP_filter, List.countP_map, ← List.countP_eq_length_filter]
    refine List.countP_congr fun row _ ↦ ?_
    rw [hsatisfies, Bool.and_comm]
    rfl
  · rw [streamedFrom_singleCount h hsingle, List.filter_eq_self.2]
    intro row hrow
    rcases hargument with rfl | rfl
    · rfl
    · have hholds := (List.mem_filter.1 hrow).2
      rw [hsatisfies, Bool.and_eq_true] at hholds
      exact hholds.1

/-- The rows of an answer that is not dense. -/
theorem rows_cases (order : GroupOrder) (hnan : NaNFree db statement.fromTable)
    (hroute : plan.route limit db statistics statement.fromTable = .ok (route, statistics'))
    (hdense : ∀ column minimum maximum, route ≠ .dense column minimum maximum) :
    (plan.Counted limit (db.stored statement.fromTable) ∧
      route = .counted ((db.stored statement.fromTable).filter plan.satisfies).length ∧
      plan.rows db statement.fromTable order route =
        plan.streamedFrom order statement projections ((db.stored statement.fromTable).filter plan.satisfies)) ∨
    ((∀ count, route ≠ .counted count) ∧
      (route = .pruned ↔ ∃ predicate, plan.predicate = some predicate ∧ minMaxProvesEmpty predicate
        (DirectPlan.range limit (db.stored statement.fromTable) predicate.column)) ∧
      (route ≠ .pruned → ¬plan.Counted limit (db.stored statement.fromTable)) ∧
      (route = .pruned → (db.stored statement.fromTable).filter plan.selects = []) ∧
      plan.rows db statement.fromTable order route =
        plan.streamedFrom order statement projections ((db.stored statement.fromTable).filter plan.selects)) := by
  rcases h.route_cases hcurrent hroute with ⟨predicate, hpredicate, rfl, hproves⟩ |
      ⟨hproves, ⟨predicate, argument, hpredicate, hsingle, hasks, hexact, rfl⟩ | ⟨hcounted, hrest⟩⟩
  -- A range that proves the condition empty excludes every row.
  · have hselects := h.filter_selects_of_proved hnan hpredicate hproves
    refine .inr ⟨nofun, iff_of_true rfl ⟨predicate, hpredicate, hproves⟩, fun hne ↦ absurd rfl hne,
      fun _ ↦ hselects, ?_⟩
    rw [hselects, h.streamedFrom_nil]
    rfl
  · obtain ⟨hcount, hrows⟩ := h.countOf_eq hnan hpredicate hsingle hasks hexact
    refine .inl ⟨⟨predicate, argument, hpredicate, hsingle, hasks, hexact⟩, by rw [hcount], ?_⟩
    rw [hrows, hcount]
    rfl
  · have hpruned : ¬∃ predicate, plan.predicate = some predicate ∧ minMaxProvesEmpty predicate
        (DirectPlan.range limit (db.stored statement.fromTable) predicate.column) := by
      rintro ⟨predicate, hpredicate, hproved⟩
      rw [hproves predicate hpredicate] at hproved
      cases hproved
    right
    rcases hrest with ⟨argument, hsingle, rfl⟩ | ⟨statistics₁, hgroup⟩
    · refine ⟨nofun, iff_of_false nofun hpruned, fun _ ↦ hcounted, nofun, h.countScan_eq hsingle⟩
    · rcases DirectPlan.groupRoute_cases hgroup with rfl | ⟨column, minimum, maximum, rfl⟩
      · exact ⟨nofun, iff_of_false nofun hpruned, fun _ ↦ hcounted, nofun, h.hashRows_eq⟩
      · exact absurd rfl (hdense column minimum maximum)

end Planned

end SkibidiQL
