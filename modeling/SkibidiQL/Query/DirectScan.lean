import SkibidiQL.Query.DirectPlanning

/-!
# Direct scans

The hash-group scan and the scan of the single count compute what the streaming lambda computes from the rows
that the predicate of the plan accepts.
-/

namespace SkibidiQL

variable {order : GroupOrder} {db : Database} {statement : SelectStmt} {plan : DirectPlan}
  {projections : List StreamProjection} {columns : List BoundColumn} {row : StoredRow}

namespace DirectPlan

/-- Whether a scan takes the row. -/
def selects (plan : DirectPlan) (row : StoredRow) : Bool :=
  plan.predicate.all fun predicate ↦ predicate.accepts (row.field predicate.column)

/-- The columns of the table, bound as the pipeline binds them. -/
def bound (plan : DirectPlan) (statement : SelectStmt) : List BoundColumn :=
  boundColumns plan.table statement.fromTable statement.fromAlias

/-- What the streaming lambda computes from stored rows. -/
def streamedFrom (plan : DirectPlan) (order : GroupOrder) (statement : SelectStmt) (projections : List StreamProjection)
    (rows : List StoredRow) : Except Error (List Tuple) :=
  streamed order statement.groupBy projections (rows.map (bindRow (plan.bound statement)))

end DirectPlan

/-! ### One row -/

/-- The steps of both scans, from the same values. -/
theorem groupStep_eq {field : Nat → Except Error Value} {planned : List DirectProjection}
    (hstreams : List.Forall₂ (Streams columns) planned projections)
    (hfield : ∀ projection ∈ planned, ∀ column ∈ projection.column?, field column = .ok (row.field column))
    (states : List StreamColumnState) :
    DirectPlan.groupStep field planned states = streamStep projections states (bindRow columns row) := by
  induction hstreams generalizing states with
  | nil => cases states <;> rfl
  | @cons projection stream planned projections hstream _ ih =>
    obtain ⟨hhead, htail⟩ := List.forall_mem_cons.1 hfield
    cases states with
    | nil => rfl
    | cons state states =>
      have hstep : DirectPlan.columnStep field state projection =
          stream.step state (bindRow columns row) := by
        cases hstream with
        | representative h =>
          rw [DirectPlan.columnStep, StreamProjection.step, h row, hhead _ rfl]
        | countRows => rfl
        | aggregate kind h =>
          rw [DirectPlan.columnStep, StreamProjection.step, h row, hhead _ rfl]
      rw [DirectPlan.groupStep, streamStep, hstep]
      simp only [ih htail]

/-- The key of the group of a row. -/
theorem groupKey_eq {groupBy : List Expr} {groupColumns : List Nat}
    (h : List.Forall₂ (Reads columns) groupBy groupColumns) (row : StoredRow) :
    groupKey groupBy (bindRow columns row) = .ok (groupColumns.map row.field) := by
  rw [groupKey, List.mapM_eq_ok_iff, List.forall₂_map_right_iff]
  exact h.imp fun _ _ hreads ↦ hreads row

/-- The output of a plan from its states. -/
theorem makeOutput_eq {planned : List DirectProjection}
    (hstreams : List.Forall₂ (Streams columns) planned projections) (states : List StreamColumnState) :
    planned.zipWith (fun projection state ↦
      match projection with
      | .representative _ => state.representative
      | .aggregate kind _ => state.aggregate.result kind) states = streamResult projections states := by
  induction hstreams generalizing states with
  | nil => rfl
  | cons hstream _ ih =>
    cases states with
    | nil => rfl
    | cons state states =>
      rw [streamResult, List.zipWith_cons_cons, List.zipWith_cons_cons, ih, streamResult]
      cases hstream <;> rfl

/-- A column that is read is required. -/
theorem DirectPlan.mem_required {column : Nat} (hlt : column < plan.table.columns.length)
    (hread : column ∈ plan.predicate.map (·.column) ∨ column ∈ plan.groupColumns ∨
      ∃ projection ∈ plan.projections, column ∈ projection.column?) : column ∈ plan.required := by
  rw [DirectPlan.required, mem_requiredColumns]
  refine ⟨hlt, ?_⟩
  simp only [List.mem_append, Option.mem_toList, List.mem_filterMap]
  rcases hread with hread | hread | hread
  · exact .inl (.inl hread)
  · exact .inl (.inr hread)
  · exact .inr hread

namespace Planned

variable (h : Planned db statement plan projections)

include h

/-- What the scan decodes of a row. -/
theorem rawFields_eq (hrow : row ∈ db.stored statement.fromTable) :
    rawFields plan.required row = .ok (HeapFile.project plan.required row.values) :=
  SkibidiQL.rawFields_eq h.table_eq hrow _

/-- A required column has been decoded. -/
theorem fieldAt_eq (hrow : row ∈ db.stored statement.fromTable) {column : Nat}
    (hrequired : column ∈ plan.required) :
    plan.fieldAt (HeapFile.project plan.required row.values) column = .ok (row.field column) := by
  rw [DirectPlan.fieldAt]
  refine fieldAt_project (fun c hc ↦ ?_) hrequired
  rw [db.width _ _ h.table_eq row hrow]
  exact (mem_requiredColumns.1 hc).1

/-- The column of the predicate is one of the table. -/
theorem predicate_lt {predicate : PredicatePlan} (hpredicate : plan.predicate = some predicate) :
    predicate.column < plan.table.columns.length := by
  rcases planPredicate_eq_some h.predicate_eq with ⟨-, hnone⟩ | ⟨_, predicate', -, hsome, -, hlt, -⟩
  · rw [hpredicate] at hnone
    cases hnone
  · obtain rfl := Option.some.inj (hpredicate.symm.trans hsome)
    exact hlt

/-- The predicate is tested on the projected row. -/
theorem predicateMatches_eq (hrow : row ∈ db.stored statement.fromTable) :
    plan.predicateMatches (HeapFile.project plan.required row.values) = .ok (plan.selects row) := by
  rw [DirectPlan.predicateMatches, DirectPlan.selects]
  cases hpredicate : plan.predicate with
  | none => rfl
  | some predicate =>
    dsimp only
    rw [h.fieldAt_eq hrow (DirectPlan.mem_required (h.predicate_lt hpredicate) (.inl (by simp [hpredicate])))]
    rfl

/-- The step of the hash-group scan is the one of the streaming lambda on the rows that are taken. -/
theorem hashRow_eq (hrow : row ∈ db.stored statement.fromTable)
    (groups : List (Tuple × List StreamColumnState)) :
    plan.hashRow groups row =
      if plan.selects row then
        KeyedGroups.modifyAt (streamInitial projections)
          (streamStep projections · (bindRow (plan.bound statement) row))
          (plan.groupColumns.map row.field) groups
      else .ok groups := by
  have hkey : plan.groupColumns.mapM (plan.fieldAt (HeapFile.project plan.required row.values)) =
      .ok (plan.groupColumns.map row.field) :=
    List.mapM_eq_ok fun column hcolumn ↦
      h.fieldAt_eq hrow (DirectPlan.mem_required (h.groupColumns_lt column hcolumn) (.inr (.inl hcolumn)))
  have hstep : (DirectPlan.groupStep (plan.fieldAt (HeapFile.project plan.required row.values))
      plan.projections) = (streamStep projections · (bindRow (plan.bound statement) row)) := by
    funext states
    refine groupStep_eq h.streams (fun projection hprojection column hcolumn ↦ ?_) states
    exact h.fieldAt_eq hrow (DirectPlan.mem_required (h.projections_lt projection hprojection column hcolumn)
      (.inr (.inr ⟨projection, hprojection, hcolumn⟩)))
  have hinitial : plan.initialState = streamInitial projections := by
    rw [DirectPlan.initialState, streamInitial, List.map_const', List.map_const', h.streams.length_eq]
  rw [DirectPlan.hashRow, h.rawFields_eq hrow, Except.ok_bind, h.predicateMatches_eq hrow, Except.ok_bind,
    hkey, hstep, hinitial]
  rfl

/-- The groups of the scan are those of the streaming lambda over the rows that are taken. -/
theorem foldlM_hashRow {rows : List StoredRow} (hrows : ∀ row ∈ rows, row ∈ db.stored statement.fromTable)
    (groups : List (Tuple × List StreamColumnState)) :
    rows.foldlM plan.hashRow groups =
      KeyedGroups.accumulate (streamInitial projections) (groupKey statement.groupBy) (streamStep projections)
        groups ((rows.filter plan.selects).map (bindRow (plan.bound statement))) := by
  induction rows generalizing groups with
  | nil => rfl
  | cons row rows ih =>
    obtain ⟨hrow, hrest⟩ := List.forall_mem_cons.1 hrows
    rw [List.foldlM_cons, h.hashRow_eq hrow, List.filter_cons]
    split
    · rw [List.map_cons, KeyedGroups.accumulate_cons, DirectPlan.bound, groupKey_eq h.groups row,
        Except.ok_bind]
      exact congrArg _ (funext (ih hrest))
    · exact ih hrest groups

/-- A plan has groups when the statement has. -/
theorem isEmpty_groupColumns : plan.groupColumns.isEmpty = statement.groupBy.isEmpty := by
  have hlength := h.groups.length_eq
  cases hcolumns : plan.groupColumns <;> cases hexpressions : statement.groupBy <;>
    simp [hcolumns, hexpressions] at hlength ⊢

/-- The first groups are those of the statement. -/
theorem initialGroups_eq :
    plan.initialGroups = SkibidiQL.initialGroups statement.groupBy (streamInitial projections) := by
  rw [DirectPlan.initialGroups, SkibidiQL.initialGroups, h.isEmpty_groupColumns, DirectPlan.initialState,
    streamInitial, List.map_const', List.map_const', h.streams.length_eq]

/-- The hash-group scan. -/
theorem hashRows_eq :
    plan.hashRows order db statement.fromTable =
      plan.streamedFrom order statement projections ((db.stored statement.fromTable).filter plan.selects) := by
  rw [DirectPlan.hashRows, DirectPlan.streamedFrom, streamed, h.foldlM_hashRow fun _ ↦ id,
    h.initialGroups_eq]
  have houtput (states : List StreamColumnState) : plan.makeOutput states = streamResult projections states :=
    makeOutput_eq h.streams states
  simp only [houtput]

omit h in
/-- Before the first row there is one group at most. -/
theorem entries_initialGroups {σ : Type} (groupBy : List Expr) (initial : σ) :
    order.entries (SkibidiQL.initialGroups groupBy initial) = SkibidiQL.initialGroups groupBy initial := by
  rw [SkibidiQL.initialGroups]
  split
  · exact order.entries_singleton _
  · exact order.entries_nil

/-- Without a row there is the output of the scalar group. -/
theorem streamedFrom_nil : plan.streamedFrom order statement projections [] =
    .ok (plan.initialGroups.map fun group ↦ plan.makeOutput group.2) := by
  have houtput (states : List StreamColumnState) : plan.makeOutput states = streamResult projections states :=
    makeOutput_eq h.streams states
  rw [DirectPlan.streamedFrom, streamed, h.initialGroups_eq]
  simp only [houtput]
  show Except.ok _ = Except.ok _
  rw [entries_initialGroups]

/-! ### The single count -/

/-- A single count counts the rows whose argument is not NULL. -/
theorem countsRow_eq {argument : Option Nat} (hargument : ∀ column ∈ argument, column < plan.table.columns.length)
    (hrow : row ∈ db.stored statement.fromTable) :
    plan.countsRow argument row =
      .ok (plan.selects row && argument.all fun column ↦ !(row.field column).isNull) := by
  have haccepted : plan.rawMatches row = .ok (plan.selects row) := by
    rw [DirectPlan.rawMatches, DirectPlan.selects]
    cases hpredicate : plan.predicate with
    | none => rfl
    | some predicate =>
      dsimp only
      rw [rawColumn_eq h.table_eq hrow (h.predicate_lt hpredicate)]
      rfl
  rw [DirectPlan.countsRow, haccepted, Except.ok_bind]
  cases plan.selects row
  · rfl
  · cases argument with
    | none => rfl
    | some column =>
      dsimp only
      rw [rawColumn_eq h.table_eq hrow (hargument column rfl)]
      rfl

end Planned

end SkibidiQL
