import SkibidiQL.Query.DirectAggregate
import SkibidiQL.Query.GroupedSelect

/-!
# The plan of direct aggregation

What `executeDirectAggregateSelect` plans is what the generic pipeline computes from the same statement: the
columns of the plan are those that the expressions evaluate to, and the projections are those of the
streaming lambda.
-/

namespace SkibidiQL

variable {db : Database} {statement : SelectStmt} {plan : DirectPlan} {table : TableMeta}
  {name alias' : Bytes} {expression : Expr} {columns : List BoundColumn}

/-- On a stored row the expression evaluates to the value of the column. -/
def Reads (columns : List BoundColumn) (expression : Expr) (column : Nat) : Prop :=
  ∀ row : StoredRow, eval expression (bindRow columns row) = .ok (row.field column)

/-- The projections of the streaming lambda that read the columns of the plan. -/
inductive Streams (columns : List BoundColumn) : DirectProjection → StreamProjection → Prop
  | representative {column : Nat} {expression : Expr} (h : Reads columns expression column) :
      Streams columns (.representative column) (.representative expression)
  | countRows : Streams columns (.aggregate .count none) (.aggregate .count none)
  | aggregate (kind : AggregateKind) {column : Nat} {expression : Expr} (h : Reads columns expression column) :
      Streams columns (.aggregate kind (some column)) (.aggregate kind (some expression))

/-! ### The parts of the plan -/

/-- All parts are planned when each of them is. -/
theorem planAll_eq_some {α β : Type} {plan : α → Except Error (Option β)} {l : List α} {planned : List β} :
    planAll plan l = .ok (some planned) ↔ List.Forall₂ (fun a b ↦ plan a = .ok (some b)) l planned := by
  induction l generalizing planned with
  | nil => simp [planAll, eq_comm]
  | cons a l ih =>
    rw [planAll, Except.bind_eq_ok]
    constructor
    · rintro ⟨b, hb, h⟩
      cases b with
      | none => cases h
      | some b =>
        obtain ⟨rest, hrest, h⟩ := Except.bind_eq_ok.1 h
        cases rest with
        | none => cases h
        | some rest =>
          cases h
          exact .cons hb (ih.1 hrest)
    · rintro (_ | ⟨hb, hrest⟩)
      exact ⟨_, hb, Except.bind_eq_ok.2 ⟨_, ih.2 hrest, rfl⟩⟩

/-- A column that a fast path resolves is in the table, and the pipeline reads it. -/
theorem reads_of_resolve {column : ColumnRef} {index : Nat}
    (h : resolveTableColumn table name alias' column = .ok index) :
    index < table.columns.length ∧ Reads (boundColumns table name alias') (.column column) index := by
  obtain ⟨-, ⟨c, hc, -⟩, hindex⟩ := resolveTableColumn_eq_ok h
  exact ⟨(List.getElem?_eq_some_iff.1 hc).1, fun row ↦ eval_column hindex row⟩

/-- A group column that is planned is one of the table. -/
theorem planGroupColumn_eq_some {index : Nat}
    (h : planGroupColumn (resolveTableColumn table name alias') expression = .ok (some index)) :
    index < table.columns.length ∧ Reads (boundColumns table name alias') expression index := by
  rw [planGroupColumn.eq_def] at h
  split at h
  · obtain ⟨found, hfound, h⟩ := Except.bind_eq_ok.1 h
    cases h
    exact reads_of_resolve hfound
  · cases h

/-- A count of rows is one for the streaming lambda too. -/
theorem streamArgument_of_countWildcard {args : List Expr} (h : countWildcard name args) :
    AggregateKind.ofName name = .count ∧ streamArgument name args = some none := by
  rw [countWildcard, Bool.and_eq_true, beq_iff_eq] at h
  obtain ⟨rfl, hargs⟩ := h
  refine ⟨rfl, ?_⟩
  rcases args with _ | ⟨first, rest⟩
  · rfl
  · cases first with
    | wildcard wildcard => cases rest <;> rfl
    | _ => exact absurd hargs nofun

/-- The plan of a column of the select list is that of the streaming lambda. -/
theorem planProjection_eq_some {groupColumns : List Nat} {projection : DirectProjection}
    (h : planProjection (resolveTableColumn table name alias') groupColumns expression =
      .ok (some projection)) :
    (∃ stream, streamProjection expression = some stream ∧
        Streams (boundColumns table name alias') projection stream) ∧
      expression.isWildcard = false ∧ (∀ column ∈ projection.column?, column < table.columns.length) ∧
      (projection.isAggregate = false → groupColumns ≠ []) := by
  rw [planProjection.eq_def] at h
  split at h
  · rename_i name' args distinct alias''
    split at h
    · cases h
    · rename_i hsimple
      obtain ⟨rfl, hname⟩ : distinct = false ∧ isSimpleAggregateName name' := by simpa using hsimple
      have hstream : ∀ {argument : Option Expr}, streamArgument name' args = some argument →
          streamProjection (.function name' args false alias'') =
            some (.aggregate (AggregateKind.ofName name') argument) := fun hargument ↦ by
        rw [streamProjection, Bool.false_or, hname, hargument]
        rfl
      split at h
      -- `headcount(*)` counts rows and reads no column.
      · rename_i hcount
        cases h
        obtain ⟨hkind, hargument⟩ := streamArgument_of_countWildcard hcount
        have hcounts := hstream hargument
        rw [hkind] at hcounts ⊢
        exact ⟨⟨_, hcounts, .countRows⟩, rfl, nofun, nofun⟩
      · split at h
        · rename_i column
          obtain ⟨index, hindex, h⟩ := Except.bind_eq_ok.1 h
          cases h
          obtain ⟨hlt, hreads⟩ := reads_of_resolve hindex
          refine ⟨⟨_, hstream rfl, .aggregate _ hreads⟩, rfl, ?_, nofun⟩
          rintro c hc
          obtain rfl := Option.some.inj hc
          exact hlt
        · cases h
  · rename_i column
    obtain ⟨index, hindex, h⟩ := Except.bind_eq_ok.1 h
    split at h
    · rename_i hmem
      cases h
      obtain ⟨hlt, hreads⟩ := reads_of_resolve hindex
      refine ⟨⟨_, rfl, .representative hreads⟩, rfl, ?_, fun _ ↦ List.ne_nil_of_mem hmem⟩
      rintro c hc
      obtain rfl := Option.some.inj hc
      exact hlt
    · cases h
  · cases h

/-- WHERE on a row, by the plan of the predicate. -/
def PredicatePlan.apply (predicate : PredicatePlan) (field : Value) : Except Error Value :=
  if predicate.columnOnLeft then applyBinary predicate.op field predicate.literal
  else applyBinary predicate.op predicate.literal field

/-- The plan of WHERE compares the column that WHERE compares. -/
theorem planPredicate_eq_some {condition : Option Expr} {predicate : Option PredicatePlan}
    (h : planPredicate (resolveTableColumn table name alias') condition = .ok (some predicate)) :
    condition = none ∧ predicate = none ∨
      ∃ expression plan, condition = some expression ∧ predicate = some plan ∧ comparisonOperator plan.op ∧
        plan.column < table.columns.length ∧ ∀ row : StoredRow,
          eval expression (bindRow (boundColumns table name alias') row) =
            plan.apply (row.field plan.column) := by
  rw [planPredicate.eq_def] at h
  split at h
  · cases h
    exact .inl ⟨rfl, rfl⟩
  · rename_i op left right alias''
    split at h
    · rename_i hop
      split at h
      · obtain ⟨index, hindex, h⟩ := Except.bind_eq_ok.1 h
        cases h
        obtain ⟨hlt, hreads⟩ := reads_of_resolve hindex
        refine .inr ⟨_, _, rfl, rfl, hop, hlt, fun row ↦ ?_⟩
        rw [eval, hreads row, eval]
        rfl
      · obtain ⟨index, hindex, h⟩ := Except.bind_eq_ok.1 h
        cases h
        obtain ⟨hlt, hreads⟩ := reads_of_resolve hindex
        refine .inr ⟨_, _, rfl, rfl, hop, hlt, fun row ↦ ?_⟩
        rw [eval, eval, hreads row]
        rfl
      · cases h
    · cases h
  · cases h

/-! ### The plan -/

/-- A plan of the statement, with the one of the streaming lambda. -/
structure Planned (db : Database) (statement : SelectStmt) (plan : DirectPlan)
    (projections : List StreamProjection) : Prop where
  shape : directShape statement
  table_eq : db.catalog.tables[statement.fromTable]? = some plan.table
  predicate_eq : planPredicate (resolveTableColumn plan.table statement.fromTable statement.fromAlias)
    statement.where' = .ok (some plan.predicate)
  groups : List.Forall₂ (Reads (boundColumns plan.table statement.fromTable statement.fromAlias))
    statement.groupBy plan.groupColumns
  streams : List.Forall₂ (Streams (boundColumns plan.table statement.fromTable statement.fromAlias))
    plan.projections projections
  stream_plan : streamProjections statement = some projections
  groupColumns_lt : ∀ column ∈ plan.groupColumns, column < plan.table.columns.length
  projections_lt : ∀ projection ∈ plan.projections, ∀ column ∈ projection.column?,
    column < plan.table.columns.length
  wildcards : ∀ expression ∈ statement.columns, expression.isWildcard = false
  scalar : plan.groupColumns = [] → ∀ projection ∈ plan.projections, projection.isAggregate

/-- What a plan is made of. -/
theorem directPlanWith_eq_some {predicate : Option PredicatePlan}
    (h : directPlanWith table statement predicate = .ok (some plan)) :
    plan.table = table ∧ plan.predicate = predicate ∧
      List.Forall₂ (fun expression column ↦
        planGroupColumn (resolveTableColumn table statement.fromTable statement.fromAlias) expression =
          .ok (some column)) statement.groupBy plan.groupColumns ∧
      List.Forall₂ (fun expression projection ↦
        planProjection (resolveTableColumn table statement.fromTable statement.fromAlias) plan.groupColumns
          expression = .ok (some projection)) statement.columns plan.projections := by
  rw [directPlanWith] at h
  obtain ⟨groupColumns, hgroups, h⟩ := Except.bind_eq_ok.1 h
  cases groupColumns with
  | none => cases h
  | some groupColumns =>
    obtain ⟨projections, hprojections, h⟩ := Except.bind_eq_ok.1 h
    cases projections with
    | none => cases h
    | some projections =>
      dsimp only at h
      split at h
      · cases h
        exact ⟨rfl, rfl, planAll_eq_some.1 hgroups, planAll_eq_some.1 hprojections⟩
      · cases h

/-- A plan is made when the statement has the shape and its parts are planned. -/
theorem directPlan_parts (h : directPlan db statement = .ok (some plan)) :
    directShape statement ∧ db.catalog.tables[statement.fromTable]? = some plan.table ∧
      planPredicate (resolveTableColumn plan.table statement.fromTable statement.fromAlias)
        statement.where' = .ok (some plan.predicate) ∧
      directPlanWith plan.table statement plan.predicate = .ok (some plan) := by
  rw [directPlan] at h
  split at h
  · cases h
  · rename_i hshape
    rw [Bool.not_eq_true', Bool.not_eq_false] at hshape
    obtain ⟨table, htable, h⟩ := Except.bind_eq_ok.1 h
    obtain ⟨predicate, hpredicate, h⟩ := Except.bind_eq_ok.1 h
    cases predicate with
    | none => cases h
    | some predicate =>
      obtain ⟨rfl, rfl, -⟩ := directPlanWith_eq_some h
      refine ⟨hshape, ?_, hpredicate, h⟩
      rw [Database.table] at htable
      split at htable
      · rename_i heq
        rw [heq, Except.ok.inj htable]
      · cases htable

/-- Planned projections stream. -/
theorem exists_streams {expressions : List Expr} {planned : List DirectProjection}
    (h : List.Forall₂ (fun expression projection ↦ ∃ stream, streamProjection expression = some stream ∧
      Streams columns projection stream) expressions planned) :
    ∃ projections, List.Forall₂ (Streams columns) planned projections ∧
      List.Forall₂ (fun expression projection ↦ streamProjection expression = some projection)
        expressions projections := by
  induction h with
  | nil => exact ⟨[], .nil, .nil⟩
  | cons hprojection _ ih =>
    obtain ⟨stream, hstream, hreads⟩ := hprojection
    obtain ⟨streams, hstreams, hstreamed⟩ := ih
    exact ⟨stream :: streams, .cons hreads hstreams, .cons hstream hstreamed⟩

/-- A statement that the function does not decline has a plan for the streaming lambda. -/
theorem exists_planned (h : directPlan db statement = .ok (some plan)) :
    ∃ projections, Planned db statement plan projections := by
  obtain ⟨hshape, htable, hpredicate, h⟩ := directPlan_parts h
  obtain ⟨-, -, hgroups, hplanned⟩ := directPlanWith_eq_some h
  have hall := hplanned.imp fun _ _ h ↦ planProjection_eq_some h
  obtain ⟨projections, hstreams, hstreamed⟩ := exists_streams (hall.imp fun _ _ h ↦ h.1)
  refine ⟨projections, hshape, htable, hpredicate, hgroups.imp fun _ _ h ↦ (planGroupColumn_eq_some h).2,
    hstreams, ?_, ?_, ?_, ?_, ?_⟩
  · rw [streamProjections, if_neg]
    · exact List.mapM_eq_some_iff.2 hstreamed
    · simp only [directShape, Bool.and_eq_true, Bool.not_eq_true', Option.isNone_iff_eq_none] at hshape
      simp [hshape]
  · exact (hgroups.imp fun _ _ h ↦ (planGroupColumn_eq_some h).1).flip.forall_left
  · exact (hall.imp fun _ _ h ↦ h.2.2.1).flip.forall_left
  · exact (hall.imp fun _ _ h ↦ h.2.1).forall_left
  · intro hscalar
    refine (hall.imp fun _ _ h ↦ ?_).flip.forall_left
    by_contra haggregate
    exact h.2.2.2 (Bool.eq_false_iff.2 haggregate) hscalar

end SkibidiQL
