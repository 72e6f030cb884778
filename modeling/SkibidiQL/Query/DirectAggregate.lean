import SkibidiQL.Query.ColumnStatistics

/-!
# Direct aggregation

`executeDirectAggregateSelect` answers an aggregate over one table from its statistics or from the bytes of
its rows. First it plans the statement, which may decline it; then it chooses how to answer; then it answers.

An access outside of the dense array, which the source leaves undefined, is an error.
-/

namespace SkibidiQL

open Bytes

/-! ### The plan -/

/-- A list planned entry by entry, until one is declined. -/
def planAll {α β : Type} (plan : α → Except Error (Option β)) : List α → Except Error (Option (List β))
  | [] => pure (some [])
  | a :: rest => do
    match ← plan a with
    | none => pure none
    | some b => do
      let planned ← planAll plan rest
      pure (planned.map (b :: ·))

/-- `struct PredicatePlan`. -/
structure PredicatePlan where
  column : Nat
  op : BinaryOperator
  literal : Value
  columnOnLeft : Bool

/-- The lambda `comparisonOperator`. -/
def comparisonOperator : BinaryOperator → Bool
  | .eq | .ne | .lt | .gt | .le | .ge => true
  | _ => false

/-- The plan of WHERE: none inside without a condition, and nothing when the function declines. -/
def planPredicate (resolve : ColumnRef → Except Error Nat) :
    Option Expr → Except Error (Option (Option PredicatePlan))
  | none => pure (some none)
  | some (.binary op left right _) =>
    if comparisonOperator op then
      match left, right with
      | .column column, .literal literal => do
        pure (some (some ⟨← resolve column, op, literalValue literal, true⟩))
      | .literal literal, .column column => do
        pure (some (some ⟨← resolve column, op, literalValue literal, false⟩))
      | _, _ => pure none
    else pure none
  | some _ => pure none

/-- `struct ProjectionPlan`: a group column, or an aggregate, without an argument when it counts rows. -/
inductive DirectProjection where
  | representative (column : Nat)
  | aggregate (kind : AggregateKind) (argument : Option Nat)

/-- The plan of a group column. -/
def planGroupColumn (resolve : ColumnRef → Except Error Nat) : Expr → Except Error (Option Nat)
  | .column column => do pure (some (← resolve column))
  | _ => pure none

/-- Whether a call counts rows. -/
def countWildcard (name : Bytes) (args : List Expr) : Bool :=
  name == lit "headcount" && (args.isEmpty || args.head?.any Expr.isWildcard)

/-- The plan of a column of the select list. -/
def planProjection (resolve : ColumnRef → Except Error Nat) (groupColumns : List Nat) :
    Expr → Except Error (Option DirectProjection)
  | .function name args distinct _ =>
    if distinct || !isSimpleAggregateName name then pure none
    else if countWildcard name args then pure (some (.aggregate (AggregateKind.ofName name) none))
    else match args with
      | [.column column] => do
        pure (some (.aggregate (AggregateKind.ofName name) (some (← resolve column))))
      | _ => pure none
  | .column column => do
    let index ← resolve column
    -- A column outside GROUP BY is left to the streaming path.
    pure (if index ∈ groupColumns then some (.representative index) else none)
  | _ => pure none

/-- What the function works from. -/
structure DirectPlan where
  table : TableMeta
  predicate : Option PredicatePlan
  groupColumns : List Nat
  projections : List DirectProjection

namespace DirectProjection

/-- Whether the column is an aggregate. -/
def isAggregate : DirectProjection → Bool
  | representative _ => false
  | aggregate _ _ => true

/-- The column that is read for a column of the select list. -/
def column? : DirectProjection → Option Nat
  | representative column => some column
  | aggregate _ argument => argument

end DirectProjection

/-- The checks on the clauses of the statement. -/
def directShape (statement : SelectStmt) : Bool :=
  statement.joins.isEmpty && !statement.distinct && statement.having.isNone &&
    statement.orderBy.isEmpty && statement.limit.isNone && statement.offset.isNone &&
    selectHasAggregate statement

/-- The plan of GROUP BY and the select list, with the plan of WHERE. -/
def directPlanWith (table : TableMeta) (statement : SelectStmt) (predicate : Option PredicatePlan) :
    Except Error (Option DirectPlan) := do
  let resolve := resolveTableColumn table statement.fromTable statement.fromAlias
  match ← planAll (planGroupColumn resolve) statement.groupBy with
  | none => pure none
  | some groupColumns => do
    match ← planAll (planProjection resolve groupColumns) statement.columns with
    | none => pure none
    | some projections =>
      if projections.any (·.isAggregate) then
        pure (some { table, predicate, groupColumns, projections })
      else pure none

/-- The plan of a statement, unless the function declines it. -/
def directPlan (db : Database) (statement : SelectStmt) : Except Error (Option DirectPlan) :=
  if !directShape statement then pure none
  else do
    let table ← db.table statement.fromTable
    let resolve := resolveTableColumn table statement.fromTable statement.fromAlias
    match ← planPredicate resolve statement.where' with
    | none => pure none
    | some predicate => directPlanWith table statement predicate

/-! ### Predicates -/

/-- `normalizeColumnPredicateOp`. -/
def normalizeColumnPredicateOp (op : BinaryOperator) (columnOnLeft : Bool) : BinaryOperator :=
  if columnOnLeft then op
  else match op with
    | .lt => .gt
    | .gt => .lt
    | .le => .ge
    | .ge => .le
    | op => op

/-- The lambda `minMaxProvesEmpty`, with the range of the column. -/
def minMaxProvesEmpty (plan : PredicatePlan) (range : ColumnRange) : Bool :=
  -- No comparison with NULL holds, and neither does one with a column of NULLs.
  if plan.literal.isNull || !range.present then true
  else match normalizeColumnPredicateOp plan.op plan.columnOnLeft with
    | .eq => (plan.literal.compare range.min).isLT || (plan.literal.compare range.max).isGT
    | .ne => (range.min.compare plan.literal).isEq && (range.max.compare plan.literal).isEq
    | .lt => (range.min.compare plan.literal).isGE
    | .le => (range.min.compare plan.literal).isGT
    | .gt => (range.max.compare plan.literal).isLE
    | .ge => (range.max.compare plan.literal).isLT
    | _ => false

/-- Whether the value of the column satisfies the predicate: the end of `predicateMatches`. -/
def PredicatePlan.accepts (plan : PredicatePlan) (field : Value) : Bool :=
  if field.isNull || plan.literal.isNull then false
  else
    let order := field.compare plan.literal
    plan.op.holds (if plan.columnOnLeft then order else order.swap)

namespace DirectPlan

variable (plan : DirectPlan)

/-- `requiredColumns`. -/
def required : List Nat :=
  requiredColumns plan.table ((plan.predicate.map (·.column)).toList ++ plan.groupColumns ++
    plan.projections.filterMap (·.column?))

/-- The lambda `fieldAt`. -/
def fieldAt (fields : Tuple) (column : Nat) : Except Error Value :=
  SkibidiQL.fieldAt (lit "Direct aggregate column was not decoded") plan.required fields column

/-- The lambda `predicateMatches`. -/
def predicateMatches (fields : Tuple) : Except Error Bool :=
  match plan.predicate with
  | none => pure true
  | some predicate => do pure (predicate.accepts (← plan.fieldAt fields predicate.column))

/-- The name of a column. -/
def columnName (column : Nat) : Bytes :=
  (plan.table.columns[column]?.map (·.name)).getD []

/-! ### The single count -/

/-- The argument of the one count that is all of the select list, without GROUP BY. -/
def singleCount : Option (Option Nat) :=
  match plan.groupColumns, plan.projections with
  | [], [.aggregate .count argument] => some argument
  | _, _ => none

/-- Whether the row satisfies the predicate, by the column that it reads. -/
def rawMatches (row : StoredRow) : Except Error Bool :=
  match plan.predicate with
  | none => pure true
  | some predicate => do pure (predicate.accepts (← rawColumn predicate.column row))

/-- Whether the scan counts a row. -/
def countsRow (argument : Option Nat) (row : StoredRow) : Except Error Bool := do
  let accepted ← plan.rawMatches row
  match accepted, argument with
  | false, _ => pure false
  | true, none => pure true
  | true, some column => do pure (!(← rawColumn column row).isNull)

/-! ### The dense path -/

/-- Whether the dense path can compute a column of the select list. -/
def supportedDense (groupColumn : Nat) : DirectProjection → Bool
  | .representative column => column == groupColumn
  | .aggregate kind _ => kind == .count || kind == .sum || kind == .average

/-- The group column of a statement that the dense path supports. -/
def denseColumn : Except Error (Option Nat) :=
  match plan.groupColumns with
  | [column] =>
    match plan.table.columns[column]? with
    | none => pure none
    | some metadata => do
      let type ← declaredValueType metadata
      pure (if metadata.notNull && (type == .integer || type == .boolean) &&
        plan.projections.all (supportedDense column) then some column else none)
  | _ => pure none

/-- `skibidi::config::kDenseGroupMaxDomainSpan`. -/
def denseGroupMaxDomainSpan : Int64 := 4096

/-- The least and the greatest group value, when the dense array spans few enough. -/
def denseBounds (range : ColumnRange) : Except Error (Option (Int64 × Int64)) :=
  if range.present && range.min.isNumeric && range.max.isNumeric then do
    let minimum ← range.min.asInteger
    let maximum ← range.max.asInteger
    let span := maximum - minimum
    pure (if minimum ≤ maximum ∧ span < denseGroupMaxDomainSpan then some (minimum, maximum) else none)
  else pure none

/-- `struct DenseGroupState`. -/
structure DenseGroup where
  present : Bool := false
  key : Value := .null
  aggregates : List AggregateState

/-- The dense array before the first row. -/
def denseGroups (minimum maximum : Int64) : List DenseGroup :=
  List.replicate ((maximum - minimum).toUInt64.toNat + 1)
    { aggregates := plan.projections.map fun _ ↦ {} }

/-- A value taken into an aggregate of the dense path. -/
def denseAdd (kind : AggregateKind) (state : AggregateState) (value : Value) : Except Error AggregateState :=
  if value.isNull then pure state
  else if kind = .count then pure state.countRow
  else if value.isNumeric then pure (state.addNumber kind value)
  else throw (lit "Numeric aggregate on non-number")

/-- A row taken into the aggregates of its dense group. -/
def denseStep (field : Nat → Except Error Value) :
    List DirectProjection → List AggregateState → Except Error (List AggregateState)
  | projection :: projections, state :: states => do
    let state ← match projection with
      | .representative _ => pure state
      | .aggregate _ none => pure state.countRow
      | .aggregate kind (some column) => do denseAdd kind state (← field column)
    pure (state :: (← denseStep field projections states))
  | _, _ => pure []

/-- The integer that a group value is an index by. -/
def denseValue : Value → Int64
  | .integer n => n
  | .boolean b => if b then 1 else 0
  | _ => 0

/-- The index of a group value in the dense array. -/
def denseIndex (minimum value : Int64) : Nat :=
  (value - minimum).toUInt64.toNat

/-- A row taken into the group at the index. -/
def denseInsert (fields : Tuple) (key : Value) (index : Nat) (groups : List DenseGroup) :
    Except Error (List DenseGroup) :=
  match groups[index]? with
  | none => throw (lit "Dense group out of bounds")
  | some group => do
    let aggregates ← denseStep (plan.fieldAt fields) plan.projections group.aggregates
    let key := if group.key.isNull then key else group.key
    pure (groups.set index { present := true, key, aggregates })

/-- The step of the scan of the dense path. -/
def denseRow (column : Nat) (minimum maximum : Int64) (groups : List DenseGroup) (row : StoredRow) :
    Except Error (List DenseGroup) := do
  let fields ← rawFields plan.required row
  let accepted ← plan.predicateMatches fields
  if accepted then do
    let key ← plan.fieldAt fields column
    let value := denseValue key
    -- A row outside the range is dropped, whatever its group would be.
    if key.isNull || !key.isNumeric || decide (value < minimum ∨ maximum < value) then pure groups
    else plan.denseInsert fields key (denseIndex minimum value) groups
  else pure groups

/-- The output row of a dense group. -/
def denseOutput (group : DenseGroup) : Tuple :=
  plan.projections.zipWith (fun projection state ↦
    match projection with
    | .representative _ => group.key
    | .aggregate kind _ => state.result kind) group.aggregates

/-- The rows of the dense path. -/
def denseRows (db : Database) (name : Bytes) (column : Nat) (minimum maximum : Int64) :
    Except Error (List Tuple) := do
  let groups ← (db.stored name).foldlM (plan.denseRow column minimum maximum)
    (plan.denseGroups minimum maximum)
  pure ((groups.filter (·.present)).map plan.denseOutput)

/-! ### The hash-group scan -/

/-- A row taken into the state of a column. -/
def columnStep (field : Nat → Except Error Value) (state : StreamColumnState) :
    DirectProjection → Except Error StreamColumnState
  | .representative column =>
    if state.representative.isNull then do pure { state with representative := ← field column }
    else pure state
  | .aggregate _ none => pure { state with aggregate := state.aggregate.countRow }
  | .aggregate kind (some column) => do
    pure { state with aggregate := ← state.aggregate.add kind (← field column) }

/-- A row taken into the state of its group. -/
def groupStep (field : Nat → Except Error Value) :
    List DirectProjection → List StreamColumnState → Except Error (List StreamColumnState)
  | projection :: projections, state :: states => do
    let state ← columnStep field state projection
    pure (state :: (← groupStep field projections states))
  | _, _ => pure []

/-- `initializeGroup`. -/
def initialState : List StreamColumnState :=
  plan.projections.map fun _ ↦ {}

/-- `makeOutput`. -/
def makeOutput (states : List StreamColumnState) : Tuple :=
  plan.projections.zipWith (fun projection state ↦
    match projection with
    | .representative _ => state.representative
    | .aggregate kind _ => state.aggregate.result kind) states

/-- The groups before the first row: the scalar group, without GROUP BY. -/
def initialGroups : List (Tuple × List StreamColumnState) :=
  if plan.groupColumns.isEmpty then [([], plan.initialState)] else []

/-- The step of the hash-group scan. -/
def hashRow (groups : List (Tuple × List StreamColumnState)) (row : StoredRow) :
    Except Error (List (Tuple × List StreamColumnState)) := do
  let fields ← rawFields plan.required row
  let accepted ← plan.predicateMatches fields
  if accepted then do
    let key ← plan.groupColumns.mapM (plan.fieldAt fields)
    KeyedGroups.modifyAt plan.initialState (groupStep (plan.fieldAt fields) plan.projections) key groups
  else pure groups

/-- The rows of the hash-group scan. -/
def hashRows (order : GroupOrder) (db : Database) (name : Bytes) : Except Error (List Tuple) := do
  let groups ← (db.stored name).foldlM plan.hashRow plan.initialGroups
  pure ((order.entries groups).map fun group ↦ plan.makeOutput group.2)

end DirectPlan

/-! ### The choice of the way -/

/-- The ways to an answer. -/
inductive DirectRoute where
  /-- No row satisfies the predicate, by the range of its column. -/
  | pruned
  /-- The count is in the value counts. -/
  | counted (count : Nat)
  /-- The scan of the single count. -/
  | countScan (argument : Option Nat)
  | dense (column : Nat) (minimum maximum : Int64)
  | hash

namespace DirectPlan

variable (limit : Nat) (db : Database) (statistics : Statistics) (name : Bytes) (plan : DirectPlan)

/-- Whether the range of its column excludes the predicate. -/
def provesEmpty : Except Error (Bool × Statistics) :=
  match plan.predicate with
  | none => pure (false, statistics)
  | some predicate => do
    let (range, statistics) ←
      ensureColumnRange limit db statistics name (plan.columnName predicate.column)
    pure (minMaxProvesEmpty predicate range, statistics)

/-- Whether the value counts of the column of an equation have the count. -/
def asksValueCounts (predicate : PredicatePlan) (argument : Option Nat) : Bool :=
  normalizeColumnPredicateOp predicate.op predicate.columnOnLeft == .eq &&
    (argument == none || argument == some predicate.column) && !predicate.literal.isNull

/-- The way of a single count. -/
def countRoute (argument : Option Nat) : Except Error (DirectRoute × Statistics) :=
  match plan.predicate with
  | none => pure (.countScan argument, statistics)
  | some predicate =>
    if asksValueCounts predicate argument then do
      let (range, statistics) ←
        ensureColumnRange limit db statistics name (plan.columnName predicate.column)
      pure (if range.valueCountsExact then .counted (range.countOf predicate.literal)
        else .countScan argument, statistics)
    else pure (.countScan argument, statistics)

/-- The way of any other aggregate: dense or by hash. -/
def groupRoute : Except Error (DirectRoute × Statistics) := do
  match ← plan.denseColumn with
  | none => pure (.hash, statistics)
  | some column => do
    let (range, statistics) ← ensureColumnRange limit db statistics name (plan.columnName column)
    match ← denseBounds range with
    | some (minimum, maximum) => pure (.dense column minimum maximum, statistics)
    | none => pure (.hash, statistics)

/-- The way to the answer, and the statistics after it is chosen. -/
def route : Except Error (DirectRoute × Statistics) := do
  let (empty, statistics) ← plan.provesEmpty limit db statistics name
  if empty then pure (.pruned, statistics)
  else match plan.singleCount with
    | some argument => plan.countRoute limit db statistics name argument
    | none => plan.groupRoute limit db statistics name

/-- The rows of the answer. -/
def rows (order : GroupOrder) : DirectRoute → Except Error (List Tuple)
  | .pruned => pure (plan.initialGroups.map fun group ↦ plan.makeOutput group.2)
  | .counted count => pure [[countValue count]]
  | .countScan argument => do
    let counted ← (db.stored name).filterM (plan.countsRow argument)
    pure [[countValue counted.length]]
  | .dense column minimum maximum => plan.denseRows db name column minimum maximum
  | .hash => plan.hashRows order db name

end DirectPlan

/-- `NativeEngine::executeDirectAggregateSelect`: the answer, unless the function declines, and the
statistics after it. -/
def executeDirectAggregateSelect (order : GroupOrder) (limit : Nat) (db : Database) (statistics : Statistics)
    (statement : SelectStmt) : Except Error (Option NativeQueryResult × Statistics) := do
  match ← directPlan db statement with
  | none => pure (none, statistics)
  | some plan => do
    let (route, statistics) ← plan.route limit db statistics statement.fromTable
    let rows ← plan.rows db statement.fromTable order route
    pure (some { columns := outputNames db.catalog statement none, rows }, statistics)

end SkibidiQL
