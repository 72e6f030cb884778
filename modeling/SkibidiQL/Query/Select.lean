import SkibidiQL.Base.KeyedGroups
import SkibidiQL.Catalog.Metadata
import SkibidiQL.Query.Accumulators

/-!
# The generic SELECT

`executeSelect` from the joined rows on: the filter, grouping by the streaming lambda or over stored rows,
projection, DISTINCT, ORDER BY, OFFSET and LIMIT.

The groups of a hash map are listed in the order of their first row; the source leaves their order open.
-/

namespace SkibidiQL

open Bytes

/-! ### Output columns -/

/-- `integerLiteral`. -/
def integerLiteral (expression : Option Expr) (fallback : Int64) : Int64 :=
  match expression with
  | some (.literal (.int value)) => value
  | some (.literal (.float bits)) => truncate (Float.ofBits bits)
  | _ => fallback

/-- `expressionAlias`. -/
def expressionAlias (expression : Expr) (fallback : Nat) : Bytes :=
  let unnamed := lit "expr" ++ ofNat (fallback + 1)
  match expression with
  | .column column => if column.alias'.isEmpty then column.column else column.alias'
  | .function name _ _ alias' => if alias'.isEmpty then name else alias'
  | .binary _ _ _ alias' => if alias'.isEmpty then unnamed else alias'
  | .unary _ _ alias' => if alias'.isEmpty then unnamed else alias'
  | .window funcName _ _ alias' => if alias'.isEmpty then funcName else alias'
  | _ => unnamed

/-- Whether a wildcard stands for the columns under this table and alias. -/
def Wildcard.covers (wildcard : Wildcard) (table alias' : Bytes) : Bool :=
  wildcard.table.isEmpty || wildcard.table == table || wildcard.table == alias'

/-- The names of the columns that a wildcard stands for, from the catalog. -/
def wildcardNames (catalog : Catalog) (statement : SelectStmt) (wildcard : Wildcard) : List Bytes :=
  let appendTable (table alias' : Bytes) : List Bytes :=
    if wildcard.covers table alias' then
      match catalog.tables[table]? with
      | some metadata => metadata.columns.map (·.name)
      | none => []
    else []
  appendTable statement.fromTable statement.fromAlias ++
    statement.joins.flatMap fun join ↦ appendTable join.table join.alias'

/-- `NativeEngine::outputNames`; `sample` is the schema of the first row. -/
def outputNames (catalog : Catalog) (statement : SelectStmt) (sample : Option (List BoundColumn)) :
    List Bytes :=
  statement.columns.zipIdx.flatMap fun item ↦
    match item.1, sample with
    | .wildcard wildcard, some columns =>
      (columns.filter fun column ↦ wildcard.covers column.table column.alias').map (·.name)
    | .wildcard wildcard, none => wildcardNames catalog statement wildcard
    | expression, _ => [expressionAlias expression item.2]

/-- `NativeEngine::resolveOutputColumn`. -/
def resolveOutputColumn (column : ColumnRef) (names : List Bytes) (values : Tuple) :
    Except Error Value :=
  match names.findIdx? (· == column.column) with
  | some index => pure (values.getD index .null)
  | none => throw (lit "Unknown output column: " ++ column.column)

/-! ### Projection -/

/-- Whether two rows agree on the partition expressions of a window. -/
def samePartition (row candidate : EvalRow) : List Expr → Except Error Bool
  | [] => pure true
  | expression :: rest => do
    let ofCandidate ← eval expression candidate
    let ofRow ← eval expression row
    if ofCandidate != ofRow then pure false else samePartition row candidate rest

/-- Whether the candidate comes before the row in the order of a window. -/
def windowPrecedes (row candidate : EvalRow) : List (Expr × Bool) → Except Error Bool
  | [] => pure false
  | (expression, asc) :: rest => do
    let comparison := (← eval expression candidate).compare (← eval expression row)
    if comparison.isEq then windowPrecedes row candidate rest
    else pure (if asc then comparison.isLT else comparison.isGT)

/-- `NativeEngine::windowValue`. -/
def windowValue (funcName : Bytes) (partitionBy : List Expr) (orderBy : List (Expr × Bool))
    (row : EvalRow) (allRows : List EvalRow) : Except Error Value :=
  if funcName ≠ lit "RANK" then throw (lit "Unsupported window function: " ++ funcName)
  else do
    let before ← allRows.filterM fun candidate ↦ do
      if ← samePartition row candidate partitionBy then windowPrecedes row candidate orderBy
      else pure false
    pure (countValue (1 + before.length))

/-- The values that a column of the select list contributes to an output row. -/
def projectColumn (row : EvalRow) (allRows : List EvalRow) : Expr → Except Error Tuple
  | .wildcard wildcard =>
    pure (((row.columns.getD []).zipIdx.filter fun item ↦
      wildcard.covers item.1.table item.1.alias').map fun item ↦ row.values.getD item.2 .null)
  | .window funcName partitionBy orderBy _ => do
    pure [← windowValue funcName partitionBy orderBy row allRows]
  | expression => do pure [← eval expression row]

/-- `NativeEngine::project`. -/
def project (statement : SelectStmt) (row : EvalRow) (allRows : List EvalRow) : Except Error Tuple := do
  pure (← statement.columns.mapM (projectColumn row allRows)).flatten

/-- A column of the select list over the rows of a group. -/
def projectGroupedColumn (rows : List EvalRow) : Expr → Except Error Value
  | .wildcard _ => throw (lit "Wildcard is not supported in aggregate projection")
  | expression => evalGrouped expression rows

/-- `NativeEngine::projectGrouped`. -/
def projectGrouped (statement : SelectStmt) (rows : List EvalRow) : Except Error Tuple :=
  statement.columns.mapM (projectGroupedColumn rows)

/-- `NativeEngine::OutputRow`. -/
structure OutputRow where
  values : Tuple
  orderKeys : List Value := []

/-- `NativeEngine::orderKeys` and `orderKeysGrouped`, which evaluate by `evaluate`. -/
def orderKeysBy (evaluate : Expr → Except Error Value) (statement : SelectStmt) (names : List Bytes)
    (projected : Tuple) : Except Error (List Value) :=
  statement.orderBy.mapM fun order ↦
    match evaluate order.expr, order.expr with
    | .ok key, _ => pure key
    | .error _, .column column => resolveOutputColumn column names projected
    | .error message, _ => throw message

/-! ### Streaming aggregation -/

/-- `struct StreamProjection`: an aggregate, with no argument when it counts rows, or another expression. -/
inductive StreamProjection where
  | representative (expression : Expr)
  | aggregate (kind : AggregateKind) (argument : Option Expr)

/-- The argument of a simple aggregate, `none` inside when it counts rows; nothing when the lambda
declines. -/
def streamArgument (name : Bytes) (args : List Expr) : Option (Option Expr) :=
  match args with
  | [] => if name = lit "headcount" then some none else none
  | [.wildcard wildcard] =>
    if name = lit "headcount" then some none else some (some (.wildcard wildcard))
  | .wildcard _ :: _ => if name = lit "headcount" then some none else none
  | [argument] => some (some argument)
  | _ => none

/-- How the streaming lambda computes a column of the select list, unless it declines. -/
def streamProjection : Expr → Option StreamProjection
  | .function name args distinct _ =>
    if distinct || !isSimpleAggregateName name then none
    else (streamArgument name args).map (.aggregate (AggregateKind.ofName name))
  | expression => if hasAggregate expression then none else some (.representative expression)

/-- The plan of the streaming lambda, unless it declines. -/
def streamProjections (statement : SelectStmt) : Option (List StreamProjection) :=
  if statement.having.isSome || statement.distinct || !statement.orderBy.isEmpty ||
      statement.limit.isSome || statement.offset.isSome then
    none
  else statement.columns.mapM streamProjection

/-- What a group keeps for one column: its entries in the two vectors of `StreamGroupState`. -/
structure StreamColumnState where
  representative : Value := .null
  aggregate : AggregateState := {}

namespace StreamProjection

/-- One row taken into the state of a column. -/
def step (state : StreamColumnState) (row : EvalRow) :
    StreamProjection → Except Error StreamColumnState
  | representative expression =>
    if state.representative.isNull then do
      pure { state with representative := ← eval expression row }
    else pure state
  | aggregate _ none => pure { state with aggregate := state.aggregate.countRow }
  | aggregate kind (some argument) => do
    pure { state with aggregate := ← state.aggregate.add kind (← eval argument row) }

/-- The value of a column. -/
def result (state : StreamColumnState) : StreamProjection → Value
  | representative _ => state.representative
  | aggregate kind _ => state.aggregate.result kind

end StreamProjection

/-- The state of a group before its first row. -/
def streamInitial (projections : List StreamProjection) : List StreamColumnState :=
  projections.map fun _ ↦ {}

/-- One row taken into the state of its group. -/
def streamStep : List StreamProjection → List StreamColumnState → EvalRow →
    Except Error (List StreamColumnState)
  | projection :: projections, state :: states, row => do
    let state ← projection.step state row
    let states ← streamStep projections states row
    pure (state :: states)
  | _, _, _ => pure []

/-- The output row of a group. -/
def streamResult (projections : List StreamProjection) (states : List StreamColumnState) : Tuple :=
  projections.zipWith (fun projection state ↦ projection.result state) states

/-- The key that a row is grouped by. -/
def groupKey (groupBy : List Expr) (row : EvalRow) : Except Error Tuple :=
  groupBy.mapM fun expression ↦ eval expression row

/-- The groups before the first row: one, with the empty key, when nothing is grouped by. -/
def initialGroups {σ : Type} (groupBy : List Expr) (initial : σ) : List (Tuple × σ) :=
  if groupBy.isEmpty then [([], initial)] else []

/-- The order in which the hash maps of the groups are gone through. All of them have `TupleKeyHash` and
`TupleKeyEqual`. -/
abbrev GroupOrder : Type :=
  KeyedGroups.MapOrder Tuple

/-- The rows of `tryStreamingAggregation`, with its plan. -/
def streamed (order : GroupOrder) (groupBy : List Expr) (projections : List StreamProjection) (rows : List EvalRow) :
    Except Error (List Tuple) := do
  let initial := streamInitial projections
  let groups ← KeyedGroups.accumulate initial (groupKey groupBy) (streamStep projections)
    (initialGroups groupBy initial) rows
  pure ((order.entries groups).map fun group ↦ streamResult projections group.2)

/-! ### Grouping over stored rows -/

/-- The rows of each group. -/
def groupRows (groupBy : List Expr) (rows : List EvalRow) : Except Error (List (Tuple × List EvalRow)) :=
  if groupBy.isEmpty then pure [([], rows)]
  else KeyedGroups.collect (groupKey groupBy) [] rows

/-- Whether a group passes HAVING. -/
def passesHaving (condition : Option Expr) (rows : List EvalRow) : Except Error Bool :=
  match condition with
  | some condition => do pure (← evalGrouped condition rows).asBoolean
  | none => pure true

/-- The output row of a group, unless HAVING excludes it. -/
def materializedRow (statement : SelectStmt) (names : List Bytes) (rows : List EvalRow) :
    Except Error (Option OutputRow) := do
  let included ← passesHaving statement.having rows
  if included then do
    let values ← projectGrouped statement rows
    let orderKeys ← orderKeysBy (evalGrouped · rows) statement names values
    pure (some { values, orderKeys })
  else pure none

/-- The branch of `executeSelect` that stores the rows of the groups. -/
def materialized (order : GroupOrder) (statement : SelectStmt) (names : List Bytes) (rows : List EvalRow) :
    Except Error (List OutputRow) := do
  let groups ← groupRows statement.groupBy rows
  let output ← (order.entries groups).mapM fun group ↦ materializedRow statement names group.2
  pure output.reduceOption

/-! ### The pipeline -/

/-- Whether the rows are grouped. -/
def SelectStmt.grouped (statement : SelectStmt) : Bool :=
  !statement.groupBy.isEmpty || selectHasAggregate statement

/-- The output rows of a grouped statement. -/
def groupedOutput (order : GroupOrder) (statement : SelectStmt) (names : List Bytes) (rows : List EvalRow) :
    Except Error (List OutputRow) :=
  match streamProjections statement with
  | some projections => do
    let output ← streamed order statement.groupBy projections rows
    pure (output.map fun values ↦ { values })
  | none => materialized order statement names rows

/-- The first call of `biggest-W` or `biggest-L` in the select list, when it has an argument: whether it
sorts downwards, and by what. -/
def wholeRowCall : List Expr → Option (Bool × Expr)
  | [] => none
  | .function name args _ _ :: columns =>
    if name = lit "biggest-W" ∨ name = lit "biggest-L" then
      args.head?.map fun argument ↦ (name == lit "biggest-W", argument)
    else wholeRowCall columns
  | _ :: columns => wholeRowCall columns

/-- The best row by `biggest-W` or `biggest-L`: the front of a stable sort. One row is not compared. -/
def wholeRowBest (descending : Bool) (argument : Expr) (rows : List EvalRow) :
    Except Error (List EvalRow) :=
  if rows.length ≤ 1 then pure rows
  else do
    let keyed ← rows.mapM fun row ↦ do pure (← eval argument row, row)
    let sorted := keyed.mergeSort fun left right ↦
      if descending then !(right.1.compare left.1).isGT else !(right.1.compare left.1).isLT
    pure ((sorted.take 1).map (·.2))

/-- The rows that a call of `biggest-W` or `biggest-L` leaves. -/
def bestRows (wholeRow : Option (Bool × Expr)) (rows : List EvalRow) : Except Error (List EvalRow) :=
  match wholeRow with
  | some (descending, argument) => wholeRowBest descending argument rows
  | none => pure rows

/-- The output rows of a statement without grouping. -/
def plainOutput (statement : SelectStmt) (wholeRow : Bool) (names : List Bytes) (rows : List EvalRow) :
    Except Error (List OutputRow) :=
  rows.mapM fun row ↦ do
    let values ← if wholeRow then pure row.values else project statement row rows
    let orderKeys ← orderKeysBy (eval · row) statement names values
    pure { values, orderKeys }

/-- The rows on which the condition holds. -/
def filterRows (condition : Option Expr) (rows : List EvalRow) : Except Error (List EvalRow) :=
  match condition with
  | none => pure rows
  | some condition => rows.filterM fun row ↦ do pure (← eval condition row).asBoolean

/-- DISTINCT: the rows of which no earlier one is equal. -/
def distinctRows (output : List OutputRow) : List OutputRow :=
  output.foldl (fun kept row ↦ if kept.any (·.values == row.values) then kept else kept ++ [row]) []

/-- The comparison of ORDER BY: whether the left row comes first. -/
def orderPrecedes : List OrderItem → List Value → List Value → Bool
  | order :: orders, left :: lefts, right :: rights =>
    let comparison := left.compare right
    if comparison.isEq then orderPrecedes orders lefts rights
    else if order.asc then comparison.isLT else comparison.isGT
  | _, _, _ => false

/-- ORDER BY: a stable sort. -/
def orderRows (statement : SelectStmt) (output : List OutputRow) : List OutputRow :=
  if statement.orderBy.isEmpty then output
  else output.mergeSort fun left right ↦
    !orderPrecedes statement.orderBy right.orderKeys left.orderKeys

/-- The number of rows that OFFSET or LIMIT names; a negative one is 0. -/
def rowCount (expression : Option Expr) : Nat :=
  (integerLiteral expression 0).toInt.toNat

/-- OFFSET and LIMIT. -/
def limitRows (statement : SelectStmt) (output : List OutputRow) : List OutputRow :=
  let rest := output.drop (rowCount statement.offset)
  if statement.limit.isSome then rest.take (rowCount statement.limit) else rest

/-- DISTINCT, ORDER BY, OFFSET and LIMIT. -/
def finishRows (statement : SelectStmt) (output : List OutputRow) : List Tuple :=
  let output := if statement.distinct then distinctRows output else output
  (limitRows statement (orderRows statement output)).map (·.values)

/-- `executeSelect` behind the filter. -/
def selectRows (order : GroupOrder) (catalog : Catalog) (statement : SelectStmt) (rows : List EvalRow) :
    Except Error NativeQueryResult := do
  let wholeRow := wholeRowCall statement.columns
  let rows ← bestRows wholeRow rows
  let sample := rows.head?.map fun row ↦ row.columns.getD []
  -- A whole-row call shows the columns of the best row, when there is one.
  let columns := match wholeRow.isSome, sample with
    | true, some columns => columns.map (·.name)
    | _, _ => outputNames catalog statement sample
  let output ←
    if statement.grouped then groupedOutput order statement columns rows
    else plainOutput statement wholeRow.isSome columns rows
  pure { columns, rows := finishRows statement output }

/-- `executeSelect` on the joined rows. -/
def genericSelect (order : GroupOrder) (catalog : Catalog) (statement : SelectStmt) (rows : List EvalRow) :
    Except Error NativeQueryResult := do
  selectRows order catalog statement (← filterRows statement.where' rows)

end SkibidiQL
