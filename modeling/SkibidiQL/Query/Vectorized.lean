import SkibidiQL.Query.DirectAggregate
import SkibidiQL.Query.TypedVector
import SkibidiQL.Storage.HeapFile

/-!
# Vectorized execution

`executeVectorizedSelect` answers a statement over one table batch by batch: it decodes the columns that the
statement reads into typed vectors, evaluates WHERE, GROUP BY and the select list on whole vectors, and then
goes through the rows of the batch.

The vectors of the select list are pointers, which are null where nothing was evaluated.
-/

namespace SkibidiQL

open Bytes

/-! ### Statements -/

/-- The names of the aggregates that `canVectorize` accepts. -/
def vectorAggregateNames : List Bytes :=
  ["headcount", "stack", "mid", "goat", "L"].map lit

/-- The lambda `supported` where aggregates are not allowed. -/
def supportedScalar : Expr → Bool
  | .literal _ | .column _ | .wildcard _ => true
  | .binary _ left right _ => supportedScalar left && supportedScalar right
  | .unary _ operand _ => supportedScalar operand
  | _ => false

/-- The lambda `supported` where they are. -/
def supportedColumn : Expr → Bool
  | .function name args _ _ =>
    vectorAggregateNames.contains name &&
      match args with
      | [] => name == lit "headcount"
      | .wildcard _ :: _ => name == lit "headcount"
      | argument :: _ => supportedScalar argument
  | expression => supportedScalar expression

/-- Whether the tree is a `FunctionCall`. -/
def Expr.isFunction : Expr → Bool
  | .function .. => true
  | _ => false

/-- `NativeEngine::canVectorize`. -/
def canVectorize (statement : SelectStmt) : Bool :=
  statement.joins.isEmpty && !statement.distinct && statement.orderBy.isEmpty && statement.limit.isNone &&
    statement.offset.isNone && statement.having.isNone && statement.where'.all supportedScalar &&
    statement.groupBy.all supportedScalar &&
    statement.columns.all fun expression ↦
      supportedColumn expression && (!hasAggregate expression || expression.isFunction)

/-! ### Columns to decode -/

/-- The lambda `requireColumn`. -/
def requireColumn (table : TableMeta) (name alias' : Bytes) (column : ColumnRef) : Except Error Nat :=
  if !column.table.isEmpty && column.table != name && column.table != alias' then
    throw (lit "Unknown table qualifier: " ++ column.table)
  else
    match table.columns.findIdx? (·.name == column.column) with
    | none => throw (lit "Unknown column: " ++ column.column)
    | some index => pure index

section Collect

variable (table : TableMeta) (name alias' : Bytes)

mutual

/-- The lambda `collectColumns`: the columns that an expression reads. -/
def collectColumns : Expr → Except Error (List Nat)
  | .column column => do pure [← requireColumn table name alias' column]
  | .wildcard _ => pure (List.range table.columns.length)
  | .binary _ left right _ => do pure ((← collectColumns left) ++ (← collectColumns right))
  | .unary _ operand _ => collectColumns operand
  | .function function args _ _ => if countWildcard function args then pure [] else collectArguments args
  | _ => pure []

/-- The columns that the arguments of a call read. -/
def collectArguments : List Expr → Except Error (List Nat)
  | [] => pure []
  | argument :: args => do pure ((← collectColumns argument) ++ (← collectArguments args))

end

end Collect

/-- The columns that the statement reads. -/
def vectorColumns (table : TableMeta) (statement : SelectStmt) : Except Error (List Nat) := do
  let columns ← (statement.where'.toList ++ statement.groupBy ++ statement.columns).mapM
    (collectColumns table statement.fromTable statement.fromAlias)
  pure (requiredColumns table columns.flatten)

/-! ### Evaluation -/

/-- `NativeEngine::VectorBatch`. -/
structure VectorBatch where
  columns : List BoundColumn
  values : List TypedVector
  rowCount : Nat

/-- `NativeEngine::resolveVectorColumn`: the loop of `resolveColumn` over the columns of the batch. -/
def resolveVectorColumn (column : ColumnRef) (batch : VectorBatch) : Except VectorError Nat :=
  thrown (resolveIndex column batch.columns)

/-- A vector of this type, filled entry by entry. -/
def collectVector (type : ValueType) (rowCount : Nat) (entry : Nat → Except VectorError Value) :
    Except VectorError TypedVector :=
  (List.range rowCount).foldlM (fun result row ↦ do result.append (← entry row)) (.ofType type)

/-- The column and the literal of a comparison that is not evaluated from two vectors, and whether the column
is on the left. -/
def columnComparison (op : BinaryOperator) (left right : Expr) : Option (ColumnRef × Literal × Bool) :=
  if comparisonOperator op then
    match left, right with
    | .column column, .literal literal => some (column, literal, true)
    | .literal literal, .column column => some (column, literal, false)
    | _, _ => none
  else none

/-- An entry of the comparison of a vector with a constant. -/
def compareEntry (op : BinaryOperator) (columnOnLeft : Bool) (values : TypedVector) (scalar : Value)
    (row : Nat) : Except VectorError Value := do
  let missing ← values.isNull row
  if missing || scalar.isNull then pure .null
  else do
    -- The type of the vector decides, not that of the entry.
    let numeric := values.type != .text && values.type != .blob && values.type != .null && scalar.isNumeric
    let order ←
      if numeric then do
        let element ← elementAt values.storage.elements row
        pure (Value.compareFloat element.toFloat scalar.toFloat)
      else do pure ((← values.value row).compare scalar)
    pure (.boolean (op.holds (if columnOnLeft then order else order.swap)))

/-- `NativeEngine::evalVector`. -/
def evalVector (batch : VectorBatch) : Expr → Except VectorError TypedVector
  | .column column => do elementAt batch.values (← resolveVectorColumn column batch)
  | .literal literal =>
    collectVector (literalValue literal).type batch.rowCount fun _ ↦ pure (literalValue literal)
  | .binary op left right _ =>
    match columnComparison op left right with
    | some (column, literal, columnOnLeft) => do
      let values ← elementAt batch.values (← resolveVectorColumn column batch)
      collectVector .boolean batch.rowCount (compareEntry op columnOnLeft values (literalValue literal))
    | none => do
      let left ← evalVector batch left
      let right ← evalVector batch right
      -- The vector has no type yet and takes that of its first value that is not NULL.
      collectVector .null batch.rowCount fun row ↦ do
        let left ← left.value row
        let right ← right.value row
        thrown (applyBinary op left right)
  | .unary op operand _ => do
    let values ← evalVector batch operand
    collectVector .null batch.rowCount fun row ↦ do thrown (applyUnary op (← values.value row))
  | _ => throw (.thrown (lit "Unsupported vector expression"))

/-! ### Batches -/

/-- The vector that a batch has for a column, before the first row. -/
def batchVector (table : TableMeta) (column : Nat) : Except VectorError TypedVector := do
  let metadata ← elementAt table.columns column
  pure (.ofType (← thrown (declaredValueType metadata)))

/-- The name that a column of a batch is bound under. -/
def batchColumn (table : TableMeta) (name alias' : Bytes) (column : Nat) : Except VectorError BoundColumn := do
  let metadata ← elementAt table.columns column
  pure { table := name, alias', name := metadata.name }

/-- The fields of a row appended to the vectors of its columns. -/
def appendFields : List TypedVector → Tuple → Except VectorError (List TypedVector)
  | vectors, [] => pure vectors
  | vector :: vectors, field :: fields => do
    pure ((← vector.append field) :: (← appendFields vectors fields))
  | [], _ :: _ => throw .outOfRange

/-- A row appended to the vectors of the batch. -/
def appendRow (name : Bytes) (required : List Nat) (vectors : List TypedVector) (row : StoredRow) :
    Except VectorError (List TypedVector) :=
  if row.values.length ≠ required.length then
    throw (.thrown (lit "Projected tuple width mismatch in " ++ name))
  else appendFields vectors row.values

/-- The batch of these rows, of which the columns have been decoded. -/
def makeBatch (table : TableMeta) (name alias' : Bytes) (required : List Nat) (stored : List StoredRow) :
    Except VectorError VectorBatch := do
  let columns ← required.mapM (batchColumn table name alias')
  let vectors ← required.mapM (batchVector table)
  let values ← stored.foldlM (appendRow name required) vectors
  pure { columns, values, rowCount := stored.length }

/-- The vector of WHERE. -/
def predicateVector (batch : VectorBatch) : Option Expr → Except VectorError TypedVector
  | some expression => evalVector batch expression
  | none => collectVector .boolean batch.rowCount fun _ ↦ pure (.boolean true)

/-- The vector of a column of the select list, if one is evaluated. -/
def projectVector (batch : VectorBatch) : Expr → Except VectorError (Option TypedVector)
  | .function _ args _ _ =>
    match args with
    | [] => pure none
    | .wildcard _ :: _ => pure none
    | argument :: _ => do pure (some (← evalVector batch argument))
  | .wildcard _ => pure none
  | expression => do pure (some (← evalVector batch expression))

/-! ### Rows -/

/-- `struct AggregateState` of `executeVectorizedSelect`. -/
structure VectorAggregate where
  count : Nat := 0
  sum : Float := 0
  allIntegers : Bool := true
  extremum : Option Value := none
  distinct : List Value := []

/-- `struct GroupState`. -/
structure VectorGroup where
  representatives : Tuple := []
  aggregates : List VectorAggregate := []

/-- What the rows so far have made: the groups, or the output rows. -/
structure VectorState where
  groups : List (Tuple × VectorGroup) := []
  rows : List Tuple := []

namespace VectorAggregate

/-- A number taken in. -/
def addNumber (state : VectorAggregate) (value : Value) (integer : Bool) : VectorAggregate :=
  { state with
    count := state.count + 1
    sum := state.sum + value.toFloat
    allIntegers := state.allIntegers && integer }

/-- A value taken in that no shortcut has taken. -/
def addValue (name : Bytes) (state : VectorAggregate) (value : Value) : Except Error VectorAggregate :=
  if name = lit "headcount" then pure { state with count := state.count + 1 }
  else if name = lit "stack" ∨ name = lit "mid" then
    -- A boolean is a number but no integer, so it makes the sum a double.
    if value.isNumeric then pure (state.addNumber value (value.type == .integer))
    else throw (lit "Numeric aggregate on non-number")
  else
    let better (best : Value) : Bool :=
      (name == lit "goat" && (value.compare best).isGT) || (name == lit "L" && (value.compare best).isLT)
    pure { state with
      count := state.count + 1
      extremum := match state.extremum with
        | none => some value
        | some best => if better best then some value else some best }

/-- The value behind the check of DISTINCT. -/
def addDistinct (name : Bytes) (distinct : Bool) (state : VectorAggregate) (value : Value) :
    Except Error VectorAggregate :=
  if distinct then
    if state.distinct.any (· == value) then pure state
    else addValue name { state with distinct := state.distinct ++ [value] } value
  else addValue name state value

/-- The step of an aggregate on a row of its vector. -/
def step (name : Bytes) (distinct : Bool) (vector : TypedVector) (row : Nat) (state : VectorAggregate) :
    Except VectorError VectorAggregate := do
  let missing ← vector.isNull row
  if missing then pure state
  else if !distinct && name == lit "headcount" then pure { state with count := state.count + 1 }
  else if !distinct && (name == lit "stack" || name == lit "mid") &&
      (vector.type == .integer || vector.type == .real || vector.type == .boolean) then do
    let element ← elementAt vector.storage.elements row
    pure (state.addNumber element (vector.type == .integer))
  else do
    let value ← vector.value row
    thrown (addDistinct name distinct state value)

/-- The value of the aggregate. -/
def result (name : Bytes) (state : VectorAggregate) : Value :=
  if name = lit "headcount" then countValue state.count
  else if state.count = 0 then .null
  else if name = lit "mid" then .ofFloat (state.sum / floatOfNat state.count)
  else if name = lit "stack" then
    if state.allIntegers then .integer (truncate state.sum) else .ofFloat state.sum
  else state.extremum.getD .null

end VectorAggregate

/-- The lambda `initializeGroup`. -/
def initializeGroup (width : Nat) (group : VectorGroup) : VectorGroup :=
  if !group.representatives.isEmpty || !group.aggregates.isEmpty then group
  else { representatives := List.replicate width .null, aggregates := List.replicate width {} }

/-- The step of a column of the select list on a row of its group. -/
def groupColumn (projected : List (Option TypedVector)) (row : Nat) (expression : Expr) (index : Nat)
    (group : VectorGroup) : Except VectorError VectorGroup :=
  match expression with
  | .function name args distinct _ => do
    let state ← elementAt group.aggregates index
    let state ←
      -- Counting rows reads no vector.
      if countWildcard name args then pure { state with count := state.count + 1 }
      else do state.step name distinct (← dereference (← elementAt projected index)) row
    pure { group with aggregates := group.aggregates.set index state }
  | _ => do
    let representative ← elementAt group.representatives index
    if representative.isNull then do
      let value ← (← dereference (← elementAt projected index)).value row
      pure { group with representatives := group.representatives.set index value }
    else pure group

/-- The steps of the columns from an index on. -/
def groupColumns (projected : List (Option TypedVector)) (row : Nat) :
    List Expr → Nat → VectorGroup → Except VectorError VectorGroup
  | [], _, group => pure group
  | expression :: columns, index, group => do
    let group ← groupColumn projected row expression index group
    groupColumns projected row columns (index + 1) group

/-- The values that a column of the select list has on a row without grouping. -/
def outputColumn (batch : VectorBatch) (projected : List (Option TypedVector)) (row : Nat) (index : Nat) :
    Expr → Except VectorError Tuple
  | .wildcard wildcard =>
    ((batch.columns.zipIdx.filter fun item ↦ wildcard.covers item.1.table item.1.alias')).mapM fun item ↦ do
      (← elementAt batch.values item.2).value row
  | _ => do pure [← (← dereference (← elementAt projected index)).value row]

/-- The output row from an index on. -/
def outputColumns (batch : VectorBatch) (projected : List (Option TypedVector)) (row : Nat) :
    List Expr → Nat → Except VectorError Tuple
  | [], _ => pure []
  | expression :: columns, index => do
    let values ← outputColumn batch projected row index expression
    pure (values ++ (← outputColumns batch projected row columns (index + 1)))

/-- A row of the batch. -/
def vectorRow (statement : SelectStmt) (batch : VectorBatch) (predicate : TypedVector)
    (groupVectors : List TypedVector) (projected : List (Option TypedVector)) (state : VectorState)
    (row : Nat) : Except VectorError VectorState := do
  let selected ← predicate.value row
  if !selected.asBoolean then pure state
  else if !statement.grouped then do
    let output ← outputColumns batch projected row statement.columns 0
    pure { state with rows := state.rows ++ [output] }
  else do
    let key ← groupVectors.mapM (·.value row)
    let groups ← KeyedGroups.modifyAt {} (fun group ↦
      groupColumns projected row statement.columns 0 (initializeGroup statement.columns.length group))
      key state.groups
    pure { state with groups }

/-- The lambda that `executeVectorizedSelect` hands to the scan. -/
def vectorBatch (table : TableMeta) (required : List Nat) (statement : SelectStmt) (state : VectorState)
    (stored : List StoredRow) : Except VectorError VectorState := do
  let batch ← makeBatch table statement.fromTable statement.fromAlias required stored
  let predicate ← predicateVector batch statement.where'
  let groupVectors ← statement.groupBy.mapM (evalVector batch)
  let projected ← statement.columns.mapM (projectVector batch)
  (List.range batch.rowCount).foldlM (vectorRow statement batch predicate groupVectors projected) state

/-- A column of the output row of a group. -/
def groupOutputColumn (group : VectorGroup) (index : Nat) : Expr → Except VectorError Value
  | .function name _ _ _ => do pure ((← elementAt group.aggregates index).result name)
  | _ => elementAt group.representatives index

/-- The output row of a group. -/
def groupOutput (statement : SelectStmt) (group : VectorGroup) : Except VectorError Tuple :=
  let group := initializeGroup statement.columns.length group
  statement.columns.zipIdx.mapM fun item ↦ groupOutputColumn group item.2 item.1

/-- The rows of the table with the fields that are decoded. -/
def decodedRows (db : Database) (name : Bytes) (required : List Nat) : Except Error (List StoredRow) :=
  (db.stored name).mapM fun row ↦ do pure { row with values := ← rawFields required row }

/-- `HeapFile::scanProjectedBatches` on the heap of the table: what the visitor is given. -/
def scanProjectedBatches (db : Database) (name : Bytes) (required : List Nat) (batchSize : Nat) :
    Except Error (List (List StoredRow)) :=
  if batchSize = 0 then throw (lit "Heap scan batch size must be positive")
  else do pure (batches batchSize (← decodedRows db name required))

/-- The state before the first batch. -/
def vectorInitial (statement : SelectStmt) : VectorState :=
  { groups := if statement.grouped && statement.groupBy.isEmpty then [([], {})] else [] }

/-- `NativeEngine::executeVectorizedSelect`: the answer, unless the function declines. -/
def executeVectorizedSelect (order : GroupOrder) (batchSize : Nat) (db : Database) (statement : SelectStmt) :
    Except VectorError (Option NativeQueryResult) :=
  if !canVectorize statement then pure none
  else do
    let table ← thrown (db.table statement.fromTable)
    let required ← thrown (vectorColumns table statement)
    let scanned ← thrown (scanProjectedBatches db statement.fromTable required batchSize)
    let state ← scanned.foldlM (vectorBatch table required statement) (vectorInitial statement)
    let rows ← if statement.grouped then
        (order.entries state.groups).mapM fun group ↦ groupOutput statement group.2
      else pure state.rows
    pure (some { columns := outputNames db.catalog statement none, rows })

end SkibidiQL
