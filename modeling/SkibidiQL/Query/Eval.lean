import SkibidiQL.Query.Ast
import SkibidiQL.Storage.ValueText

/-!
# Evaluation of expressions

`eval` on one row, and `evalGrouped` with the aggregates over the rows of a group. An exception is an
`Except.error` with its message; what was computed before it is lost, as in the source.

A hash set is the list of its elements, searched with `==`: hashing agrees with that equality.
-/

namespace SkibidiQL

open Bytes

/-- `NativeEngine::BoundColumn`: a column of a row, under the table and the alias it comes from. -/
structure BoundColumn where
  table : Bytes
  alias' : Bytes
  name : Bytes
deriving DecidableEq

/-- `NativeEngine::EvalRow`. The columns are missing in the row that a constant is evaluated on. -/
structure EvalRow where
  columns : Option (List BoundColumn) := none
  values : Tuple := []
deriving DecidableEq

/-! ### Columns -/

/-- Whether a reference names the candidate column. -/
def ColumnRef.names (column : ColumnRef) (candidate : BoundColumn) : Bool :=
  let qualifierMatches := column.table.isEmpty || column.table == candidate.table ||
    (!candidate.alias'.isEmpty && column.table == candidate.alias')
  candidate.name == column.column && qualifierMatches

/-- The name of a column in an error message. -/
def ColumnRef.text (column : ColumnRef) : Bytes :=
  (if column.table.isEmpty then [] else column.table ++ lit ".") ++ column.column

/-- The loop of `resolveColumn` over the remaining columns: the position of the last one that the reference
names; an unqualified reference must name only one. -/
def resolveColumnFrom (column : ColumnRef) :
    List BoundColumn → Nat → Option Nat → Except Error (Option Nat)
  | [], _, result => pure result
  | candidate :: rest, index, result =>
    if column.names candidate then
      if result.isSome && column.table.isEmpty then
        throw (lit "Ambiguous column: " ++ column.column)
      else resolveColumnFrom column rest (index + 1) (some index)
    else resolveColumnFrom column rest (index + 1) result

/-- The position of the column that a reference names. -/
def resolveIndex (column : ColumnRef) (columns : List BoundColumn) : Except Error Nat := do
  match ← resolveColumnFrom column columns 0 none with
  | some index => pure index
  | none => throw (lit "Unknown column: " ++ column.text)

/-- `NativeEngine::resolveColumn`. -/
def resolveColumn (column : ColumnRef) (row : EvalRow) : Except Error Value :=
  match row.columns with
  | none => throw (lit "Expression row has no schema")
  | some columns => do
    let index ← resolveIndex column columns
    pure (row.values.getD index .null)

/-! ### Operators -/

/-- `literalValue`. -/
def literalValue : Literal → Value
  | .int value => .integer value
  | .float bits => .real bits
  | .string value => .text value
  | .nul => .null
  | .bool value => .boolean value

/-- An arithmetic operation: on integers when both operands are integers, on doubles otherwise. -/
def applyArithmetic (onIntegers : Int64 → Int64 → Int64) (onReals : Float → Float → Float) :
    Value → Value → Value
  | .integer m, .integer n => .integer (onIntegers m n)
  | left, right => .ofFloat (onReals left.toFloat right.toFloat)

/-- The part of `applyBinary` behind the check that both operands are numbers, which the operators above
the check do not reach. -/
def applyNumeric (op : BinaryOperator) (left right : Value) : Except Error Value :=
  match op with
  | .add => pure (applyArithmetic (· + ·) (· + ·) left right)
  | .sub => pure (applyArithmetic (· - ·) (· - ·) left right)
  | .mul => pure (applyArithmetic (· * ·) (· * ·) left right)
  | .div =>
    if right.toFloat == 0 then pure .null
    else pure (applyArithmetic (· / ·) (· / ·) left right)
  | .other op => throw (lit "Unsupported binary operator: " ++ op)
  | _ => throw (lit "Unsupported binary operator: ")

/-- The comparison that an operator asks for, of an order of its operands. -/
def BinaryOperator.holds (op : BinaryOperator) (order : Ordering) : Bool :=
  match op with
  | .lt => order.isLT
  | .gt => order.isGT
  | .le => order.isLE
  | .ge => order.isGE
  | .eq => order.isEq
  | .ne => order.isNe
  | _ => false

/-- `NativeEngine::applyBinary`. -/
def applyBinary (op : BinaryOperator) (left right : Value) : Except Error Value :=
  match op with
  | .and => pure (.boolean (left.asBoolean && right.asBoolean))
  | .or => pure (.boolean (left.asBoolean || right.asBoolean))
  | op =>
    if left.isNull || right.isNull then pure .null
    else match op with
      | .eq => pure (.boolean (left == right))
      | .ne => pure (.boolean (left != right))
      | .lt | .gt | .le | .ge => pure (.boolean (op.holds (left.compare right)))
      | .concat => pure (.text (left.toString ++ right.toString))
      | op =>
        if left.isNumeric && right.isNumeric then applyNumeric op left right
        else throw (lit "Arithmetic requires numeric operands")

/-- `NativeEngine::applyUnary`. -/
def applyUnary (op : UnaryOperator) (value : Value) : Except Error Value :=
  match op with
  -- NOT of NULL is true, since NULL counts as false.
  | .not => pure (.boolean (!value.asBoolean))
  | op =>
    if value.isNull then pure .null
    else match op, value with
      | .neg, .integer n => pure (.integer (-n))
      | .neg, value =>
        if value.isNumeric then pure (.ofFloat (-value.toFloat))
        else throw (lit "Unsupported unary operator: -")
      | .other op, _ => throw (lit "Unsupported unary operator: " ++ op)
      | .not, _ => throw (lit "Unsupported unary operator: NOT")

/-! ### Aggregates -/

/-- `isLoneWolfName`. -/
def isLoneWolfName (name : Bytes) : Bool :=
  name == lit "LONE-WOLF" || name == lit "lone-wolf"

/-- `isSimpleAggregateName`. -/
def isSimpleAggregateName (name : Bytes) : Bool :=
  name == lit "headcount" || name == lit "stack" || name == lit "mid" ||
    name == lit "goat" || name == lit "L" || isLoneWolfName name

/-- The names that `hasAggregate` knows. -/
def isAggregateName (name : Bytes) : Bool :=
  name == lit "headcount" || name == lit "stack" || name == lit "mid" ||
    name == lit "goat" || name == lit "L" || name == lit "mid-fr" ||
    name == lit "percent-check" || isLoneWolfName name

/-- `NativeEngine::hasAggregate`. -/
def hasAggregate : Expr → Bool
  | .function name _ _ _ => isAggregateName name
  | .binary _ left right _ => hasAggregate left || hasAggregate right
  | .unary _ operand _ => hasAggregate operand
  | _ => false

/-- `NativeEngine::selectHasAggregate`. -/
def selectHasAggregate (statement : SelectStmt) : Bool :=
  statement.columns.any hasAggregate || statement.having.any hasAggregate

/-- A count as a double. -/
def floatOfNat (n : Nat) : Float :=
  .ofModel (.ofInt n)

/-- `std::max<double>`: the first unless it is less. -/
def floatMax (x y : Float) : Float :=
  if x < y then y else x

/-- `countLoneWolves`: how many samples lie more than three standard deviations off the mean. -/
def countLoneWolves (samples : List Float) : Nat :=
  if samples.length < 2 then 0
  else
    let sum := samples.foldl (· + ·) 0
    let sumSquares := samples.foldl (fun sum value ↦ sum + value * value) 0
    let count := floatOfNat samples.length
    let mean := sum / count
    -- Rounding may make the difference negative.
    let variance := floatMax 0 (sumSquares / count - mean * mean)
    let sigma := variance.sqrt
    if sigma == 0 then 0
    else (samples.filter fun value ↦ sigma * 3 < (value - mean).abs).length

/-- A count as a value. -/
def countValue (n : Nat) : Value :=
  .integer (Int64.ofNat n)

/-! ### Rows -/

/-- `NativeEngine::eval`. -/
def eval (expression : Expr) (row : EvalRow) : Except Error Value :=
  match expression with
  | .literal value => pure (literalValue value)
  | .column column => resolveColumn column row
  | .binary op left right _ => do applyBinary op (← eval left row) (← eval right row)
  | .unary op operand _ => do applyUnary op (← eval operand row)
  | .wildcard _ => throw (lit "Wildcard is not a scalar expression")
  | .function name _ _ _ =>
    if isAggregateName name then throw (lit "Aggregate used outside grouped evaluation")
    else throw (lit "Unknown scalar function: " ++ name)
  | .window .. | .subquery => throw (lit "Unsupported native expression")

/-- The values of an expression on the rows, without the nulls. -/
def nonNullValues (argument : Expr) (rows : List EvalRow) : Except Error (List Value) := do
  let values ← rows.mapM (eval argument)
  pure (values.filter fun value ↦ !value.isNull)

/-- The values of which no earlier one is equal: what a hash set accepts. -/
def distinctValues (values : List Value) : List Value :=
  values.foldl (fun seen value ↦ if seen.any (· == value) then seen else seen ++ [value]) []

/-- The numbers among which a numeric aggregate works. -/
def numericValues (message : Bytes) (values : List Value) : Except Error (List Float) :=
  values.mapM fun value ↦ if value.isNumeric then pure value.toFloat else throw message

/-- The greatest value, the first of those that are equal; with `better` reversed, the least. -/
def extremum (better : Ordering → Bool) : List Value → Value
  | [] => .null
  | first :: rest =>
    rest.foldl (fun result value ↦ if better (value.compare result) then value else result) first

/-- The values in the order of `Value::compare`. -/
def sortValues (values : List Value) : List Value :=
  values.mergeSort fun left right ↦ !(right.compare left).isLT

/-- The value in the middle, or the mean of the two in the middle when they are numbers. -/
def median (values : List Value) : Value :=
  let values := sortValues values
  let middle := values.length / 2
  let upper := values.getD middle .null
  let lower := values.getD (middle - 1) .null
  if values.length % 2 = 1 then upper
  else if lower.isNumeric && upper.isNumeric then
    .ofFloat ((lower.toFloat + upper.toFloat) / 2)
  else lower

/-- `std::ceil` of a double that is not negative. -/
def ceilNat (x : Float) : Nat :=
  let whole := x.toModel.toUInt64.toNat
  if floatOfNat whole < x then whole + 1 else whole

/-- The value at a percentile. -/
def percentileValue (values : List Value) (percentile : Float) : Value :=
  let clamped := if percentile < 0 then 0 else if 100 < percentile then 100 else percentile
  let rank := ceilNat (floatOfNat values.length * clamped / 100)
  (sortValues values).getD (max 1 rank - 1) .null

/-- `NativeEngine::aggregate`. -/
def aggregate (name : Bytes) (args : List Expr) (distinct : Bool) (rows : List EvalRow) :
    Except Error Value :=
  if name = lit "headcount" then
    match args with
    | [] | .wildcard _ :: _ => pure (countValue rows.length)
    | argument :: _ => do
      let values ← nonNullValues argument rows
      pure (countValue (if distinct then distinctValues values else values).length)
  -- No other aggregate looks at DISTINCT.
  else match args with
    | [] => throw (lit "Aggregate requires an argument")
    | argument :: others => do
      let values ← nonNullValues argument rows
      if values.isEmpty then pure .null
      else if name = lit "stack" || name = lit "mid" then
        let numbers ← numericValues (lit "Numeric aggregate on non-number") values
        let sum := numbers.foldl (· + ·) 0
        if name = lit "mid" then pure (.ofFloat (sum / floatOfNat values.length))
        -- Integers are added as doubles, and the sum is truncated.
        else if values.all fun value ↦ value.type == .integer then pure (.integer (truncate sum))
        else pure (.ofFloat sum)
      else if name = lit "goat" then pure (extremum Ordering.isGT values)
      else if name = lit "L" then pure (extremum Ordering.isLT values)
      else if isLoneWolfName name then
        let samples ← numericValues (lit "LONE-WOLF requires numeric operands") values
        pure (countValue (countLoneWolves samples))
      else if name = lit "mid-fr" then pure (median values)
      else if name = lit "percent-check" then
        match others, rows with
        | second :: _, row :: _ =>
          let percentile ← eval second row
          pure (percentileValue values (← percentile.asReal))
        | _, _ => throw (lit "percent-check requires percentile")
      else throw (lit "Unsupported aggregate: " ++ name)

/-- `NativeEngine::evalGrouped`. -/
def evalGrouped (expression : Expr) (rows : List EvalRow) : Except Error Value :=
  match expression with
  | .binary op left right _ => do
    applyBinary op (← evalGrouped left rows) (← evalGrouped right rows)
  | .unary op operand _ => do applyUnary op (← evalGrouped operand rows)
  | .function name args distinct alias' =>
    if isAggregateName name then aggregate name args distinct rows
    else match rows with
      | [] => pure .null
      | row :: _ => eval (.function name args distinct alias') row
  | expression =>
    match rows with
    | [] => pure .null
    | row :: _ => eval expression row

end SkibidiQL
