import SkibidiQL.Storage.Value

/-!
# Expressions and SELECT statements

The syntax trees of `ast.h`, as far as the engine reads them to answer a SELECT. Source positions are left
out. Operators are the strings that the evaluator compares with, one constructor each; `other` stands for
any string that it compares with in vain. A nested SELECT evaluates to an error whatever it holds.
-/

namespace SkibidiQL

/-- `struct Literal`, by its kind. -/
inductive Literal where
  | int (value : Int64)
  | float (bits : UInt64)
  | string (value : Bytes)
  | nul
  | bool (value : Bool)
deriving DecidableEq

/-- `struct ColumnRef`. -/
structure ColumnRef where
  table : Bytes := []
  column : Bytes
  alias' : Bytes := []
deriving DecidableEq

/-- `struct Wildcard`. -/
structure Wildcard where
  table : Bytes := []
  alias' : Bytes := []
deriving DecidableEq

/-- `BinaryOp::op`. -/
inductive BinaryOperator where
  | and | or
  | eq | ne | lt | gt | le | ge
  | concat
  | add | sub | mul | div
  | other (op : Bytes)
deriving DecidableEq

/-- `UnaryOp::op`. -/
inductive UnaryOperator where
  | not
  | neg
  | other (op : Bytes)
deriving DecidableEq

/-- The expressions among the syntax trees. -/
inductive Expr where
  | literal (value : Literal)
  | column (column : ColumnRef)
  | wildcard (wildcard : Wildcard)
  | binary (op : BinaryOperator) (left right : Expr) (alias' : Bytes)
  | unary (op : UnaryOperator) (operand : Expr) (alias' : Bytes)
  | function (name : Bytes) (args : List Expr) (distinct : Bool) (alias' : Bytes)
  | window (funcName : Bytes) (partitionBy : List Expr) (orderBy : List (Expr × Bool)) (alias' : Bytes)
  | subquery

/-- Induction on the operators of an expression. Nothing is assumed of the arguments of a function, which
the evaluator of expressions does not descend into. -/
@[elab_as_elim]
theorem Expr.operatorInduction {motive : Expr → Prop} (literal : ∀ value, motive (.literal value))
    (column : ∀ column, motive (.column column)) (wildcard : ∀ wildcard, motive (.wildcard wildcard))
    (binary : ∀ op left right alias', motive left → motive right → motive (.binary op left right alias'))
    (unary : ∀ op operand alias', motive operand → motive (.unary op operand alias'))
    (function : ∀ name args distinct alias', motive (.function name args distinct alias'))
    (window : ∀ funcName partitionBy orderBy alias',
      motive (.window funcName partitionBy orderBy alias'))
    (subquery : motive .subquery) : ∀ expression, motive expression
  | .literal value => literal value
  | .column c => column c
  | .wildcard w => wildcard w
  | .binary op left right alias' => binary op left right alias'
      (operatorInduction literal column wildcard binary unary function window subquery left)
      (operatorInduction literal column wildcard binary unary function window subquery right)
  | .unary op operand alias' => unary op operand alias'
      (operatorInduction literal column wildcard binary unary function window subquery operand)
  | .function name args distinct alias' => function name args distinct alias'
  | .window funcName partitionBy orderBy alias' => window funcName partitionBy orderBy alias'
  | .subquery => subquery

/-- `struct OrderItem`. -/
structure OrderItem where
  expr : Expr
  asc : Bool := true

/-- `enum class JoinType`. -/
inductive JoinType where
  | inner
  | left
  | cross
deriving DecidableEq

/-- `struct JoinClause`. -/
structure JoinClause where
  type : JoinType := .inner
  table : Bytes
  alias' : Bytes := []
  condition : Option Expr := none

/-- `struct SelectStmt`. -/
structure SelectStmt where
  distinct : Bool := false
  columns : List Expr
  fromTable : Bytes
  fromAlias : Bytes := []
  joins : List JoinClause := []
  where' : Option Expr := none
  groupBy : List Expr := []
  having : Option Expr := none
  orderBy : List OrderItem := []
  limit : Option Expr := none
  offset : Option Expr := none

/-- Whether the tree is a `Wildcard`. -/
def Expr.isWildcard : Expr → Bool
  | wildcard _ => true
  | _ => false

end SkibidiQL
