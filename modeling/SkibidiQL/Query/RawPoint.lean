import SkibidiQL.Query.PrimaryKey
import SkibidiQL.Query.TableColumns

/-!
# The raw point select

`executeRawPointSelect` answers a SELECT on one table whose WHERE is an equation of the primary key with a
literal. It coerces the literal to the type of the key and returns the row that the index has for it; the
equation itself is not evaluated.
-/

namespace SkibidiQL

open Bytes

/-! ### The fast path -/

/-- The checks on the clauses of the statement. -/
def rawPointShape (statement : SelectStmt) : Bool :=
  let positiveLimit := statement.limit.isNone || decide (0 < integerLiteral statement.limit (-1))
  statement.joins.isEmpty && !statement.distinct && statement.having.isNone &&
    statement.orderBy.isEmpty && positiveLimit && statement.offset.isNone &&
    statement.groupBy.isEmpty && !selectHasAggregate statement

/-- The check on the condition. -/
def isEquation : Option Expr → Bool
  | some (.binary .eq _ _ _) => true
  | _ => false

/-- The positions that a select list of columns and wildcards projects; nothing when it holds another
expression. -/
def rawProjection (table : TableMeta) (name alias' : Bytes) : List Expr → Except Error (Option (List Nat))
  | [] => pure (some [])
  | .wildcard wildcard :: rest =>
    if wildcard.covers name alias' then do
      let positions ← rawProjection table name alias' rest
      pure (positions.map (List.range table.columns.length ++ ·))
    else pure none
  | .column column :: rest => do
    let index ← resolveTableColumn table name alias' column
    let positions ← rawProjection table name alias' rest
    pure (positions.map (index :: ·))
  | _ :: _ => pure none

/-- The row id that the index has for a key. -/
def lookupRowId (entries : List (Value × RowId)) (key : Value) : Except Error (Option RowId) := do
  let index ← buildIndex entries
  pure (index.find Value.compare key)

/-- The output row, from the decoded fields of the stored row. -/
def rawPointRow (table : TableMeta) (projection : List Nat) (row : StoredRow) : Except Error Tuple := do
  let required := requiredColumns table projection
  let fields ← rawFields required row
  projection.mapM (fieldAt (lit "Raw point column was not decoded") required fields)

/-- The answer for the row id that the index has. A row that is not there any more makes the function
decline. -/
def rawPointAnswer (db : Database) (statement : SelectStmt) (table : TableMeta) (projection : List Nat)
    (id : Option RowId) : Except Error (Option NativeQueryResult) :=
  let columns := outputNames db.catalog statement none
  match id with
  | none => pure (some { columns, rows := [] })
  | some id =>
    match db.read statement.fromTable id with
    | none => pure none
    | some row => do
      let tuple ← rawPointRow table projection row
      pure (some { columns, rows := [tuple] })

/-- `executeRawPointSelect` from the key on. -/
def rawPointByKey (db : Database) (entries : List (Value × RowId)) (statement : SelectStmt) (key : Value) :
    Except Error (Option NativeQueryResult) := do
  let table ← db.table statement.fromTable
  match ← rawProjection table statement.fromTable statement.fromAlias statement.columns with
  | none => pure none
  | some projection => do
    let id ← lookupRowId entries key
    rawPointAnswer db statement table projection id

/-- `NativeEngine::executeRawPointSelect`. The index of the primary key has received the entries in their
order. -/
def executeRawPointSelect (db : Database) (entries : List (Value × RowId)) (statement : SelectStmt) :
    Except Error (Option NativeQueryResult) :=
  if !rawPointShape statement || !isEquation statement.where' then pure none
  else do
    match ← primaryKeyPredicate db.catalog statement.fromTable statement.fromAlias statement.where' with
    | none => pure none
    | some key => rawPointByKey db entries statement key

end SkibidiQL
