import SkibidiQL.Query.Database

/-!
# SELECT row at a time

The branch of `executeSelect` that every statement can take: the scan of the base table, the joins in the
order of the statement, the filter, and the clauses behind it, with the rows of the groups stored. The Bloom
filter of a hash join, which only skips probes that find nothing, is left out, and the rows of one key are
listed in the order of their scan.
-/

namespace SkibidiQL

open Bytes

/-! ### Joins -/

/-- `belongsToRight`. -/
def JoinClause.belongsToRight (join : JoinClause) (column : ColumnRef) : Bool :=
  !column.table.isEmpty && (column.table == join.table || column.table == join.alias')

/-- `leftKey` and `rightKey`: the sides of a condition that equates a column of the joined table with
another column. -/
def JoinClause.keys (join : JoinClause) : Option (ColumnRef × ColumnRef) :=
  match join.condition with
  | some (.binary .eq (.column first) (.column second) _) =>
    if join.belongsToRight first && !join.belongsToRight second then some (second, first)
    else if join.belongsToRight second && !join.belongsToRight first then some (first, second)
    else none
  | _ => none

/-- The row with the columns of a joined row behind its own. -/
def EvalRow.combine (row : EvalRow) (schema : List BoundColumn) (values : Tuple) : EvalRow :=
  { columns := some schema, values := row.values ++ values }

/-- What a row contributes to a join: its combinations, or for a LEFT join without any, the row with
nulls. -/
def JoinClause.combinations (join : JoinClause) (schema : List BoundColumn) (width : Nat) (row : EvalRow)
    (matching : List EvalRow) : List EvalRow :=
  if matching.isEmpty && join.type == .left then [row.combine schema (List.replicate width .null)]
  else matching.map fun other ↦ row.combine schema other.values

/-- The entries of the hash table of a join under a key. -/
def hashMatches (entries : List (Value × EvalRow)) (key : Value) : List EvalRow :=
  if key.isNull then [] else (entries.filter fun entry ↦ entry.1 == key).map (·.2)

/-- The hash join of `executeSourceOrderJoins`. -/
def hashJoin (join : JoinClause) (schema : List BoundColumn) (width : Nat) (keys : ColumnRef × ColumnRef)
    (rows right : List EvalRow) : Except Error (List EvalRow) := do
  let entries ← right.mapM fun row ↦ do pure (← resolveColumn keys.2 row, row)
  let entries := entries.filter fun entry ↦ !entry.1.isNull
  let joined ← rows.mapM fun row ↦ do
    pure (join.combinations schema width row (hashMatches entries (← resolveColumn keys.1 row)))
  pure joined.flatten

/-- The nested loop of `executeSourceOrderJoins`. -/
def nestedLoopJoin (join : JoinClause) (schema : List BoundColumn) (width : Nat)
    (rows right : List EvalRow) : Except Error (List EvalRow) := do
  let joined ← rows.mapM fun row ↦ do
    let matching ← right.filterM fun other ↦
      match join.condition with
      | some condition => do pure (← eval condition (row.combine schema other.values)).asBoolean
      | none => pure true
    pure (join.combinations schema width row matching)
  pure joined.flatten

/-- `NativeEngine::boundSchema`. -/
def boundSchema (db : Database) (name alias' : Bytes) : Except Error (List BoundColumn) := do
  pure (boundColumns (← db.table name) name alias')

/-- One join of `executeSourceOrderJoins`. -/
def joinTable (db : Database) (statement : SelectStmt) (rows : List EvalRow) (join : JoinClause) :
    Except Error (List EvalRow) := do
  let right ← scanTable db join.table join.alias'
  -- A side with rows has the schema of its first row, an empty one that of its table.
  let leftSchema ← match rows with
    | row :: _ => pure (row.columns.getD [])
    | [] => boundSchema db statement.fromTable statement.fromAlias
  let rightSchema ← match right with
    | row :: _ => pure (row.columns.getD [])
    | [] => boundSchema db join.table join.alias'
  let table ← db.table join.table
  match join.keys with
  | some keys => hashJoin join (leftSchema ++ rightSchema) table.columns.length keys rows right
  | none =>
    let width := (right.head?.map (·.values.length)).getD table.columns.length
    nestedLoopJoin join (leftSchema ++ rightSchema) width rows right

/-- `NativeEngine::executeSourceOrderJoins`. -/
def executeSourceOrderJoins (db : Database) (statement : SelectStmt) (rows : List EvalRow) :
    Except Error (List EvalRow) :=
  statement.joins.foldlM (joinTable db statement) rows

/-! ### The branch -/

/-- `result.columns` of `executeSelect`, of the rows that are left. -/
def resultColumns (catalog : Catalog) (statement : SelectStmt) (rows : List EvalRow) : List Bytes :=
  let sample := rows.head?.map fun row ↦ row.columns.getD []
  match (wholeRowCall statement.columns).isSome, sample with
  | true, some columns => columns.map (·.name)
  | _, _ => outputNames catalog statement sample

/-- The output rows, with the rows of the groups stored. -/
def materializedOutput (order : GroupOrder) (statement : SelectStmt) (names : List Bytes) (rows : List EvalRow) :
    Except Error (List OutputRow) :=
  if statement.grouped then materialized order statement names rows
  else plainOutput statement (wholeRowCall statement.columns).isSome names rows

/-- `executeSelect` behind the filter, with the rows of the groups stored. -/
def materializedSelect (order : GroupOrder) (catalog : Catalog) (statement : SelectStmt) (rows : List EvalRow) :
    Except Error NativeQueryResult := do
  let rows ← bestRows (wholeRowCall statement.columns) rows
  let columns := resultColumns catalog statement rows
  let output ← materializedOutput order statement columns rows
  pure { columns, rows := finishRows statement output }

/-- The generic branch of `executeSelect`. -/
def rowSelect (order : GroupOrder) (db : Database) (statement : SelectStmt) : Except Error NativeQueryResult := do
  let base ← scanTable db statement.fromTable statement.fromAlias
  let rows ← executeSourceOrderJoins db statement base
  materializedSelect order db.catalog statement (← filterRows statement.where' rows)

/-- A statement that the streaming lambda declines is answered from the stored rows. -/
theorem selectRows_eq_materializedSelect {order : GroupOrder} {catalog : Catalog} {statement : SelectStmt}
    {rows : List EvalRow} (h : statement.grouped → streamProjections statement = none) :
    selectRows order catalog statement rows = materializedSelect order catalog statement rows := by
  unfold selectRows materializedSelect materializedOutput
  cases hgrouped : statement.grouped with
  | false => rfl
  | true =>
    have hstream (names rows) :
        groupedOutput order statement names rows = materialized order statement names rows := by
      rw [groupedOutput, h hgrouped]
    simp only [hstream]
    rfl

end SkibidiQL
