import SkibidiQL.Catalog.CatalogSteps
import SkibidiQL.Optimizer.ConstantFolding

/-!
# The optimizer

The passes behind constant folding: the rewrites that rely on the catalog and the removal of constant
conditions, and `optimize`, which runs all passes. The passes that only write notes into the report are
left out, with the notes.
-/

namespace SkibidiQL

open Bytes

/-! ### Columns of the base table -/

/-- `isGuaranteedNonNull`. -/
def isGuaranteedNonNull (column : ColumnMeta) : Bool :=
  column.notNull || (column.primaryKey && upper column.type == lit "INTEGER")

/-- `resolveBaseColumn`. -/
def resolveBaseColumn (catalog : Catalog) (select : SelectStmt) (column : ColumnRef) : Option ColumnMeta :=
  if !select.joins.isEmpty then none
  else if !column.table.isEmpty && column.table != select.fromTable &&
      column.table != select.fromAlias then none
  else do
    let table ← catalog.tables[select.fromTable]?
    table.columns.find? (·.name == column.column)

/-- The test of `projectsPrimaryKey` on a column of the select list. -/
def projectsKeyColumn (catalog : Catalog) (select : SelectStmt) (table : TableMeta) : Expr → Bool
  | .wildcard wildcard =>
    wildcard.covers select.fromTable select.fromAlias &&
      table.columns.any fun column ↦ column.primaryKey && isGuaranteedNonNull column
  | .column column => (resolveBaseColumn catalog select column).any fun metadata ↦
      metadata.primaryKey && isGuaranteedNonNull metadata
  | _ => false

/-- `projectsPrimaryKey`. -/
def projectsPrimaryKey (catalog : Catalog) (select : SelectStmt) : Bool :=
  select.joins.isEmpty && catalog.tables[select.fromTable]?.any fun table ↦
    select.columns.any (projectsKeyColumn catalog select table)

/-- Whether a reference is to a primary key column. -/
def refersToPrimaryKey (catalog : Catalog) (select : SelectStmt) (column : ColumnRef) : Bool :=
  (resolveBaseColumn catalog select column).any (·.primaryKey)

/-- `wherePinsPrimaryKey`. -/
def wherePinsPrimaryKey (catalog : Catalog) (select : SelectStmt) : Expr → Bool
  | .binary .and left right _ =>
    wherePinsPrimaryKey catalog select left || wherePinsPrimaryKey catalog select right
  | .binary .eq (.column column) (.literal _) _ => refersToPrimaryKey catalog select column
  | .binary .eq (.literal _) (.column column) _ => refersToPrimaryKey catalog select column
  | _ => false

/-- The test of `hasSetProducingExpression` on a column of the select list. -/
def isSetProducing : Expr → Bool
  | .window .. => true
  | .function name _ _ _ => isAggregateName name
  | _ => false

/-- `hasSetProducingExpression`. -/
def hasSetProducingExpression (select : SelectStmt) : Bool :=
  select.columns.any isSetProducing

/-! ### Counts of columns that are never null -/

/-- Whether the arguments are one column that is never null. -/
def isNonNullColumn (catalog : Catalog) (select : SelectStmt) : List Expr → Bool
  | [.column column] => (resolveBaseColumn catalog select column).any isGuaranteedNonNull
  | _ => false

section Rewrite

variable (catalog : Catalog) (select : SelectStmt)

mutual

/-- `rewriteNonNullCounts`. -/
def rewriteNonNullCounts : Expr → Expr
  | .function name args distinct alias' =>
    if name == lit "headcount" && !distinct && isNonNullColumn catalog select args then
      .function name [.wildcard {}] distinct alias'
    else .function name (rewriteArguments args) distinct alias'
  | .binary op left right alias' =>
    .binary op (rewriteNonNullCounts left) (rewriteNonNullCounts right) alias'
  | .unary op operand alias' => .unary op (rewriteNonNullCounts operand) alias'
  | expression => expression

/-- `rewriteNonNullCounts` on the arguments of a call. -/
def rewriteArguments : List Expr → List Expr
  | [] => []
  | argument :: args => rewriteNonNullCounts argument :: rewriteArguments args

end

end Rewrite

/-! ### The passes -/

/-- The removal of DISTINCT in `applyMetadataOptimizations`. -/
def dropDistinct (catalog : Catalog) (select : SelectStmt) : SelectStmt :=
  if select.distinct && projectsPrimaryKey catalog select then { select with distinct := false }
  else select

/-- Whether `applyMetadataOptimizations` takes the statement for a lookup of one row. -/
def isPointLookup (catalog : Catalog) (select : SelectStmt) : Bool :=
  (select.where'.any (wherePinsPrimaryKey catalog select)) && select.groupBy.isEmpty &&
    select.having.isNone && !hasSetProducingExpression select

/-- The rewriting of a lookup of one row: without ORDER BY, and with a LIMIT. -/
def limitLookup (catalog : Catalog) (select : SelectStmt) : SelectStmt :=
  if isPointLookup catalog select then
    { select with
      orderBy := []
      limit := select.limit.or (some (.literal (.int 1))) }
  else select

/-- The counts in the select list and in HAVING. -/
def rewriteCounts (catalog : Catalog) (select : SelectStmt) : SelectStmt :=
  { select with
    columns := select.columns.map (rewriteNonNullCounts catalog select)
    having := select.having.map (rewriteNonNullCounts catalog select) }

/-- `applyMetadataOptimizations`. -/
def applyMetadataOptimizations (catalog : Option Catalog) (select : SelectStmt) : SelectStmt :=
  match catalog with
  | none => select
  | some catalog =>
    if !select.joins.isEmpty || !(catalog.tables[select.fromTable]?).isSome then select
    else limitLookup catalog (dropDistinct catalog (rewriteCounts catalog select))

/-- `isTruthy`. -/
def isTruthy : Literal → Bool
  | .int value => value != 0
  | .float bits => Float.ofBits bits != 0
  | .string value => !value.isEmpty
  | .bool value => value
  | .nul => false

/-- A condition, unless it is a constant that holds. -/
def dropTruthy : Option Expr → Option Expr
  | some (.literal value) => if isTruthy value then none else some (.literal value)
  | condition => condition

/-- `eliminateDeadCode`. -/
def eliminateDeadCode (select : SelectStmt) : SelectStmt :=
  { select with
    where' := dropTruthy select.where'
    having := dropTruthy select.having }

/-- `Optimizer::optimize`, on a SELECT. -/
def optimizeSelect (catalog : Option Catalog) (select : SelectStmt) : SelectStmt :=
  eliminateDeadCode (applyMetadataOptimizations catalog (foldSelect select))

end SkibidiQL
