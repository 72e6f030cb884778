import SkibidiQL.Optimizer.OutputNames
import SkibidiQL.Query.RowSelect
import SkibidiQL.Query.TableColumns

/-!
# Counts of columns that are never null

Counting the values of a column without nulls counts the rows. Outside grouped evaluation the rewriting of
such counts changes nothing, because a call fails there whatever its arguments are.
-/

namespace SkibidiQL

open Bytes

variable {catalog : Catalog} {statement : SelectStmt}

/-! ### Outside the aggregates -/

/-- The evaluator of expressions does not look into a call. -/
theorem eval_rewriteNonNullCounts (catalog : Catalog) (statement : SelectStmt) (expression : Expr) :
    eval (rewriteNonNullCounts catalog statement expression) = eval expression := by
  funext row
  induction expression using Expr.operatorInduction with
  | binary op left right alias' ihl ihr => rw [rewriteNonNullCounts, eval, eval, ihl, ihr]
  | unary op operand alias' ih => rw [rewriteNonNullCounts, eval, eval, ih]
  | function name args distinct alias' =>
    rw [rewriteNonNullCounts]
    split <;> rw [eval, eval]
  | _ => rw [rewriteNonNullCounts] <;> simp

/-- Rewriting counts leaves what has an aggregate. -/
theorem hasAggregate_rewriteNonNullCounts (expression : Expr) :
    hasAggregate (rewriteNonNullCounts catalog statement expression) = hasAggregate expression := by
  induction expression using Expr.operatorInduction with
  | binary op left right alias' ihl ihr => rw [rewriteNonNullCounts, hasAggregate, hasAggregate, ihl, ihr]
  | unary op operand alias' ih => rw [rewriteNonNullCounts, hasAggregate, hasAggregate, ih]
  | function name args distinct alias' =>
    rw [rewriteNonNullCounts]
    split <;> rw [hasAggregate, hasAggregate]
  | _ => rw [rewriteNonNullCounts] <;> simp

/-- Rewriting counts leaves the values that are not NULL. -/
theorem nonNullValues_rewriteNonNullCounts (expression : Expr) (rows : List EvalRow) :
    nonNullValues (rewriteNonNullCounts catalog statement expression) rows =
      nonNullValues expression rows := by
  rw [nonNullValues, nonNullValues, eval_rewriteNonNullCounts]

/-- An aggregate evaluates its arguments on rows, where the rewriting changes nothing. -/
theorem aggregate_rewriteArguments (name : Bytes) (args : List Expr) (distinct : Bool)
    (rows : List EvalRow) : aggregate name (rewriteArguments catalog statement args) distinct rows =
      aggregate name args distinct rows := by
  have hwildcard (argument : Expr) (others : List Expr) : argument.isWildcard = false →
      aggregate (lit "headcount") (argument :: others) distinct rows =
        nonNullValues argument rows >>= fun values ↦
          pure (countValue (if distinct then distinctValues values else values).length) := by
    intro h
    unfold aggregate
    rw [if_pos rfl]
    cases argument <;> first | rfl | exact nomatch h
  cases args with
  | nil => rw [rewriteArguments]
  | cons argument others =>
    rw [rewriteArguments]
    -- Only a count tells a star from a column, and the rewriting keeps stars.
    by_cases hname : name = lit "headcount"
    · subst hname
      cases hargument : argument.isWildcard with
      | true =>
        cases argument with
        | wildcard wildcard =>
          rw [(keepsName_rewriteNonNullCounts _ _).wildcard]
          unfold aggregate
          rw [if_pos rfl, if_pos rfl]
        | _ => exact nomatch hargument
      | false =>
        have hrewritten := (keepsName_rewriteNonNullCounts catalog statement).isWildcard argument
        rw [hwildcard _ _ (hrewritten.trans hargument), hwildcard _ _ hargument,
          nonNullValues_rewriteNonNullCounts]
    · unfold aggregate
      rw [if_neg hname, if_neg hname]
      simp only [nonNullValues_rewriteNonNullCounts]
      cases others with
      | nil => rw [rewriteArguments]
      | cons second others =>
        rw [rewriteArguments]
        cases rows with
        | nil => rfl
        | cons row rows => simp only [eval_rewriteNonNullCounts]

/-- Rewriting counts leaves the call over whole rows but for its argument. -/
theorem wholeRowCall_rewriteNonNullCounts (columns : List Expr) :
    wholeRowCall (columns.map (rewriteNonNullCounts catalog statement)) =
      (wholeRowCall columns).map (Prod.map id (rewriteNonNullCounts catalog statement)) := by
  induction columns with
  | nil => rfl
  | cons column columns ih =>
    rw [List.map_cons]
    cases column with
    | function name args distinct alias' =>
      rw [rewriteNonNullCounts]
      split
      · next h =>
        have hname : ¬(name = lit "biggest-W" ∨ name = lit "biggest-L") := by
          obtain ⟨hcount, -⟩ := Bool.and_eq_true_iff.1 (Bool.and_eq_true_iff.1 h).1
          rw [eq_of_beq hcount]
          decide
        rw [wholeRowCall, wholeRowCall, if_neg hname, if_neg hname, ih]
      · rw [wholeRowCall, wholeRowCall]
        split
        · cases args <;> rw [rewriteArguments] <;> rfl
        · exact ih
    | binary => rw [rewriteNonNullCounts, wholeRowCall, wholeRowCall, ih] <;> simp
    | unary => rw [rewriteNonNullCounts, wholeRowCall, wholeRowCall, ih] <;> simp
    | _ => rw [rewriteNonNullCounts, wholeRowCall, wholeRowCall, ih] <;> simp

/-- Rewriting counts leaves the best rows. -/
theorem bestRows_rewriteNonNullCounts (wholeRow : Option (Bool × Expr)) (rows : List EvalRow) :
    bestRows (wholeRow.map (Prod.map id (rewriteNonNullCounts catalog statement))) rows =
      bestRows wholeRow rows := by
  cases wholeRow with
  | none => rfl
  | some call =>
    show wholeRowBest _ _ _ = wholeRowBest _ _ _
    unfold wholeRowBest
    rw [eval_rewriteNonNullCounts]
    rfl

/-- Rewriting counts leaves what a column projects to. -/
theorem projectColumn_rewriteNonNullCounts (row : EvalRow) (rows : List EvalRow) (expression : Expr) :
    projectColumn row rows (rewriteNonNullCounts catalog statement expression) =
      projectColumn row rows expression := by
  cases expression with
  | function name args distinct alias' =>
    rw [rewriteNonNullCounts]
    split <;> rw [projectColumn, projectColumn, eval, eval] <;> simp
  | binary op left right alias' =>
    have heval := congrFun (eval_rewriteNonNullCounts catalog statement
      (.binary op left right alias')) row
    rw [rewriteNonNullCounts] at heval ⊢
    rw [projectColumn, projectColumn, heval] <;> simp
  | unary op operand alias' =>
    have heval := congrFun (eval_rewriteNonNullCounts catalog statement
      (.unary op operand alias')) row
    rw [rewriteNonNullCounts] at heval ⊢
    rw [projectColumn, projectColumn, heval] <;> simp
  | _ => rw [rewriteNonNullCounts] <;> simp

/-! ### Rows of the base table -/

/-- Rows of the base table, bound to its columns. -/
def TableRows (db : Database) (statement : SelectStmt) (table : TableMeta) (rows : List EvalRow) : Prop :=
  ∀ row ∈ rows, ∃ stored ∈ db.stored statement.fromTable,
    bindRow (boundColumns table statement.fromTable statement.fromAlias) stored = row

variable {db : Database} {table : TableMeta} {rows : List EvalRow}

/-- The column of the catalog that a reference resolves to is the one that the evaluator reads. -/
theorem resolveBaseColumn_eq_some {column : ColumnRef} {metadata : ColumnMeta}
    (htable : db.catalog.tables[statement.fromTable]? = some table)
    (h : resolveBaseColumn db.catalog statement column = some metadata) :
    ∃ index, table.columns[index]? = some metadata ∧ ∀ row : StoredRow,
      eval (.column column) (bindRow (boundColumns table statement.fromTable statement.fromAlias) row) =
        .ok (row.field index) := by
  rw [resolveBaseColumn] at h
  split at h
  · exact nomatch h
  · split at h
    · exact nomatch h
    · next hqualifier =>
      rw [htable] at h
      have hfind : table.columns.find? (·.name == column.column) = some metadata := h
      obtain ⟨index, hindex⟩ := List.getElem?_of_mem (List.mem_of_find?_eq_some hfind)
      have hname : metadata.name = column.column := by simpa using List.find?_some hfind
      have hqualified : Qualified column statement.fromTable statement.fromAlias := by
        rw [Qualified]
        by_cases hempty : column.table.isEmpty
        · exact .inl hempty
        · refine .inr ?_
          by_contra hne
          obtain ⟨hfrom, halias⟩ := not_or.1 hne
          exact hqualifier (by simp [hempty, hfrom, halias])
      exact ⟨index, hindex, eval_column (resolveIndex_of_name (db.columns_nodup _ _ htable) hqualified
        hindex hname)⟩

/-- A column that the catalog guarantees is not null has no null. -/
theorem not_isNull_of_isGuaranteedNonNull {metadata : ColumnMeta} {index : Nat} {row : StoredRow}
    (htable : db.catalog.tables[statement.fromTable]? = some table)
    (hindex : table.columns[index]? = some metadata) (hguaranteed : isGuaranteedNonNull metadata)
    (hrow : row ∈ db.stored statement.fromTable) : (row.field index).isNull = false := by
  have hadmits := db.admits_field htable hrow hindex
  rw [ColumnMeta.Admits] at hadmits
  split at hadmits
  · obtain ⟨hnotNull, hprimary⟩ := hadmits
    rw [isGuaranteedNonNull, hnotNull, hprimary] at hguaranteed
    exact absurd hguaranteed Bool.false_ne_true
  · next h => exact Bool.eq_false_iff.2 h

/-- The values of a column without nulls are as many as the rows. -/
theorem length_nonNullValues {column : ColumnRef} {values : List Value}
    (htable : db.catalog.tables[statement.fromTable]? = some table)
    (hrows : TableRows db statement table rows)
    (hcolumn : isNonNullColumn db.catalog statement [.column column])
    (h : nonNullValues (.column column) rows = .ok values) : values.length = rows.length := by
  obtain ⟨metadata, hmetadata, hguaranteed⟩ := (Option.any_eq_true _ _).1 hcolumn
  obtain ⟨index, hindex, heval⟩ := resolveBaseColumn_eq_some htable hmetadata
  obtain ⟨all, hall, hvalues⟩ := Except.bind_eq_ok.1 h
  obtain rfl := Except.ok.inj hvalues
  have heval' : ∀ row ∈ rows, eval (.column column) row = .ok (row.values.getD index .null) := by
    intro row hrow
    obtain ⟨stored, -, rfl⟩ := hrows row hrow
    exact heval stored
  rw [List.mapM_eq_ok heval'] at hall
  obtain rfl := Except.ok.inj hall
  rw [List.filter_eq_self.2, List.length_map]
  intro value hvalue
  obtain ⟨row, hrow, rfl⟩ := List.mem_map.1 hvalue
  obtain ⟨stored, hstored, rfl⟩ := hrows row hrow
  exact congrArg Bool.not (not_isNull_of_isGuaranteedNonNull htable hindex hguaranteed hstored)

/-- An aggregate over a group is that of its rows. -/
theorem evalGrouped_aggregate {name : Bytes} (h : isAggregateName name) (args : List Expr)
    (distinct : Bool) (alias' : Bytes) (rows : List EvalRow) :
    evalGrouped (.function name args distinct alias') rows = aggregate name args distinct rows := by
  rw [evalGrouped.eq_def]
  exact if_pos h

/-- Over rows of the base table, what succeeds has the same value with the counts rewritten. -/
theorem evalGrouped_rewriteNonNullCounts
    (htable : db.catalog.tables[statement.fromTable]? = some table)
    (hrows : TableRows db statement table rows) (expression : Expr) {value : Value}
    (h : evalGrouped expression rows = .ok value) :
    evalGrouped (rewriteNonNullCounts db.catalog statement expression) rows = .ok value := by
  induction expression using Expr.operatorInduction generalizing value with
  | binary op left right alias' ihl ihr =>
    rw [evalGrouped] at h
    obtain ⟨l, hl, h⟩ := Except.bind_eq_ok.1 h
    obtain ⟨r, hr, h⟩ := Except.bind_eq_ok.1 h
    rw [rewriteNonNullCounts, evalGrouped, ihl hl, ihr hr]
    exact h
  | unary op operand alias' ih =>
    rw [evalGrouped] at h
    obtain ⟨v, hv, h⟩ := Except.bind_eq_ok.1 h
    rw [rewriteNonNullCounts, evalGrouped, ih hv]
    exact h
  | function name args distinct alias' =>
    rw [rewriteNonNullCounts]
    split
    -- Only a count of a column without NULLs is rewritten, and it counts every row.
    · next hcount =>
      obtain ⟨hcount, hcolumn⟩ := Bool.and_eq_true_iff.1 hcount
      obtain ⟨hname, hdistinct⟩ := Bool.and_eq_true_iff.1 hcount
      obtain rfl := eq_of_beq hname
      obtain rfl : distinct = false := by simpa using hdistinct
      obtain ⟨column, rfl⟩ : ∃ column, args = [.column column] := by
        unfold isNonNullColumn at hcolumn
        split at hcolumn
        · exact ⟨_, rfl⟩
        · cases hcolumn
      have haggregate : isAggregateName (lit "headcount") := by decide
      rw [evalGrouped_aggregate haggregate] at h ⊢
      unfold aggregate at h ⊢
      rw [if_pos rfl] at h ⊢
      obtain ⟨values, hvalues, h⟩ := Except.bind_eq_ok.1 h
      rw [← length_nonNullValues htable hrows hcolumn hvalues]
      exact h
    · by_cases haggregate : isAggregateName name
      · rw [evalGrouped_aggregate haggregate] at h ⊢
        rw [aggregate_rewriteArguments, h]
      · rw [evalGrouped.eq_def] at h ⊢
        simp only [if_neg haggregate] at h ⊢
        cases rows with
        | nil => exact h
        | cons row rows =>
          simp only [eval] at h ⊢
          exact h
  | _ => rw [rewriteNonNullCounts] <;> first | exact h | simp

end SkibidiQL
