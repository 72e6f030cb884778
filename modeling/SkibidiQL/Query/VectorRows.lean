import SkibidiQL.Base.Lockstep
import SkibidiQL.Query.VectorBatch

/-!
# Rows of a batch

A batch that is made has the fields of its rows (`makeBatch_of`), and where all columns of an expression are in it,
`evalVector` computes what `eval` computes row by row, or both fail (`evalVector_lockstep`). So the vectors of a
statement show what its expressions are on the rows of the batch (`vectorsShow`).
-/

namespace SkibidiQL

open Bytes

variable {db : Database} {table : TableMeta} {name alias' : Bytes} {required : List Nat}
  {stored : List StoredRow} {batch : VectorBatch} {expression : Expr} {column : ColumnRef}
  {rows : List EvalRow} {row : EvalRow} {vector : TypedVector} {f : EvalRow → Except Error Value} {i : Nat}

/-! ### Batches -/

/-- The batch has the columns of the table that are required, with their fields in these rows. -/
structure VectorBatch.Of (table : TableMeta) (name alias' : Bytes) (required : List Nat) (stored : List StoredRow)
    (batch : VectorBatch) : Prop where
  rowCount : batch.rowCount = stored.length
  columns : ∃ metas, List.Forall₂ (fun column metadata ↦ table.columns[column]? = some metadata) required metas ∧
    batch.columns = boundColumns { table with columns := metas } name alias'
  values : List.Forall₂ (HoldsColumn table stored) required batch.values

/-- The column of a batch is a column of the table. -/
theorem batchColumn_eq_ok {column : Nat} {bound : BoundColumn}
    (h : batchColumn table name alias' column = .ok bound) :
    ∃ metadata, table.columns[column]? = some metadata ∧ bound = ⟨name, alias', metadata.name⟩ := by
  obtain ⟨metadata, hmetadata, h⟩ := Except.bind_eq_ok.1 h
  refine ⟨metadata, ?_, (Except.ok.inj h).symm⟩
  rw [elementAt] at hmetadata
  split at hmetadata
  · next hget =>
    rw [hget, Except.ok.inj hmetadata]
  · cases hmetadata

/-- The columns of a batch are columns of the table. -/
theorem batchColumns_eq_ok {columns : List BoundColumn}
    (h : required.mapM (batchColumn table name alias') = .ok columns) :
    ∃ metas, List.Forall₂ (fun column metadata ↦ table.columns[column]? = some metadata) required metas ∧
      columns = boundColumns { table with columns := metas } name alias' := by
  rw [List.mapM_eq_ok_iff] at h
  induction h with
  | nil => exact ⟨[], .nil, rfl⟩
  | cons hbound _ ih =>
    obtain ⟨metas, hmetas, rfl⟩ := ih
    obtain ⟨metadata, hmetadata, rfl⟩ := batchColumn_eq_ok hbound
    exact ⟨metadata :: metas, .cons hmetadata hmetas, rfl⟩

/-- The vector of a column holds the column. -/
theorem batchVector_eq_ok {column : Nat} (h : batchVector table column = .ok vector) :
    HoldsColumn table [] column vector := by
  obtain ⟨metadata, hmetadata, h⟩ := Except.bind_eq_ok.1 h
  obtain ⟨type, htype, h⟩ := Except.bind_eq_ok.1 h
  obtain rfl := Except.ok.inj h
  refine ⟨TypedVector.holds_ofType type, metadata, ?_, ?_⟩
  · rw [elementAt] at hmetadata
    split at hmetadata
    · next hget => rw [hget, Except.ok.inj hmetadata]
    · cases hmetadata
  · have hsame : (TypedVector.ofType type).type = type := VectorStorage.type_filled 0 type
    rw [hsame]
    cases hdeclared : declaredValueType metadata with
    | error e =>
      rw [hdeclared] at htype
      cases htype
    | ok declared =>
      rw [hdeclared] at htype
      exact congrArg Except.ok (Except.ok.inj htype)

section Table

variable (htable : db.catalog.tables[name]? = some table)
  (hrequired : ∀ column ∈ required, column < table.columns.length) (hstored : ∀ row ∈ stored, row ∈ db.stored name)

include htable hrequired hstored

/-- A batch that is made has the fields of its rows. -/
theorem makeBatch_of
    (h : makeBatch table name alias' required (stored.map (decodedRow required)) = .ok batch) :
    batch.Of table name alias' required stored := by
  obtain ⟨columns, hcolumns, h⟩ := Except.bind_eq_ok.1 h
  obtain ⟨vectors, hvectors, h⟩ := Except.bind_eq_ok.1 h
  obtain ⟨values, hvalues, h⟩ := Except.bind_eq_ok.1 h
  obtain rfl := Except.ok.inj h
  have hholds := (List.mapM_eq_ok_iff.1 hvectors).imp fun _ _ ↦ batchVector_eq_ok
  obtain ⟨values', hvalues', hholds'⟩ := foldlM_appendRow htable hrequired hstored hholds
  obtain rfl := Except.ok.inj (hvalues.symm.trans hvalues')
  exact ⟨List.length_map _, batchColumns_eq_ok hcolumns, by rwa [List.nil_append] at hholds'⟩

/-- Batches of columns whose types are known are made. -/
theorem exists_makeBatch (hdecodable : Decodable table required) :
    ∃ batch, makeBatch table name alias' required (stored.map (decodedRow required)) = .ok batch := by
  have hbound : ∀ column ∈ required, ∃ bound, batchColumn table name alias' column = .ok bound := by
    intro column hcolumn
    refine ⟨_, congrArg (· >>= _) (elementAt_of_getElem? (List.getElem?_eq_getElem (hrequired column hcolumn)))⟩
  have hvector : ∀ column ∈ required, ∃ vector, batchVector table column = .ok vector := by
    intro column hcolumn
    obtain ⟨type, metadata, hget, htype⟩ := hdecodable column hcolumn
    refine ⟨.ofType type, ?_⟩
    rw [batchVector, elementAt_of_getElem? hget, Except.ok_bind, htype]
    rfl
  obtain ⟨columns, hcolumns⟩ := List.exists_mapM_eq_ok hbound
  obtain ⟨vectors, hvectors⟩ := List.exists_mapM_eq_ok hvector
  have hholds := (List.mapM_eq_ok_iff.1 hvectors).imp fun _ _ ↦ batchVector_eq_ok
  obtain ⟨values, hvalues, -⟩ := foldlM_appendRow htable hrequired hstored hholds
  refine ⟨⟨columns, values, (stored.map (decodedRow required)).length⟩, ?_⟩
  rw [makeBatch, hcolumns, Except.ok_bind, hvectors, Except.ok_bind, hvalues]
  rfl

end Table

/-! ### Columns -/

/-- A column that is required is one of the table. -/
theorem requireColumn_eq_ok {index : Nat} (h : requireColumn table name alias' column = .ok index) :
    Qualified column name alias' ∧
      ∃ metadata, table.columns[index]? = some metadata ∧ metadata.name = column.column := by
  rw [requireColumn] at h
  split at h
  · cases h
  · next hqualifier =>
    split at h
    · cases h
    · next found hfind =>
      obtain rfl := Except.ok.inj h
      obtain ⟨hlt, hname, -⟩ := List.findIdx?_eq_some_iff_getElem.1 hfind
      refine ⟨?_, _, List.getElem?_eq_getElem hlt, eq_of_beq hname⟩
      simp only [Bool.and_eq_true, Bool.not_eq_true', bne_iff_ne, not_and, not_not] at hqualifier
      rw [Qualified]
      by_cases hempty : column.table.isEmpty
      · exact .inl hempty
      · by_cases hname : column.table = name
        · exact .inr (.inl hname)
        · exact .inr (.inr (hqualifier ⟨Bool.eq_false_iff.2 hempty, hname⟩))

/-- Different columns of a table have different names. -/
theorem nodup_names {metas : List ColumnMeta} (hnodup : (table.columns.map (·.name)).Nodup)
    (hmetas : List.Forall₂ (fun column metadata ↦ table.columns[column]? = some metadata) required metas)
    (hrequired : required.Nodup) : (metas.map (·.name)).Nodup := by
  induction hmetas with
  | nil => exact List.nodup_nil
  | @cons index metadata required metas hmetadata hmetas ih =>
    obtain ⟨hnew, hrest⟩ := List.nodup_cons.1 hrequired
    refine List.nodup_cons.2 ⟨fun hmem ↦ hnew ?_, ih hrest⟩
    obtain ⟨other, hother, hname⟩ := List.mem_map.1 hmem
    obtain ⟨j, hj⟩ := List.getElem?_of_mem hother
    obtain ⟨index', hindex'⟩ : ∃ index', required[j]? = some index' := by
      refine ⟨_, List.getElem?_eq_getElem ?_⟩
      rw [hmetas.length_eq]
      exact (List.getElem?_eq_some_iff.1 hj).1
    have hother' : table.columns[index']? = some other := List.Forall₂.getElem? hmetas hindex' hj
    have hnames (k : Nat) (found : ColumnMeta) (hfound : table.columns[k]? = some found) :
        (table.columns.map (·.name))[k]? = some found.name := by
      rw [List.getElem?_map, hfound]
      rfl
    have hsame : (table.columns.map (·.name))[index']? = (table.columns.map (·.name))[index]? :=
      (hnames index' other hother').trans ((congrArg some hname).trans (hnames index metadata hmetadata).symm)
    have hlt : index' < (table.columns.map (·.name)).length := by
      rw [List.length_map]
      exact (List.getElem?_eq_some_iff.1 hother').1
    rw [← (List.getElem?_inj hlt hnodup).1 hsame]
    exact List.mem_of_getElem? hindex'

/-- The rows of a table as a query sees them. -/
def tableRows (table : TableMeta) (name alias' : Bytes) (stored : List StoredRow) : List EvalRow :=
  stored.map (bindRow (boundColumns table name alias'))

section Columns

variable (hnodup : (table.columns.map (·.name)).Nodup) (hrequired : required.Nodup)
  (hbatch : batch.Of table name alias' required stored)

include hnodup hrequired hbatch

/-- A column that is required is in the batch. -/
theorem VectorBatch.Of.has {index : Nat} (hcolumn : requireColumn table name alias' column = .ok index)
    (hmem : index ∈ required) : batch.Has (tableRows table name alias' stored) column := by
  obtain ⟨hqualified, metadata, hmetadata, hname⟩ := requireColumn_eq_ok hcolumn
  obtain ⟨metas, hmetas, hcolumns⟩ := hbatch.columns
  obtain ⟨j, hj⟩ := List.getElem?_of_mem hmem
  have hlt : j < required.length := (List.getElem?_eq_some_iff.1 hj).1
  obtain ⟨found, hfound⟩ : ∃ found, metas[j]? = some found :=
    ⟨_, List.getElem?_eq_getElem (hmetas.length_eq ▸ hlt)⟩
  obtain ⟨vector, hvector⟩ : ∃ vector, batch.values[j]? = some vector :=
    ⟨_, List.getElem?_eq_getElem (hbatch.values.length_eq ▸ hlt)⟩
  obtain ⟨hholds, metadata', -, htype⟩ := List.Forall₂.getElem? hbatch.values hj hvector
  have hsame : table.columns[index]? = some found := List.Forall₂.getElem? hmetas hj hfound
  obtain rfl : metadata = found := Option.some.inj (hmetadata.symm.trans hsame)
  refine ⟨j, vector, _, ?_, hvector, hholds, fun hnull ↦ ?_, ?_⟩
  · have hresolve : resolveIndex column (boundColumns { table with columns := metas } name alias') = .ok j :=
      resolveIndex_of_name (nodup_names hnodup hmetas hrequired) hqualified hfound hname
    rw [resolveVectorColumn, hcolumns, hresolve, thrown_ok]
  · rw [hnull] at htype
    exact declaredValueType_not_ok_null _ htype
  · rw [tableRows, List.mapM_map]
    refine List.mapM_eq_ok fun row _ ↦ ?_
    exact eval_column (resolveIndex_of_name hnodup hqualified hmetadata hname) row

/-- All columns of an expression are in the batch. -/
theorem VectorBatch.Of.forallColumns {columns : List Nat}
    (hcollect : collectColumns table name alias' expression = .ok columns)
    (hmem : ∀ index ∈ columns, index < table.columns.length → index ∈ required) :
    expression.ForallColumns (batch.Has (tableRows table name alias' stored)) := by
  induction expression using Expr.operatorInduction generalizing columns with
  | column column =>
    obtain ⟨index, hindex, h⟩ := Except.bind_eq_ok.1 hcollect
    obtain rfl := Except.ok.inj h
    obtain ⟨-, metadata, hmetadata, -⟩ := requireColumn_eq_ok hindex
    have hlt := (List.getElem?_eq_some_iff.1 hmetadata).1
    exact hbatch.has hnodup hrequired hindex (hmem index (List.mem_singleton_self index) hlt)
  | binary op left right alias' ihleft ihright =>
    obtain ⟨lefts, hleft, h⟩ := Except.bind_eq_ok.1 hcollect
    obtain ⟨rights, hright, h⟩ := Except.bind_eq_ok.1 h
    obtain rfl := Except.ok.inj h
    rw [List.forall_mem_append] at hmem
    exact ⟨ihleft hleft hmem.1, ihright hright hmem.2⟩
  | unary op operand alias' ih => exact ih hcollect hmem
  | _ => trivial

end Columns

/-! ### What vectors show -/

/-- The vector has what the expression is on the rows. -/
def TypedVector.Shows (vector : TypedVector) (rows : List EvalRow) (f : EvalRow → Except Error Value) : Prop :=
  ∃ values, rows.mapM f = .ok values ∧ vector.Holds values

/-- The vector at one row. -/
structure TypedVector.ShowsAt (vector : TypedVector) (i : Nat) (value : Value) : Prop where
  isNull_eq : vector.isNull i = .ok value.isNull
  value_eq : vector.value i = .ok value
  element : value.isNull = false → vector.type = value.type ∧ elementAt vector.storage.elements i = .ok value

/-- A vector shows the value of a row at its place. -/
theorem TypedVector.Shows.at (h : vector.Shows rows f) (hrow : rows[i]? = some row) :
    ∃ value, f row = .ok value ∧ vector.ShowsAt i value := by
  obtain ⟨values, hvalues, hholds⟩ := h
  obtain ⟨value, hvalue, hf⟩ := getElem?_of_mapM hvalues hrow
  refine ⟨value, hf, hholds.isNull hvalue, hholds.value hvalue, fun hnull ↦ ?_⟩
  obtain ⟨htype, helement⟩ := hholds.element hvalue hnull
  exact ⟨htype, elementAt_of_getElem? helement⟩

/-- The rows have no NaN. -/
def NoNaN (rows : List EvalRow) : Prop :=
  ∀ row ∈ rows, ∀ value ∈ row.values, value.isNaN = false

/-- The literals of the expression are not NaN. -/
def Expr.NoNaN (expression : Expr) : Prop :=
  expression.ForallLiterals fun literal ↦ (literalValue literal).isNaN = false

/-- A column of a row without NaN is no NaN. -/
theorem isNaN_resolveColumn {value : Value} (hnan : ∀ value ∈ row.values, value.isNaN = false)
    (h : resolveColumn column row = .ok value) : value.isNaN = false := by
  rw [resolveColumn] at h
  split at h
  · cases h
  · obtain ⟨index, -, h⟩ := Except.bind_eq_ok.1 h
    rw [← Except.ok.inj h, List.getD_eq_getElem?_getD]
    cases hget : row.values[index]? with
    | none => rfl
    | some value => exact hnan value (List.mem_of_getElem? hget)

/-- What holds of every column holds of those of an expression. -/
theorem Expr.forallColumns_of_forall {p : ColumnRef → Prop} (h : ∀ column, p column) : expression.ForallColumns p := by
  induction expression using Expr.operatorInduction with
  | column column => exact h column
  | binary op left right alias' ihleft ihright => exact ⟨ihleft, ihright⟩
  | unary op operand alias' ih => exact ih
  | _ => trivial

/-- `evalVector` computes what `eval` computes on the rows of the batch. -/
theorem evalVector_lockstep (hcount : batch.rowCount = rows.length) (hrows : rows ≠ [])
    (hcolumns : expression.ForallColumns (batch.Has rows)) (hvalues : NoNaN rows) (hliterals : expression.NoNaN) :
    Except.Lockstep (fun vector values ↦ rows.mapM (eval expression) = .ok values ∧ vector.Holds values)
      (evalVector batch expression) (rows.mapM (eval expression)) := by
  -- Without NaN the shortcut for a column and a literal compares as `Value::compare` does.
  have hentries : rows.mapM (evalEntry · expression) = rows.mapM (eval expression) :=
    List.mapM_congr fun row hrow ↦ evalEntry_eq_eval
      (Expr.forallColumns_of_forall fun column value ↦ isNaN_resolveColumn (hvalues row hrow)) hliterals
  have hrepresents := evalVector_represents hcount hrows hcolumns
  rw [hentries] at hrepresents
  rcases hrepresents with ⟨vector, values, hvector, hvalues, hholds⟩ | ⟨⟨message, hvector⟩, hfails⟩
  · rw [hvector, hvalues]
    exact .ok ⟨rfl, hholds⟩
  · exact Except.lockstep_of_fails ⟨_, hvector⟩ hfails

/-! ### The vectors of a statement -/

/-- What a column of the select list is evaluated from, if a vector is evaluated for it. -/
def vectorScalar : Expr → Option Expr
  | .function _ [] _ _ => none
  | .function _ (argument :: _) _ _ => if argument.isWildcard then none else some argument
  | .wildcard _ => none
  | expression => some expression

/-- An expression is projected when it is a scalar of the row. -/
theorem projectVector_eq (batch : VectorBatch) (expression : Expr) : projectVector batch expression =
    (vectorScalar expression).elim (pure none) fun scalar ↦
      evalVector batch scalar >>= fun vector ↦ pure (some vector) := by
  cases expression with
  | function name args distinct alias' =>
    cases args with
    | nil => rfl
    | cons argument args => cases argument <;> rfl
  | _ => rfl

/-- The value of WHERE on a row. -/
def conditionValue (condition : Option Expr) (row : EvalRow) : Except Error Value :=
  condition.elim (pure (.boolean true)) (eval · row)

/-- The vector of a column of the select list, which may be missing. -/
inductive ShowsColumn (rows : List EvalRow) : Expr → Option TypedVector → Prop where
  | none {expression : Expr} (h : vectorScalar expression = none) : ShowsColumn rows expression none
  | some {expression scalar : Expr} {vector : TypedVector} (h : vectorScalar expression = some scalar)
    (hshows : vector.Shows rows (eval scalar)) : ShowsColumn rows expression (some vector)

/-- The vectors of a statement show what its expressions are on the rows of the batch. -/
structure VectorsShow (statement : SelectStmt) (rows : List EvalRow) (predicate : TypedVector)
    (groupVectors : List TypedVector) (projected : List (Option TypedVector)) : Prop where
  predicate : predicate.Shows rows (conditionValue statement.where')
  groups : List.Forall₂ (fun expression vector ↦ TypedVector.Shows vector rows (eval expression)) statement.groupBy
    groupVectors
  projected : List.Forall₂ (ShowsColumn rows) statement.columns projected

/-- The expressions that vectors are evaluated for. -/
def SelectStmt.vectorExpressions (statement : SelectStmt) : List Expr :=
  statement.where'.toList ++ statement.groupBy ++ statement.columns.filterMap vectorScalar

/-- A statement without WHERE has a predicate that holds everywhere. -/
theorem exists_predicateVector (hcount : batch.rowCount = rows.length) :
    ∃ vector, predicateVector batch none = .ok vector ∧ vector.Shows rows (conditionValue none) := by
  have htype : ∀ row ∈ rows, ∀ value, conditionValue none row = .ok value → value.OfType .boolean :=
    fun row _ value hvalue ↦ .inr (by rw [← Except.ok.inj hvalue]; rfl)
  have hrepresents : EntryRepresents (predicateVector batch none) (rows.mapM (conditionValue none)) := by
    rw [predicateVector, hcount]
    exact collectVector_represents_rows (fun _ _ _ ↦ rfl) htype (.inr rfl)
  rcases hrepresents with ⟨vector, values, hvector, hvalues, hholds⟩ | ⟨-, hfails⟩
  · exact ⟨vector, hvector, values, hvalues, hholds⟩
  · obtain ⟨row, -, hfails⟩ := List.mapM_fails_iff.1 hfails
    cases Except.not_fails_ok _ hfails

section Vectors

variable {statement : SelectStmt} {predicate : TypedVector} {groupVectors : List TypedVector}
  {projected : List (Option TypedVector)}

variable (hcount : batch.rowCount = rows.length) (hrows : rows ≠ [])
  (hcolumns : ∀ expression ∈ statement.vectorExpressions, expression.ForallColumns (batch.Has rows))
  (hvalues : NoNaN rows) (hliterals : ∀ expression ∈ statement.vectorExpressions, expression.NoNaN)

include hcount hrows hcolumns hvalues hliterals

/-- A vector that is evaluated shows the expression at every row. -/
theorem evalVector_shows (hmem : expression ∈ statement.vectorExpressions)
    (h : evalVector batch expression = .ok vector) : vector.Shows rows (eval expression) := by
  obtain ⟨values, -, hvalues⟩ :=
    (evalVector_lockstep hcount hrows (hcolumns _ hmem) hvalues (hliterals _ hmem)).eq_ok h
  exact ⟨values, hvalues⟩

/-- A vector is evaluated where the expression is at every row. -/
theorem exists_evalVector (hmem : expression ∈ statement.vectorExpressions)
    (h : ∀ row ∈ rows, ∃ value, eval expression row = .ok value) :
    ∃ vector, evalVector batch expression = .ok vector := by
  obtain ⟨values, hvalues'⟩ := List.exists_mapM_eq_ok h
  obtain ⟨vector, hvector, -⟩ :=
    (evalVector_lockstep hcount hrows (hcolumns _ hmem) hvalues (hliterals _ hmem)).ok_eq hvalues'
  exact ⟨vector, hvector⟩

/-- The vector of the condition shows the condition. -/
theorem predicateVector_shows (h : predicateVector batch statement.where' = .ok predicate) :
    predicate.Shows rows (conditionValue statement.where') := by
  cases hwhere : statement.where' with
  | none =>
    rw [hwhere] at h
    obtain ⟨vector, hvector, hshows⟩ := exists_predicateVector hcount
    obtain rfl := Except.ok.inj (h.symm.trans hvector)
    exact hshows
  | some condition =>
    rw [hwhere] at h
    refine evalVector_shows hcount hrows hcolumns hvalues hliterals ?_ h
    rw [SelectStmt.vectorExpressions, hwhere]
    exact List.mem_append_left _ (List.mem_append_left _ (List.mem_singleton_self condition))

/-- The vectors of a batch show the rows. -/
theorem vectorsShow (hpredicate : predicateVector batch statement.where' = .ok predicate)
    (hgroups : statement.groupBy.mapM (evalVector batch) = .ok groupVectors)
    (hprojected : statement.columns.mapM (projectVector batch) = .ok projected) :
    VectorsShow statement rows predicate groupVectors projected where
  predicate := predicateVector_shows hcount hrows hcolumns hvalues hliterals hpredicate
  groups := by
    rw [List.mapM_eq_ok_iff] at hgroups
    refine List.forall₂_of_getElem? hgroups fun i expression vector hexpression _ hvector ↦ ?_
    refine evalVector_shows hcount hrows hcolumns hvalues hliterals ?_ hvector
    exact List.mem_append_left _ (List.mem_append_right _ (List.mem_of_getElem? hexpression))
  projected := by
    rw [List.mapM_eq_ok_iff] at hprojected
    refine List.forall₂_of_getElem? hprojected fun i expression vector hexpression _ hvector ↦ ?_
    rw [projectVector_eq] at hvector
    cases hscalar : vectorScalar expression with
    | none =>
      rw [hscalar] at hvector
      obtain rfl := Except.ok.inj hvector
      exact .none hscalar
    | some scalar =>
      rw [hscalar] at hvector
      obtain ⟨shown, hshown, h⟩ := Except.bind_eq_ok.1 hvector
      obtain rfl := Except.ok.inj h
      refine .some hscalar (evalVector_shows hcount hrows hcolumns hvalues hliterals ?_ hshown)
      exact List.mem_append_right _ (List.mem_filterMap.2 ⟨expression, List.mem_of_getElem? hexpression, hscalar⟩)

/-- Where every expression has a value on every row, all vectors are evaluated. -/
theorem exists_vectors
    (hevaluates : ∀ expression ∈ statement.vectorExpressions, ∀ row ∈ rows, ∃ value, eval expression row = .ok value) :
    (∃ predicate, predicateVector batch statement.where' = .ok predicate) ∧
      (∃ groupVectors, statement.groupBy.mapM (evalVector batch) = .ok groupVectors) ∧
      ∃ projected, statement.columns.mapM (projectVector batch) = .ok projected := by
  have hvector (expression : Expr) (hmem : expression ∈ statement.vectorExpressions) :
      ∃ vector, evalVector batch expression = .ok vector :=
    exists_evalVector hcount hrows hcolumns hvalues hliterals hmem (hevaluates expression hmem)
  refine ⟨?_, List.exists_mapM_eq_ok fun expression hmem ↦ ?_, List.exists_mapM_eq_ok fun expression hmem ↦ ?_⟩
  · cases hwhere : statement.where' with
    | none =>
      obtain ⟨vector, hvector, -⟩ := exists_predicateVector hcount
      exact ⟨vector, hvector⟩
    | some condition =>
      refine hvector condition ?_
      rw [SelectStmt.vectorExpressions, hwhere]
      exact List.mem_append_left _ (List.mem_append_left _ (List.mem_singleton_self condition))
  · exact hvector expression (List.mem_append_left _ (List.mem_append_right _ hmem))
  · rw [projectVector_eq]
    cases hscalar : vectorScalar expression with
    | none => exact ⟨none, rfl⟩
    | some scalar =>
      obtain ⟨vector, hvector⟩ := hvector scalar
        (List.mem_append_right _ (List.mem_filterMap.2 ⟨expression, hmem, hscalar⟩))
      exact ⟨some vector, by rw [Option.elim_some, hvector]; rfl⟩

end Vectors

end SkibidiQL
