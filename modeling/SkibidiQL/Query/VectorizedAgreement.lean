import SkibidiQL.Query.VectorSteps
import SkibidiQL.Query.GroupedSelect
import SkibidiQL.Storage.HeapScan

/-!
# Vectorized and row-wise execution

Where `executeVectorizedSelect` answers, it answers as the scan row by row does
(`executeVectorizedSelect_eq_scanSelect`), and it does answer where all expressions have values on all rows
(`executeVectorizedSelect_of_scanSelect`). The rows of a batch go in lockstep with steps on the rows themselves
(`TakesRows`); over all batches these steps are the filter and the projection of the row engine, or its streaming
aggregation.
-/

namespace SkibidiQL

open Bytes

variable {order : GroupOrder} {db : Database} {table : TableMeta} {name alias' : Bytes} {required : List Nat}
  {stored : List StoredRow} {batch : VectorBatch} {expression : Expr} {rows : List EvalRow} {row : EvalRow}
  {statement : SelectStmt} {predicate : TypedVector} {groupVectors : List TypedVector}
  {projected : List (Option TypedVector)} {i : Nat}

/-! ### Batches -/

section Batches

variable {τ : Type} {R : VectorState → τ → Prop} {step : τ → EvalRow → Except Error τ}

/-- A row at a time that WHERE selects. -/
def whereStep (condition : Option Expr) (step : τ → EvalRow → Except Error τ) (t : τ) (row : EvalRow) :
    Except Error τ := do
  if ← conditionHolds condition row then step t row else pure t

/-- A fold over the rows that WHERE selects. -/
theorem whereStep_lockstep (condition : Option Expr) (step : τ → EvalRow → Except Error τ) (rows : List EvalRow)
    (t : τ) : Except.Lockstep Eq (rows.foldlM (whereStep condition step) t)
      (filterRows condition rows >>= fun kept ↦ kept.foldlM step t) := by
  rw [filterRows_eq]
  exact List.foldlM_where rows t

/-- What the rows of a batch are taken into is in lockstep with the step. -/
def TakesRows (table : TableMeta) (required : List Nat) (statement : SelectStmt) (R : VectorState → τ → Prop)
    (step : τ → EvalRow → Except Error τ) : Prop :=
  ∀ stored batch predicate groupVectors projected,
    batch.Of table statement.fromTable statement.fromAlias required stored →
    VectorsShow statement (tableRows table statement.fromTable statement.fromAlias stored) predicate groupVectors
      projected →
    ∀ i source, stored[i]? = some source → ∀ state t, R state t →
      Except.Lockstep R (vectorRow statement batch predicate groupVectors projected state i)
        (whereStep statement.where' step t
          (bindRow (boundColumns table statement.fromTable statement.fromAlias) source))

/-- The columns that the vectors of a statement are evaluated from. -/
theorem exists_collectColumns {columns : List Nat} {scalar : Expr}
    (hcollect : collectColumns table name alias' expression = .ok columns)
    (hscalar : vectorScalar expression = some scalar) :
    ∃ read, collectColumns table name alias' scalar = .ok read ∧ ∀ index ∈ read, index ∈ columns := by
  cases expression with
  | function function args distinct alias' =>
    cases args with
    | nil => cases hscalar
    | cons argument args =>
      rw [vectorScalar] at hscalar
      split at hscalar
      · cases hscalar
      · next hplain =>
        obtain rfl := Option.some.inj hscalar
        have hcount : countWildcard function (argument :: args) = false := by
          rw [countWildcard, List.head?_cons, Option.any_some, Bool.eq_false_iff.2 hplain, List.isEmpty_cons,
            Bool.or_self, Bool.and_false]
        rw [collectColumns, hcount, if_neg Bool.false_ne_true, collectArguments] at hcollect
        obtain ⟨read, hread, h⟩ := Except.bind_eq_ok.1 hcollect
        obtain ⟨others, -, h⟩ := Except.bind_eq_ok.1 h
        obtain rfl := Except.ok.inj h
        exact ⟨read, hread, fun index hindex ↦ List.mem_append_left _ hindex⟩
  -- For a wildcard no vector is evaluated.
  | wildcard wildcard => cases hscalar
  | _ =>
    obtain rfl := Option.some.inj hscalar
    exact ⟨columns, hcollect, fun _ hindex ↦ hindex⟩

/-- All expressions of the statement have values on all rows, also on those that WHERE does not select. -/
def SelectStmt.Evaluates (statement : SelectStmt) (rows : List EvalRow) : Prop :=
  ∀ expression ∈ statement.vectorExpressions, ∀ row ∈ rows, ∃ value, eval expression row = .ok value

theorem VectorBatch.Of.rowCount_eq (hbatch : batch.Of table name alias' required stored) :
    batch.rowCount = (tableRows table name alias' stored).length := by
  rw [hbatch.rowCount, tableRows, List.length_map]

/-- What a vectorized statement rests on: its table, the columns that it reads, and data without NaN. -/
structure VectorPlan (db : Database) (statement : SelectStmt) (table : TableMeta) (required : List Nat) : Prop where
  vectorizes : canVectorize statement
  table_eq : db.catalog.tables[statement.fromTable]? = some table
  required_eq : vectorColumns table statement = .ok required
  values : ∀ row ∈ db.stored statement.fromTable, ∀ value ∈ row.values, value.isNaN = false
  literals : ∀ expression ∈ statement.vectorExpressions, expression.NoNaN

namespace VectorPlan

variable (h : VectorPlan db statement table required)

include h

/-- The columns that are read are those of the expressions. -/
theorem exists_columns : ∃ columns, required = requiredColumns table columns.flatten ∧
    List.Forall₂
      (fun expression read ↦ collectColumns table statement.fromTable statement.fromAlias expression = .ok read)
      (statement.where'.toList ++ statement.groupBy ++ statement.columns) columns := by
  obtain ⟨columns, hcolumns, hrequired⟩ := Except.bind_eq_ok.1 h.required_eq
  exact ⟨columns, (Except.ok.inj hrequired).symm, List.mapM_eq_ok_iff.1 hcolumns⟩

/-- What an expression of the statement reads is required. -/
theorem mem_required (hmem : expression ∈ statement.where'.toList ++ statement.groupBy ++ statement.columns) :
    ∃ read, collectColumns table statement.fromTable statement.fromAlias expression = .ok read ∧
      ∀ index ∈ read, index < table.columns.length → index ∈ required := by
  obtain ⟨columns, rfl, hcolumns⟩ := h.exists_columns
  obtain ⟨j, hj⟩ := List.getElem?_of_mem hmem
  obtain ⟨read, hread⟩ : ∃ read, columns[j]? = some read := by
    refine ⟨_, List.getElem?_eq_getElem ?_⟩
    rw [← hcolumns.length_eq]
    exact (List.getElem?_eq_some_iff.1 hj).1
  exact ⟨read, List.Forall₂.getElem? hcolumns hj hread, fun index hindex hlt ↦
    mem_requiredColumns.2 ⟨hlt, List.mem_flatten.2 ⟨read, List.mem_of_getElem? hread, hindex⟩⟩⟩

theorem lt_of_mem_required {column : Nat} (hcolumn : column ∈ required) : column < table.columns.length := by
  obtain ⟨columns, rfl, -⟩ := h.exists_columns
  exact (mem_requiredColumns.1 hcolumn).1

theorem nodup_required : required.Nodup := by
  obtain ⟨columns, rfl, -⟩ := h.exists_columns
  exact List.nodup_range.filter _

/-- A wildcard reads all columns. -/
theorem required_of_wildcard (hmem : expression ∈ statement.columns) (hwildcard : expression.isWildcard) :
    required = List.range table.columns.length := by
  obtain ⟨read, hread, hall⟩ := h.mem_required (List.mem_append_right _ hmem)
  obtain ⟨columns, rfl, -⟩ := h.exists_columns
  cases expression with
  | wildcard wildcard =>
    obtain rfl := Except.ok.inj hread
    refine List.filter_eq_self.2 fun index hindex ↦ ?_
    have hrequired := hall index hindex (List.mem_range.1 hindex)
    exact List.contains_iff_mem.2 (mem_requiredColumns.1 hrequired).2
  | _ => cases hwildcard

/-- A batch has the columns of every expression. -/
theorem forallColumns (hbatch : batch.Of table statement.fromTable statement.fromAlias required stored) :
    ∀ expression ∈ statement.vectorExpressions,
      expression.ForallColumns (batch.Has (tableRows table statement.fromTable statement.fromAlias stored)) := by
  have hnodup := db.columns_nodup _ _ h.table_eq
  intro expression hmem
  rcases List.mem_append.1 hmem with hmem | hmem
  · obtain ⟨read, hread, hall⟩ := h.mem_required (List.mem_append_left _ hmem)
    exact hbatch.forallColumns hnodup h.nodup_required hread hall
  · obtain ⟨column, hcolumn, hscalar⟩ := List.mem_filterMap.1 hmem
    obtain ⟨read, hread, hall⟩ := h.mem_required (List.mem_append_right _ hcolumn)
    obtain ⟨read', hread', hsub⟩ := exists_collectColumns hread hscalar
    exact hbatch.forallColumns hnodup h.nodup_required hread' fun index hindex ↦ hall index (hsub index hindex)

/-- The rows of a table without NaN have none. -/
theorem noNaN_tableRows (hstored : ∀ row ∈ stored, row ∈ db.stored statement.fromTable) :
    NoNaN (tableRows table statement.fromTable statement.fromAlias stored) := by
  intro row hrow
  obtain ⟨source, hsource, rfl⟩ := List.mem_map.1 hrow
  exact h.values source (hstored source hsource)

/-- The rows of a batch whose vectors are evaluated. -/
theorem batchRows_lockstep (htakes : TakesRows table required statement R step) (hne : stored ≠ [])
    (hstored : ∀ row ∈ stored, row ∈ db.stored statement.fromTable)
    (hbatch : batch.Of table statement.fromTable statement.fromAlias required stored)
    (hpredicate : predicateVector batch statement.where' = .ok predicate)
    (hgroups : statement.groupBy.mapM (evalVector batch) = .ok groupVectors)
    (hprojected : statement.columns.mapM (projectVector batch) = .ok projected) {state : VectorState} {t : τ}
    (hstate : R state t) :
    Except.Lockstep R
      ((List.range batch.rowCount).foldlM (vectorRow statement batch predicate groupVectors projected) state)
      ((tableRows table statement.fromTable statement.fromAlias stored).foldlM
        (whereStep statement.where' step) t) := by
  have hshow := vectorsShow hbatch.rowCount_eq (List.map_eq_nil_iff.not.2 hne) (h.forallColumns hbatch)
    (h.noNaN_tableRows hstored) h.literals hpredicate hgroups hprojected
  have hindices : List.Forall₂ (fun i row ↦ ∃ source, stored[i]? = some source ∧
      row = bindRow (boundColumns table statement.fromTable statement.fromAlias) source) (List.range batch.rowCount)
      (tableRows table statement.fromTable statement.fromAlias stored) := by
    rw [hbatch.rowCount, tableRows, List.forall₂_map_right_iff]
    refine List.forall₂_iff_get.2 ⟨List.length_range, fun j hj hj' ↦ ⟨stored.get ⟨j, hj'⟩, ?_, rfl⟩⟩
    rw [List.get_eq_getElem, List.getElem_range, List.get_eq_getElem]
    exact List.getElem?_eq_getElem hj'
  refine Except.lockstep_foldlM ?_ hindices hstate
  rintro state t i row hstate ⟨source, hsource, rfl⟩
  exact htakes stored batch predicate groupVectors projected hbatch hshow i source hsource state t hstate

/-- One batch. -/
theorem vectorBatch_run (htakes : TakesRows table required statement R step) (hne : stored ≠ [])
    (hstored : ∀ row ∈ stored, row ∈ db.stored statement.fromTable) {state state' : VectorState} {t : τ}
    (hrun : vectorBatch table required statement state (stored.map (decodedRow required)) = .ok state')
    (hstate : R state t) :
    ∃ t', (tableRows table statement.fromTable statement.fromAlias stored).foldlM
      (whereStep statement.where' step) t = .ok t' ∧ R state' t' := by
  obtain ⟨batch, hmake, hrun⟩ := Except.bind_eq_ok.1 hrun
  obtain ⟨predicate, hpredicate, hrun⟩ := Except.bind_eq_ok.1 hrun
  obtain ⟨groupVectors, hgroups, hrun⟩ := Except.bind_eq_ok.1 hrun
  obtain ⟨projected, hprojected, hrun⟩ := Except.bind_eq_ok.1 hrun
  have hbatch := makeBatch_of h.table_eq (fun _ ↦ h.lt_of_mem_required) hstored hmake
  exact (h.batchRows_lockstep htakes hne hstored hbatch hpredicate hgroups hprojected hstate).eq_ok hrun

/-- One batch, where all expressions have values. -/
theorem exists_vectorBatch (htakes : TakesRows table required statement R step) (hne : stored ≠ [])
    (hstored : ∀ row ∈ stored, row ∈ db.stored statement.fromTable) (hdecodable : Decodable table required)
    (hevaluates : statement.Evaluates (tableRows table statement.fromTable statement.fromAlias stored))
    {state : VectorState} {t t' : τ}
    (hfold : (tableRows table statement.fromTable statement.fromAlias stored).foldlM
      (whereStep statement.where' step) t = .ok t') (hstate : R state t) :
    ∃ state', vectorBatch table required statement state (stored.map (decodedRow required)) = .ok state' ∧
      R state' t' := by
  obtain ⟨batch, hmake⟩ := exists_makeBatch h.table_eq (fun _ ↦ h.lt_of_mem_required) hstored hdecodable
  have hbatch := makeBatch_of h.table_eq (fun _ ↦ h.lt_of_mem_required) hstored hmake
  obtain ⟨⟨predicate, hpredicate⟩, ⟨groupVectors, hgroups⟩, projected, hprojected⟩ :=
    exists_vectors hbatch.rowCount_eq (List.map_eq_nil_iff.not.2 hne) (h.forallColumns hbatch)
      (h.noNaN_tableRows hstored) h.literals hevaluates
  obtain ⟨state', hrun, hstate'⟩ :=
    (h.batchRows_lockstep htakes hne hstored hbatch hpredicate hgroups hprojected hstate).ok_eq hfold
  refine ⟨state', ?_, hstate'⟩
  rw [vectorBatch, hmake, Except.ok_bind, hpredicate, Except.ok_bind, hgroups, Except.ok_bind, hprojected,
    Except.ok_bind, hrun]

/-- All batches. -/
theorem vectorBatches_run (htakes : TakesRows table required statement R step) {handed : List (List StoredRow)}
    (hhanded : handed.flatten = stored.map (decodedRow required)) (hne : ∀ rows ∈ handed, rows ≠ [])
    (hstored : ∀ row ∈ stored, row ∈ db.stored statement.fromTable) {state state' : VectorState} {t : τ}
    (hrun : handed.foldlM (vectorBatch table required statement) state = .ok state') (hstate : R state t) :
    ∃ t', (tableRows table statement.fromTable statement.fromAlias stored).foldlM
      (whereStep statement.where' step) t = .ok t' ∧ R state' t' := by
  induction handed generalizing stored state t with
  | nil =>
    obtain rfl := List.map_eq_nil_iff.1 hhanded.symm
    obtain rfl := Except.ok.inj hrun
    exact ⟨t, rfl, hstate⟩
  | cons rows handed ih =>
    obtain ⟨hhead, htail⟩ := List.forall_mem_cons.1 hne
    -- The batch handed out first has the first rows; the others are batches of the rest.
    obtain ⟨first, rest, rfl, rfl, hrest⟩ := List.map_eq_append_iff.1 hhanded.symm
    rw [List.forall_mem_append] at hstored
    obtain ⟨middle, hfirst, hrun⟩ := Except.bind_eq_ok.1 hrun
    obtain ⟨t₁, hfold, hmiddle⟩ :=
      h.vectorBatch_run htakes (fun hnil ↦ hhead (List.map_eq_nil_iff.2 hnil)) hstored.1 hfirst hstate
    obtain ⟨t', hfold', hstate'⟩ := ih hrest.symm htail hstored.2 hrun hmiddle
    refine ⟨t', ?_, hstate'⟩
    rw [tableRows, List.map_append, List.foldlM_append]
    exact Except.bind_eq_ok.2 ⟨t₁, hfold, hfold'⟩

/-- All batches, where all expressions have values. -/
theorem exists_vectorBatches (htakes : TakesRows table required statement R step) {handed : List (List StoredRow)}
    (hhanded : handed.flatten = stored.map (decodedRow required)) (hne : ∀ rows ∈ handed, rows ≠ [])
    (hstored : ∀ row ∈ stored, row ∈ db.stored statement.fromTable) (hdecodable : Decodable table required)
    (hevaluates : statement.Evaluates (tableRows table statement.fromTable statement.fromAlias stored))
    {state : VectorState} {t t' : τ}
    (hfold : (tableRows table statement.fromTable statement.fromAlias stored).foldlM
      (whereStep statement.where' step) t = .ok t') (hstate : R state t) :
    ∃ state', handed.foldlM (vectorBatch table required statement) state = .ok state' ∧ R state' t' := by
  induction handed generalizing stored state t with
  | nil =>
    obtain rfl := List.map_eq_nil_iff.1 hhanded.symm
    obtain rfl := Except.ok.inj hfold
    exact ⟨state, rfl, hstate⟩
  | cons rows handed ih =>
    obtain ⟨hhead, htail⟩ := List.forall_mem_cons.1 hne
    obtain ⟨first, rest, rfl, rfl, hrest⟩ := List.map_eq_append_iff.1 hhanded.symm
    rw [List.forall_mem_append] at hstored
    rw [tableRows, List.map_append, List.foldlM_append] at hfold
    obtain ⟨t₁, hfirst, hfold⟩ := Except.bind_eq_ok.1 hfold
    have hvalues (part : List StoredRow) (hpart : ∀ row ∈ part, row ∈ first ++ rest) :
        statement.Evaluates (tableRows table statement.fromTable statement.fromAlias part) :=
      fun expression hmem row hrow ↦ hevaluates expression hmem row (List.map_subset _ hpart hrow)
    obtain ⟨middle, hrun, hmiddle⟩ :=
      h.exists_vectorBatch htakes (fun hnil ↦ hhead (List.map_eq_nil_iff.2 hnil)) hstored.1 hdecodable
        (hvalues first fun row hrow ↦ List.mem_append_left _ hrow) hfirst hstate
    obtain ⟨state', hrun', hstate'⟩ :=
      ih hrest.symm htail hstored.2 (hvalues rest fun row hrow ↦ List.mem_append_right _ hrow) hfold hmiddle
    exact ⟨state', Except.bind_eq_ok.2 ⟨middle, hrun, hrun'⟩, hstate'⟩

end VectorPlan

end Batches

/-! ### The pipeline -/

/-- The names of the output columns do not depend on a row to look at. -/
theorem outputNames_of_table (hjoins : statement.joins = [])
    (htable : db.catalog.tables[statement.fromTable]? = some table) (sample : Option (List BoundColumn))
    (hsample : ∀ columns, sample = some columns →
      columns = boundColumns table statement.fromTable statement.fromAlias) :
    outputNames db.catalog statement sample = outputNames db.catalog statement none := by
  cases sample with
  | none => rfl
  | some columns =>
    obtain rfl := hsample columns rfl
    refine List.flatMap_congr fun item _ ↦ ?_
    obtain ⟨expression, index⟩ := item
    cases expression with
    | wildcard wildcard =>
      have hcovers : ∀ column ∈ boundColumns table statement.fromTable statement.fromAlias,
          wildcard.covers column.table column.alias' = wildcard.covers statement.fromTable statement.fromAlias := by
        intro column hcolumn
        obtain ⟨metadata, -, rfl⟩ := List.mem_map.1 hcolumn
        rfl
      show ((boundColumns table statement.fromTable statement.fromAlias).filter _).map _ =
        wildcardNames db.catalog statement wildcard
      rw [List.filter_congr hcovers]
      cases hall : wildcard.covers statement.fromTable statement.fromAlias with
      | false => simp [wildcardNames, hjoins, hall]
      | true => simp [wildcardNames, hjoins, hall, htable, boundColumns, Function.comp_def]
    | _ => rfl

namespace VectorPlan

variable (h : VectorPlan db statement table required)

include h

/-- The clauses that a vectorized statement has. -/
theorem clauses : statement.joins = [] ∧ statement.distinct = false ∧ statement.orderBy = [] ∧
    statement.limit = none ∧ statement.offset = none ∧ ∀ column ∈ statement.columns, supportedColumn column := by
  have hshape := h.vectorizes
  simp only [canVectorize, Bool.and_eq_true, List.isEmpty_iff, Bool.not_eq_true', Option.isNone_iff_eq_none,
    List.all_eq_true] at hshape
  obtain ⟨⟨⟨⟨⟨⟨⟨⟨hjoins, hdistinct⟩, horder⟩, hlimit⟩, hoffset⟩, -⟩, -⟩, -⟩, hcolumns⟩ := hshape
  exact ⟨hjoins, hdistinct, horder, hlimit, hoffset, fun column hcolumn ↦ (hcolumns column hcolumn).1⟩

/-- Without order and limit the output is the rows. -/
theorem finishRows_eq (output : List OutputRow) : finishRows statement output = output.map (·.values) := by
  obtain ⟨-, hdistinct, horder, hlimit, hoffset, -⟩ := h.clauses
  rw [finishRows, hdistinct, orderRows, horder, limitRows, hlimit, hoffset]
  rfl

/-- A statement without grouping has no aggregate in its select list. -/
theorem supportedScalar_of_plain (hgrouped : statement.grouped = false) :
    ∀ column ∈ statement.columns, supportedScalar column := by
  obtain ⟨-, -, -, -, -, hsupported⟩ := h.clauses
  have haggregates : statement.columns.any hasAggregate = false :=
    (Bool.or_eq_false_iff.1 (Bool.or_eq_false_iff.1 hgrouped).2).1
  intro column hcolumn
  cases column with
  | function name args distinct alias' =>
    have hnone := List.any_eq_false.1 haggregates _ hcolumn
    obtain ⟨hname, -⟩ := Bool.and_eq_true_iff.1 (hsupported _ hcolumn)
    refine absurd ?_ hnone
    rcases mem_vectorAggregateNames hname with rfl | rfl | rfl | rfl | rfl <;> rfl
  | _ => exact hsupported _ hcolumn

/-- A statement without groups has no call over whole rows. -/
theorem wholeRowCall_of_plain (hgrouped : statement.grouped = false) : wholeRowCall statement.columns = none := by
  have hsupported := h.supportedScalar_of_plain hgrouped
  generalize statement.columns = columns at hsupported
  induction columns with
  | nil => rfl
  | cons column columns ih =>
    obtain ⟨hcolumn, hcolumns⟩ := List.forall_mem_cons.1 hsupported
    cases column with
    | function name args distinct alias' => cases hcolumn
    | _ => exact ih hcolumns

/-- The pipeline on a statement without grouping. -/
theorem selectRows_plain {values : List Tuple} (hgrouped : statement.grouped = false)
    (hvalues : rows.mapM (project statement · rows) = .ok values) : selectRows order db.catalog statement rows =
      .ok { columns := rowNames db.catalog statement rows, rows := values } := by
  obtain ⟨-, -, horder, -⟩ := h.clauses
  have houtput : plainOutput statement false (rowNames db.catalog statement rows) rows =
      .ok (values.map fun values ↦ { values }) := by
    rw [List.mapM_eq_ok_iff] at hvalues
    rw [plainOutput, List.mapM_eq_ok_iff, List.forall₂_map_right_iff]
    refine hvalues.imp fun row values hproject ↦ ?_
    simp only [Bool.false_eq_true, if_false, hproject, Except.ok_bind, orderKeysBy, horder]
    rfl
  have hfinish : finishRows statement (values.map fun values ↦ { values }) = values := by
    rw [h.finishRows_eq, List.map_map]
    exact List.map_id values
  rw [rowNames] at houtput
  simp only [selectRows, h.wholeRowCall_of_plain hgrouped, bestRows, hgrouped, Except.pure_eq_ok, Except.ok_bind,
    Option.isSome_none, houtput, Bool.false_eq_true, if_false, hfinish]
  rfl

/-- The names of the columns of rows that WHERE selects. -/
theorem rowNames_eq {kept : List EvalRow} (hkept : filterRows statement.where'
      (tableRows table statement.fromTable statement.fromAlias stored) = .ok kept) :
    rowNames db.catalog statement kept = outputNames db.catalog statement none := by
  rw [filterRows_eq] at hkept
  obtain ⟨q, -, rfl⟩ := List.exists_of_filterM_eq_ok hkept
  refine outputNames_of_table h.clauses.1 h.table_eq _ fun columns hcolumns ↦ ?_
  obtain ⟨row, hrow, rfl⟩ := Option.map_eq_some_iff.1 hcolumns
  obtain ⟨source, -, rfl⟩ := List.mem_map.1 (List.mem_of_mem_filter (List.mem_of_mem_head? hrow))
  rfl

/-- The fields of the rows that are decoded. -/
theorem decodedRows_eq : decodedRows db statement.fromTable required =
    .ok ((db.stored statement.fromTable).map (decodedRow required)) := by
  obtain ⟨columns, rfl, -⟩ := h.exists_columns
  refine List.mapM_eq_ok fun row hrow ↦ ?_
  rw [rawFields_eq h.table_eq hrow]
  rfl

/-- The batches that are scanned. -/
theorem scanned_eq {batchSize : Nat} (hsize : 0 < batchSize) :
    scanProjectedBatches db statement.fromTable required batchSize =
      .ok (batches batchSize ((db.stored statement.fromTable).map (decodedRow required))) := by
  rw [scanProjectedBatches, if_neg hsize.ne', h.decodedRows_eq]
  rfl

/-- The scan, and what the batches are taken into. -/
theorem scanned_run {τ : Type} {R : VectorState → τ → Prop} {step : τ → EvalRow → Except Error τ}
    (htakes : TakesRows table required statement R step) {batchSize : Nat} {scanned : List (List StoredRow)}
    (hscanned : scanProjectedBatches db statement.fromTable required batchSize = .ok scanned)
    {state state' : VectorState} {t : τ}
    (hrun : scanned.foldlM (vectorBatch table required statement) state = .ok state') (hstate : R state t) :
    ∃ kept t', filterRows statement.where'
        (tableRows table statement.fromTable statement.fromAlias (db.stored statement.fromTable)) = .ok kept ∧
      kept.foldlM step t = .ok t' ∧ R state' t' := by
  rw [scanProjectedBatches] at hscanned
  split at hscanned
  · cases hscanned
  · next hsize =>
    rw [h.decodedRows_eq] at hscanned
    obtain rfl := Except.ok.inj hscanned
    obtain ⟨hflatten, hne, -⟩ := batches_spec (Nat.pos_of_ne_zero hsize)
      ((db.stored statement.fromTable).map (decodedRow required))
    obtain ⟨t', hfold, hstate'⟩ := h.vectorBatches_run htakes hflatten hne (fun _ hrow ↦ hrow) hrun hstate
    obtain ⟨_, hkept, rfl⟩ := (whereStep_lockstep _ _ _ _).eq_ok hfold
    obtain ⟨kept, hfilter, hkept⟩ := Except.bind_eq_ok.1 hkept
    exact ⟨kept, t', hfilter, hkept, hstate'⟩

/-- The scan where all expressions have values. -/
theorem exists_scanned {τ : Type} {R : VectorState → τ → Prop} {step : τ → EvalRow → Except Error τ}
    (htakes : TakesRows table required statement R step) {batchSize : Nat} (hsize : 0 < batchSize)
    (hdecodable : Decodable table required)
    (hevaluates : statement.Evaluates
      (tableRows table statement.fromTable statement.fromAlias (db.stored statement.fromTable)))
    {kept : List EvalRow} (hkept : filterRows statement.where'
      (tableRows table statement.fromTable statement.fromAlias (db.stored statement.fromTable)) = .ok kept)
    {t t' : τ} (hfold : kept.foldlM step t = .ok t') {state : VectorState} (hstate : R state t) :
    ∃ state', (batches batchSize ((db.stored statement.fromTable).map (decodedRow required))).foldlM
      (vectorBatch table required statement) state = .ok state' ∧ R state' t' := by
  obtain ⟨hflatten, hne, -⟩ := batches_spec hsize ((db.stored statement.fromTable).map (decodedRow required))
  obtain ⟨_, hwhere, rfl⟩ := (whereStep_lockstep statement.where' step
    (tableRows table statement.fromTable statement.fromAlias (db.stored statement.fromTable)) t).ok_eq
    (Except.bind_eq_ok.2 ⟨kept, hkept, hfold⟩)
  exact h.exists_vectorBatches htakes hflatten hne (fun _ hrow ↦ hrow) hdecodable hevaluates hwhere hstate

end VectorPlan

/-! ### Agreement -/

theorem thrown_eq_ok {α : Type} {x : Except Error α} {a : α} (h : thrown x = .ok a) : x = .ok a := by
  cases x with
  | error message => cases h
  | ok b => exact congrArg Except.ok (Except.ok.inj h)

/-- A table that is found is in the catalog. -/
theorem Database.eq_some_of_table (h : db.table name = .ok table) : db.catalog.tables[name]? = some table := by
  rw [Database.table] at h
  split at h
  · next hget => rw [hget, Except.ok.inj h]
  · cases h

/-- The first states correspond. -/
theorem groupsOf_initial {projections : List StreamProjection} (hgrouped : statement.grouped)
    (hplan : streamProjections statement = some projections) : GroupsOf statement.columns.length
      (vectorInitial statement) (initialGroups statement.groupBy (streamInitial projections)) := by
  rw [GroupsOf, vectorInitial, initialGroups, hgrouped, Bool.true_and]
  split
  · exact .cons ⟨rfl, groupKeeps_new (length_projections hplan)⟩ .nil
  · exact .nil

namespace VectorPlan

variable (h : VectorPlan db statement table required) {batchSize : Nat} {scanned : List (List StoredRow)}
  {state : VectorState}

include h

/-- Without groups the states correspond row by row. -/
theorem takesRows_plain (hgrouped : statement.grouped = false) (allRows : List EvalRow) :
    TakesRows table required statement RowsOfState (plainStep statement allRows) := by
  intro stored batch predicate groupVectors projected hbatch hshow i source hsource state done hstate
  exact plainRow_lockstep allRows hgrouped hbatch hsource hshow (h.supportedScalar_of_plain hgrouped)
    (fun column ↦ h.required_of_wildcard) hstate

/-- With groups the states correspond row by row. -/
theorem takesRows_grouped {projections : List StreamProjection} (hgrouped : statement.grouped)
    (hplan : streamProjections statement = some projections) : TakesRows table required statement
      (GroupsOf statement.columns.length) (groupStep statement.groupBy projections) := by
  obtain ⟨-, -, -, -, -, hsupported⟩ := h.clauses
  intro stored batch predicate groupVectors projected hbatch hshow i source hsource state groups hstate
  refine groupRow_lockstep hplan hsupported hgrouped hshow ?_ hstate
  rw [tableRows, List.getElem?_map, hsource]
  rfl

/-- The output rows of the groups. -/
theorem groupOutputs_eq (order : GroupOrder) {projections : List StreamProjection}
    (hplan : streamProjections statement = some projections)
    {groups : List (Tuple × List StreamColumnState)} (hstate : GroupsOf statement.columns.length state groups) :
    (order.entries state.groups).mapM (fun group ↦ groupOutput statement group.2) =
      .ok ((order.entries groups).map fun group ↦ streamResult projections group.2) := by
  obtain ⟨-, -, -, -, -, hsupported⟩ := h.clauses
  rw [List.mapM_eq_ok_iff, List.forall₂_map_right_iff]
  exact List.Forall₂.imp (fun _ _ hgroup ↦ groupOutput_eq hplan hsupported hgroup.2)
    (order.entries_related hstate)

/-- The rows of a statement without grouping. -/
theorem rows_of_plain (hgrouped : statement.grouped = false)
    (hscanned : scanProjectedBatches db statement.fromTable required batchSize = .ok scanned)
    (hrun : scanned.foldlM (vectorBatch table required statement) (vectorInitial statement) = .ok state) :
    ∃ kept, filterRows statement.where'
        (tableRows table statement.fromTable statement.fromAlias (db.stored statement.fromTable)) = .ok kept ∧
      kept.mapM (project statement · kept) = .ok state.rows := by
  have hinitial : RowsOfState (vectorInitial statement) [] := rfl
  -- The rows that are kept are known from a first look, and a window function would be given them.
  obtain ⟨kept, -, hkept, -, -⟩ := h.scanned_run (h.takesRows_plain hgrouped []) hscanned hrun hinitial
  obtain ⟨kept', done, hkept', hdone, hrows⟩ :=
    h.scanned_run (h.takesRows_plain hgrouped kept) hscanned hrun hinitial
  obtain rfl : kept = kept' := Except.ok.inj (hkept.symm.trans hkept')
  have hresults := (List.foldlM_append_singleton (project statement · kept) kept []).symm.trans hdone
  obtain ⟨results, hresults, hsame⟩ := Except.bind_eq_ok.1 hresults
  refine ⟨kept, hkept, ?_⟩
  rw [hresults, show state.rows = done from hrows, ← Except.ok.inj hsame, List.nil_append]

/-- The rows of a grouped statement that is streamed. -/
theorem rows_of_grouped (order : GroupOrder) {projections : List StreamProjection} (hgrouped : statement.grouped)
    (hplan : streamProjections statement = some projections)
    (hscanned : scanProjectedBatches db statement.fromTable required batchSize = .ok scanned)
    (hrun : scanned.foldlM (vectorBatch table required statement) (vectorInitial statement) = .ok state) :
    ∃ kept values, filterRows statement.where'
        (tableRows table statement.fromTable statement.fromAlias (db.stored statement.fromTable)) = .ok kept ∧
      streamed order statement.groupBy projections kept = .ok values ∧
      (order.entries state.groups).mapM (fun group ↦ groupOutput statement group.2) = .ok values := by
  obtain ⟨kept, groups, hkept, hgroups, hstate⟩ :=
    h.scanned_run (h.takesRows_grouped hgrouped hplan) hscanned hrun (groupsOf_initial hgrouped hplan)
  refine ⟨kept, (order.entries groups).map fun group ↦ streamResult projections group.2, hkept, ?_, ?_⟩
  · show (kept.foldlM (groupStep statement.groupBy projections) _ >>= fun groups ↦ _) = _
    rw [hgroups]
    rfl
  · exact h.groupOutputs_eq order hplan hstate

/-- Where the pipeline answers, the projections have values. -/
theorem exists_projected (hgrouped : statement.grouped = false) {result : NativeQueryResult}
    (hselect : selectRows order db.catalog statement rows = .ok result) :
    ∃ values, rows.mapM (project statement · rows) = .ok values := by
  simp only [selectRows, h.wholeRowCall_of_plain hgrouped, bestRows, hgrouped, Except.pure_eq_ok, Except.ok_bind,
    Option.isSome_none, Bool.false_eq_true, if_false] at hselect
  obtain ⟨output, houtput, -⟩ := Except.bind_eq_ok.1 hselect
  refine List.exists_mapM_eq_ok fun row hrow ↦ Except.not_fails_iff.1 fun hfails ↦ ?_
  have hrows : (plainOutput statement false (rowNames db.catalog statement rows) rows).Fails :=
    List.mapM_fails_iff.2 ⟨row, hrow, Except.fails_bind.2 (.inl hfails)⟩
  rw [rowNames, houtput] at hrows
  exact Except.not_fails_ok _ hrows

/-- The answer from the state behind the last batch. -/
theorem answer_eq (hsize : 0 < batchSize)
    (hrun : (batches batchSize ((db.stored statement.fromTable).map (decodedRow required))).foldlM
      (vectorBatch table required statement) (vectorInitial statement) = .ok state) {output : List Tuple}
    (houtput : (if statement.grouped then
        (order.entries state.groups).mapM fun group ↦ groupOutput statement group.2
      else pure state.rows) = .ok output) :
    executeVectorizedSelect order batchSize db statement =
      .ok (some { columns := outputNames db.catalog statement none, rows := output }) := by
  rw [executeVectorizedSelect, h.vectorizes, Bool.not_true, if_neg Bool.false_ne_true,
    Database.table_eq_ok h.table_eq, thrown_ok, Except.ok_bind, h.required_eq, thrown_ok, Except.ok_bind,
    h.scanned_eq hsize, thrown_ok, Except.ok_bind, hrun, Except.ok_bind]
  dsimp only
  split at houtput
  · next hgrouped =>
    rw [if_pos hgrouped, houtput]
    rfl
  · next hgrouped =>
    obtain rfl := Except.ok.inj houtput
    rw [if_neg hgrouped]
    rfl

end VectorPlan

/-- Where `executeVectorizedSelect` answers, the scan row by row gives the same answer: the same names, and the same
rows in the same order. The statement is one that the streaming lambda takes, and neither the table nor the
statement has a NaN. -/
theorem executeVectorizedSelect_eq_scanSelect {batchSize : Nat} {result : NativeQueryResult}
    (hstreams : statement.grouped → (streamProjections statement).isSome)
    (hvalues : ∀ row ∈ db.stored statement.fromTable, ∀ value ∈ row.values, value.isNaN = false)
    (hliterals : ∀ expression ∈ statement.vectorExpressions, expression.NoNaN)
    (hrun : executeVectorizedSelect order batchSize db statement = .ok (some result)) :
    scanSelect order db statement = .ok result := by
  rw [executeVectorizedSelect] at hrun
  split at hrun
  · cases Except.ok.inj hrun
  · next hvectorizes =>
    obtain ⟨table, htable, hrun⟩ := Except.bind_eq_ok.1 hrun
    obtain ⟨required, hrequired, hrun⟩ := Except.bind_eq_ok.1 hrun
    obtain ⟨scanned, hscanned, hrun⟩ := Except.bind_eq_ok.1 hrun
    obtain ⟨state, hfold, hrun⟩ := Except.bind_eq_ok.1 hrun
    dsimp only at hrun
    have h : VectorPlan db statement table required :=
      ⟨by simpa using hvectorizes, Database.eq_some_of_table (thrown_eq_ok htable), thrown_eq_ok hrequired, hvalues,
        hliterals⟩
    have hscan (kept : List EvalRow) (hkept : filterRows statement.where'
        (tableRows table statement.fromTable statement.fromAlias (db.stored statement.fromTable)) = .ok kept) :
        scanSelect order db statement = selectRows order db.catalog statement kept := by
      rw [scanSelect, scanTable_eq_ok h.table_eq, Except.ok_bind, genericSelect]
      exact congrArg (· >>= selectRows order db.catalog statement) hkept
    -- Plain statements project every row kept; grouped ones go through the groups of the batches.
    cases hgrouped : statement.grouped with
    | false =>
      rw [hgrouped, if_neg Bool.false_ne_true] at hrun
      obtain rfl := Option.some.inj (Except.ok.inj hrun)
      obtain ⟨kept, hkept, hproject⟩ := h.rows_of_plain hgrouped (thrown_eq_ok hscanned) hfold
      rw [hscan kept hkept, h.selectRows_plain hgrouped hproject, h.rowNames_eq hkept]
    | true =>
      obtain ⟨projections, hplan⟩ := Option.isSome_iff_exists.1 (hstreams hgrouped)
      obtain ⟨kept, values, hkept, hstreamed, hgroups⟩ :=
        h.rows_of_grouped order hgrouped hplan (thrown_eq_ok hscanned) hfold
      rw [hgrouped, if_pos rfl, hgroups] at hrun
      obtain rfl := Option.some.inj (Except.ok.inj hrun)
      rw [hscan kept hkept, selectRows_streamed order hplan hgrouped, hstreamed, h.rowNames_eq hkept]
      rfl

/-- Where the scan row by row answers and `executeVectorizedSelect` does not decline, it gives the same answer, if
the types of the columns that it decodes are known and every expression of the statement has a value on every row. -/
theorem executeVectorizedSelect_of_scanSelect {batchSize : Nat} {result : NativeQueryResult} (hsize : 0 < batchSize)
    (hvectorizes : canVectorize statement) (htable : db.catalog.tables[statement.fromTable]? = some table)
    (hrequired : vectorColumns table statement = .ok required) (hdecodable : Decodable table required)
    (hstreams : statement.grouped → (streamProjections statement).isSome)
    (hvalues : ∀ row ∈ db.stored statement.fromTable, ∀ value ∈ row.values, value.isNaN = false)
    (hliterals : ∀ expression ∈ statement.vectorExpressions, expression.NoNaN)
    (hevaluates : statement.Evaluates
      (tableRows table statement.fromTable statement.fromAlias (db.stored statement.fromTable)))
    (hscan : scanSelect order db statement = .ok result) :
    executeVectorizedSelect order batchSize db statement = .ok (some result) := by
  have h : VectorPlan db statement table required := ⟨hvectorizes, htable, hrequired, hvalues, hliterals⟩
  rw [scanSelect, scanTable_eq_ok htable, Except.ok_bind, genericSelect] at hscan
  obtain ⟨kept, hkept, hselect⟩ := Except.bind_eq_ok.1 hscan
  have hnames := h.rowNames_eq hkept
  cases hgrouped : statement.grouped with
  | false =>
    obtain ⟨values, hproject⟩ := h.exists_projected hgrouped hselect
    obtain rfl := Except.ok.inj ((h.selectRows_plain hgrouped hproject).symm.trans hselect)
    -- The projections that the pipeline makes are the steps that the batches go in lockstep with.
    have hfold : kept.foldlM (plainStep statement kept) [] = .ok values := by
      refine (List.foldlM_append_singleton (project statement · kept) kept []).trans ?_
      rw [hproject]
      rfl
    have hinitial : RowsOfState (vectorInitial statement) [] := rfl
    obtain ⟨state, hrun, hrows⟩ :=
      h.exists_scanned (h.takesRows_plain hgrouped kept) hsize hdecodable hevaluates hkept hfold hinitial
    rw [hnames]
    refine h.answer_eq hsize hrun ?_
    rw [hgrouped, if_neg Bool.false_ne_true, show state.rows = values from hrows]
    rfl
  | true =>
    obtain ⟨projections, hplan⟩ := Option.isSome_iff_exists.1 (hstreams hgrouped)
    rw [selectRows_streamed order hplan hgrouped] at hselect
    obtain ⟨values, hstreamed, hresult⟩ := Except.bind_eq_ok.1 hselect
    obtain rfl := Except.ok.inj hresult
    obtain ⟨groups, hfold, hvalues⟩ := Except.bind_eq_ok.1 hstreamed
    obtain ⟨state, hrun, hstate⟩ := h.exists_scanned (h.takesRows_grouped hgrouped hplan) hsize hdecodable
      hevaluates hkept hfold (groupsOf_initial hgrouped hplan)
    rw [hnames, ← Except.ok.inj hvalues]
    refine h.answer_eq hsize hrun ?_
    rw [hgrouped, if_pos rfl]
    exact h.groupOutputs_eq order hplan hstate

/-! ### Groups over two batches -/

/-- A table `t` with the columns `dept TEXT` and `age INTEGER`. -/
def staffTable : TableMeta where
  name := lit "t"
  columns := [{ name := lit "dept", type := lit "TEXT" }, { name := lit "age", type := lit "INTEGER" }]

/-- The rows `('ops', 30)`, `('dev', 20)` and `('ops', 40)`. -/
def staffRows : List StoredRow :=
  [⟨⟨0, 0⟩, [.text (lit "ops"), .integer 30]⟩, ⟨⟨0, 1⟩, [.text (lit "dev"), .integer 20]⟩,
    ⟨⟨0, 2⟩, [.text (lit "ops"), .integer 40]⟩]

theorem storable_staffRows : ∀ row ∈ staffRows, HeapFile.Storable row.values := by
  simp only [staffRows, List.forall_mem_cons, List.not_mem_nil, false_imp_iff, implies_true, and_true]
  exact ⟨⟨_, rfl, by decide⟩, ⟨_, rfl, by decide⟩, ⟨_, rfl, by decide⟩⟩

/-- The table with these rows. -/
def staffDatabase : Database :=
  .single staffTable staffRows (by decide) (by decide) (by decide) storable_staffRows (by decide)

/-- `slay dept, headcount(*), goat(age) no-cap t only-if age > 15 vibe-check dept`. -/
def oldestByDept : SelectStmt where
  columns := [.column { column := lit "dept" }, .function (lit "headcount") [.wildcard {}] false [],
    .function (lit "goat") [.column { column := lit "age" }] false []]
  fromTable := lit "t"
  where' := some (.binary .gt (.column { column := lit "age" }) (.literal (.int 15)) [])
  groupBy := [.column { column := lit "dept" }]

/-- The departments, the one of the newest group first. -/
def oldestResult : NativeQueryResult where
  columns := [lit "dept", lit "headcount", lit "goat"]
  rows := [[.text (lit "dev"), .integer 1, .integer 20], [.text (lit "ops"), .integer 2, .integer 40]]

theorem staffDatabase_noNaN : ∀ row ∈ staffDatabase.stored (lit "t"), ∀ value ∈ row.values, value.isNaN = false := by
  show ∀ row ∈ staffRows, _
  decide

theorem oldestByDept_noNaN : ∀ expression ∈ oldestByDept.vectorExpressions, expression.NoNaN := by
  refine List.forall_mem_cons.2 ⟨⟨trivial, rfl⟩, List.forall_mem_cons.2 ⟨trivial, ?_⟩⟩
  exact List.forall_mem_cons.2 ⟨trivial, List.forall_mem_singleton.2 trivial⟩

/-- The query evaluates on every row of staff. -/
theorem oldestByDept_evaluates :
    oldestByDept.Evaluates (tableRows staffTable (lit "t") [] (staffDatabase.stored (lit "t"))) := by
  have hrows (expression : Expr) (h : ∀ row ∈ staffRows,
      (eval expression (bindRow (boundColumns staffTable (lit "t") []) row)).toOption.isSome) :
      ∀ row ∈ tableRows staffTable (lit "t") [] staffRows, ∃ value, eval expression row = .ok value := by
    intro row hrow
    obtain ⟨source, hsource, rfl⟩ := List.mem_map.1 hrow
    obtain ⟨value, hvalue⟩ := Option.isSome_iff_exists.1 (h source hsource)
    exact ⟨value, Except.toOption_eq_some.1 hvalue⟩
  refine List.forall_mem_cons.2 ⟨hrows _ (by decide), List.forall_mem_cons.2 ⟨hrows _ (by decide), ?_⟩⟩
  exact List.forall_mem_cons.2 ⟨hrows _ (by decide), List.forall_mem_singleton.2 (hrows _ (by decide))⟩

/-- The oldest of each department, both ways. -/
theorem oldestByDept_agrees :
    executeVectorizedSelect KeyedGroups.newestFirst 2 staffDatabase oldestByDept = .ok (some oldestResult) ∧
    scanSelect KeyedGroups.newestFirst staffDatabase oldestByDept = .ok oldestResult := by
  have hrun : executeVectorizedSelect KeyedGroups.newestFirst 2 staffDatabase oldestByDept =
      .ok (some oldestResult) := rfl
  exact ⟨hrun, executeVectorizedSelect_eq_scanSelect (fun _ ↦ rfl) staffDatabase_noNaN oldestByDept_noNaN hrun⟩

/-- What the scan returns the vectorized query returns too. -/
theorem oldestByDept_vectorizes : scanSelect KeyedGroups.newestFirst staffDatabase oldestByDept = .ok oldestResult ∧
    executeVectorizedSelect KeyedGroups.newestFirst 2 staffDatabase oldestByDept = .ok (some oldestResult) := by
  have hscan : scanSelect KeyedGroups.newestFirst staffDatabase oldestByDept = .ok oldestResult := rfl
  have htable : staffDatabase.catalog.tables[lit "t"]? = some staffTable := by
    show (({} : Catalog).addTable staffTable).tables[lit "t"]? = some staffTable
    decide
  have hdecodable : Decodable staffTable [0, 1] :=
    List.forall_mem_cons.2 ⟨⟨.text, _, rfl, rfl⟩, List.forall_mem_singleton.2 ⟨.integer, _, rfl, rfl⟩⟩
  exact ⟨hscan, executeVectorizedSelect_of_scanSelect (by decide) (by decide) htable rfl hdecodable (fun _ ↦ rfl)
    staffDatabase_noNaN oldestByDept_noNaN oldestByDept_evaluates hscan⟩

end SkibidiQL
