import SkibidiQL.Query.VectorGroups

/-!
# Steps of a vectorized row

What `executeVectorizedSelect` does with a row of a batch is what a step on the row itself does: the row is passed
over where WHERE does not hold, and else it is projected (`plainRow_lockstep`) or taken into its group
(`groupRow_lockstep`).
-/

namespace SkibidiQL

open Bytes

variable {table : TableMeta} {name alias' : Bytes} {required : List Nat} {stored : List StoredRow}
  {batch : VectorBatch} {expression : Expr} {rows : List EvalRow} {row : EvalRow} {statement : SelectStmt}
  {predicate : TypedVector} {groupVectors : List TypedVector} {projected : List (Option TypedVector)} {i : Nat}

/-! ### The filter -/

/-- Whether WHERE holds on a row. -/
def conditionHolds (condition : Option Expr) (row : EvalRow) : Except Error Bool := do
  pure (← conditionValue condition row).asBoolean

/-- The condition filters the rows. -/
theorem filterRows_eq (condition : Option Expr) (rows : List EvalRow) :
    filterRows condition rows = rows.filterM (conditionHolds condition) := by
  cases condition with
  | some condition => rfl
  | none =>
    have hall : rows.filterM (conditionHolds none) = .ok (rows.filter fun _ ↦ true) :=
      List.filterM_eq_ok fun _ _ ↦ rfl
    rw [hall, List.filter_true]
    rfl

/-- A row of a batch, when what is done with the rows that WHERE selects is in lockstep. -/
theorem vectorRow_lockstep {τ : Type} {R : VectorState → τ → Prop} {step : τ → EvalRow → Except Error τ}
    (hshow : VectorsShow statement rows predicate groupVectors projected) (hrow : rows[i]? = some row)
    {state : VectorState} {t : τ} (hstate : R state t)
    (hselected : Except.Lockstep R
      (if !statement.grouped then do
          let output ← outputColumns batch projected i statement.columns 0
          pure { state with rows := state.rows ++ [output] }
        else do
          let key ← groupVectors.mapM (·.value i)
          let groups ← KeyedGroups.modifyAt {} (fun group ↦
            groupColumns projected i statement.columns 0 (initializeGroup statement.columns.length group))
            key state.groups
          pure { state with groups })
      (step t row)) :
    Except.Lockstep R (vectorRow statement batch predicate groupVectors projected state i)
      (do if ← conditionHolds statement.where' row then step t row else pure t) := by
  obtain ⟨value, hvalue, hat⟩ := hshow.predicate.at hrow
  have hholds : conditionHolds statement.where' row = .ok value.asBoolean := by
    rw [conditionHolds, hvalue]
    rfl
  rw [vectorRow, hat.value_eq, hholds, Except.ok_bind, Except.ok_bind]
  cases value.asBoolean with
  | false => exact .ok hstate
  | true => exact hselected

/-- The values of the vectors at a row. -/
theorem mapM_value_of_shows {expressions : List Expr} {vectors : List TypedVector}
    (h : List.Forall₂ (fun expression vector ↦ TypedVector.Shows vector rows (eval expression)) expressions vectors)
    (hrow : rows[i]? = some row) :
    ∃ values, vectors.mapM (·.value i) = .ok values ∧ expressions.mapM (eval · row) = .ok values := by
  induction h with
  | nil => exact ⟨[], rfl, rfl⟩
  | cons hshows _ ih =>
    obtain ⟨value, hvalue, hat⟩ := hshows.at hrow
    obtain ⟨values, hvectors, hexpressions⟩ := ih
    refine ⟨value :: values, ?_, ?_⟩
    · rw [List.mapM_cons, hat.value_eq, hvectors]
      rfl
    · rw [List.mapM_cons, hvalue, hexpressions]
      rfl

/-! ### Groups -/

/-- What a grouped statement does with a row. -/
def groupStep (groupBy : List Expr) (projections : List StreamProjection)
    (groups : List (Tuple × List StreamColumnState)) (row : EvalRow) :
    Except Error (List (Tuple × List StreamColumnState)) := do
  KeyedGroups.modifyAt (streamInitial projections) (streamStep projections · row) (← groupKey groupBy row) groups

/-- The groups are those of the streaming lambda. -/
def GroupsOf (width : Nat) (state : VectorState) (groups : List (Tuple × List StreamColumnState)) : Prop :=
  KeyedGroups.Related (GroupKeeps width) state.groups groups

section Grouped

variable {projections : List StreamProjection} (hplan : streamProjections statement = some projections)
  (hsupported : ∀ column ∈ statement.columns, supportedColumn column)

include hplan

theorem length_projections : projections.length = statement.columns.length :=
  (forall₂_of_streamProjections hplan).length_eq.symm

include hsupported

/-- A row goes into its group in lockstep. -/
theorem groupRow_lockstep (hgrouped : statement.grouped)
    (hshow : VectorsShow statement rows predicate groupVectors projected) (hrow : rows[i]? = some row)
    {state : VectorState} {groups : List (Tuple × List StreamColumnState)}
    (hstate : GroupsOf statement.columns.length state groups) :
    Except.Lockstep (GroupsOf statement.columns.length)
      (vectorRow statement batch predicate groupVectors projected state i)
      (do
        if ← conditionHolds statement.where' row then groupStep statement.groupBy projections groups row
        else pure groups) := by
  refine vectorRow_lockstep hshow hrow hstate ?_
  obtain ⟨key, hvectors, hkey⟩ := mapM_value_of_shows hshow.groups hrow
  have hcolumns : ∀ group states, GroupKeeps statement.columns.length group states →
      Except.Lockstep (GroupKeeps statement.columns.length)
        (groupColumns projected i statement.columns 0 (initializeGroup statement.columns.length group))
        (streamStep projections states row) := by
    intro group states hgroup
    exact (@groupColumns_lockstep _ _ _ _ _ _ _ _ _ [] (forall₂_of_streamProjections hplan) hsupported hshow.projected
      rfl hrow hgroup.1 hgroup.2).mono fun group' states' hgroup' ↦ initializeGroup_keeps hgroup'.1 hgroup'.2
  have hmodify := KeyedGroups.modifyAt_lockstep (groupKeeps_new (length_projections hplan)) hcolumns key hstate
  rw [hgrouped, Bool.not_true, if_neg Bool.false_ne_true, hvectors, Except.ok_bind, groupStep, groupKey, hkey,
    Except.ok_bind, ← Except.bind_ok (KeyedGroups.modifyAt (streamInitial projections) _ key groups)]
  exact hmodify.bind fun groups' groups'' hgroups ↦ .ok hgroups

end Grouped

/-! ### Rows without grouping -/

/-- A batch that has all columns of the table has them in their places. -/
theorem VectorBatch.Of.columns_eq (hbatch : batch.Of table name alias' required stored)
    (hfull : required = List.range table.columns.length) : batch.columns = boundColumns table name alias' := by
  obtain ⟨metas, hmetas, hcolumns⟩ := hbatch.columns
  have hsame : metas = table.columns := by
    have hlength : metas.length = table.columns.length := by rw [← hmetas.length_eq, hfull, List.length_range]
    refine List.ext_getElem? fun j ↦ ?_
    by_cases hj : j < metas.length
    · have hindex : required[j]? = some j := by
        rw [hfull, List.getElem?_range (hlength ▸ hj)]
      have hmetadata := List.getElem?_eq_getElem hj
      rw [hmetadata]
      exact (List.Forall₂.getElem? hmetas hindex hmetadata).symm
    · rw [List.getElem?_eq_none (Nat.le_of_not_lt hj), List.getElem?_eq_none (hlength ▸ Nat.le_of_not_lt hj)]
  rw [hcolumns, hsame]

/-- The columns that a wildcard stands for. -/
theorem outputWildcard_eq {source : StoredRow} {index : Nat} (hbatch : batch.Of table name alias' required stored)
    (hfull : required = List.range table.columns.length) (hsource : stored[i]? = some source) (wildcard : Wildcard)
    (allRows : List EvalRow) : outputColumn batch projected i index (.wildcard wildcard) =
      thrown (projectColumn (bindRow (boundColumns table name alias') source) allRows (.wildcard wildcard)) := by
  rw [outputColumn, hbatch.columns_eq hfull]
  refine List.mapM_eq_ok fun item hitem ↦ ?_
  obtain ⟨hmem, -⟩ := List.mem_filter.1 hitem
  obtain ⟨-, hlt, -⟩ := List.mem_zipIdx hmem
  rw [Nat.zero_add, boundColumns, List.length_map] at hlt
  have hindex : required[item.2]? = some item.2 := by
    rw [hfull, List.getElem?_range hlt]
  obtain ⟨vector, hvector⟩ : ∃ vector, batch.values[item.2]? = some vector := by
    refine ⟨_, List.getElem?_eq_getElem ?_⟩
    rwa [← hbatch.values.length_eq, hfull, List.length_range]
  have hholds := (List.Forall₂.getElem? hbatch.values hindex hvector).1
  have hfield : (stored.map (·.field item.2))[i]? = some (source.field item.2) := by
    rw [List.getElem?_map, hsource]
    rfl
  rw [elementAt_of_getElem? hvector, Except.ok_bind, hholds.value hfield]
  rfl

/-- A column of the select list. -/
theorem outputColumn_eq {shown : Option TypedVector} {index : Nat} {source : StoredRow} (allRows : List EvalRow)
    (hbatch : batch.Of table name alias' required stored) (hsource : stored[i]? = some source)
    (hshown : ShowsColumn (tableRows table name alias' stored) expression shown)
    (hprojected : projected[index]? = some shown) (hsupported : supportedScalar expression)
    (hfull : expression.isWildcard → required = List.range table.columns.length) :
    ∃ values, outputColumn batch projected i index expression = .ok values ∧
      projectColumn (bindRow (boundColumns table name alias') source) allRows expression = .ok values := by
  have hrow : (tableRows table name alias' stored)[i]? = some (bindRow (boundColumns table name alias') source) := by
    rw [tableRows, List.getElem?_map, hsource]
    rfl
  cases hshown with
  | none hnone =>
    -- No vector is evaluated for a wildcard: its columns are those of the batch.
    cases expression with
    | wildcard wildcard => exact ⟨_, outputWildcard_eq hbatch (hfull rfl) hsource wildcard allRows, rfl⟩
    | function name args distinct alias' => cases hsupported
    | _ => cases hnone
  | @some scalar vector hsome hshows =>
    obtain ⟨value, hvalue, hat⟩ := hshows.at hrow
    obtain ⟨rfl, houtput, hproject⟩ : scalar = expression ∧
        outputColumn batch projected i index expression =
          (do pure [← (← dereference (← elementAt projected index)).value i]) ∧
        projectColumn (bindRow (boundColumns table name alias') source) allRows expression =
          (do pure [← eval expression (bindRow (boundColumns table name alias') source)]) := by
      cases expression with
      | wildcard wildcard => cases hsome
      | function name args distinct alias' => cases hsupported
      | window funcName partitionBy orderBy alias' => cases hsupported
      | _ => exact ⟨(Option.some.inj hsome).symm, rfl, rfl⟩
    refine ⟨[value], ?_, ?_⟩
    · rw [houtput, elementAt_of_getElem? hprojected, Except.ok_bind, dereference, Except.pure_eq_ok, Except.ok_bind,
        hat.value_eq]
      rfl
    · rw [hproject, hvalue]
      rfl

/-- The columns of the select list from one on. -/
theorem outputColumns_eq {columns : List Expr} {rest : List (Option TypedVector)} {index : Nat} {source : StoredRow}
    (allRows : List EvalRow) (hbatch : batch.Of table name alias' required stored)
    (hsource : stored[i]? = some source)
    (hshown : List.Forall₂ (ShowsColumn (tableRows table name alias' stored)) columns rest)
    (hrest : projected.drop index = rest) (hsupported : ∀ column ∈ columns, supportedScalar column)
    (hfull : ∀ column ∈ columns, column.isWildcard → required = List.range table.columns.length) :
    ∃ parts, outputColumns batch projected i columns index = .ok parts.flatten ∧
      columns.mapM (projectColumn (bindRow (boundColumns table name alias') source) allRows) = .ok parts := by
  induction hshown generalizing index with
  | nil => exact ⟨[], rfl, rfl⟩
  | @cons column shown columns rest hcolumn _ ih =>
    obtain ⟨hsupportedColumn, hsupportedColumns⟩ := List.forall_mem_cons.1 hsupported
    obtain ⟨hfullColumn, hfullColumns⟩ := List.forall_mem_cons.1 hfull
    have hprojected : projected[index]? = some shown := by
      rw [← List.head?_drop, hrest]
      rfl
    have hdrop : projected.drop (index + 1) = rest := by
      rw [← List.drop_drop, hrest]
      rfl
    obtain ⟨values, houtput, hproject⟩ :=
      outputColumn_eq allRows hbatch hsource hcolumn hprojected hsupportedColumn hfullColumn
    obtain ⟨parts, houtputs, hprojects⟩ := ih hdrop hsupportedColumns hfullColumns
    refine ⟨values :: parts, ?_, ?_⟩
    · rw [outputColumns, houtput, Except.ok_bind, houtputs]
      rfl
    · rw [List.mapM_cons, hproject, hprojects]
      rfl

/-- What a statement without grouping does with a row. -/
def plainStep (statement : SelectStmt) (allRows : List EvalRow) (done : List Tuple) (row : EvalRow) :
    Except Error (List Tuple) := do
  pure (done ++ [← project statement row allRows])

/-- The output rows so far. -/
def RowsOfState (state : VectorState) (done : List Tuple) : Prop :=
  state.rows = done

/-- Without groups a row goes into the output in lockstep. -/
theorem plainRow_lockstep {source : StoredRow} (allRows : List EvalRow) (hgrouped : statement.grouped = false)
    (hbatch : batch.Of table name alias' required stored) (hsource : stored[i]? = some source)
    (hshow : VectorsShow statement (tableRows table name alias' stored) predicate groupVectors projected)
    (hsupported : ∀ column ∈ statement.columns, supportedScalar column)
    (hfull : ∀ column ∈ statement.columns, column.isWildcard → required = List.range table.columns.length)
    {state : VectorState} {done : List Tuple} (hstate : RowsOfState state done) :
    Except.Lockstep RowsOfState (vectorRow statement batch predicate groupVectors projected state i)
      (do
        if ← conditionHolds statement.where' (bindRow (boundColumns table name alias') source) then
          plainStep statement allRows done (bindRow (boundColumns table name alias') source)
        else pure done) := by
  have hrow : (tableRows table name alias' stored)[i]? = some (bindRow (boundColumns table name alias') source) := by
    rw [tableRows, List.getElem?_map, hsource]
    rfl
  refine vectorRow_lockstep hshow hrow hstate ?_
  obtain ⟨parts, houtput, hproject⟩ :=
    outputColumns_eq allRows hbatch hsource hshow.projected (show projected.drop 0 = projected from rfl) hsupported
      hfull
  rw [hgrouped, Bool.not_false, if_pos rfl, houtput, plainStep, project, hproject]
  refine .ok ?_
  rw [RowsOfState, ← show state.rows = done from hstate]

end SkibidiQL
