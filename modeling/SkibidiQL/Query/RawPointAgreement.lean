import SkibidiQL.Query.RawPoint

/-!
# The raw point select and the generic pipeline

The rows agree when the coerced key compares as equal with the keys that are equal to the literal, and with no
others, and the coercion itself is defined.
-/

namespace SkibidiQL

open Bytes

variable {order : GroupOrder} {db : Database} {entries : List (Value × RowId)} {statement : SelectStmt}
  {table : TableMeta} {position : Nat} {primary : ColumnMeta} {condition : Expr} {literal : Literal}
  {projection : List Nat}

/-- The statements that `executeRawPointSelect` does not decline, with what it plans for them. -/
structure RawPointPlan (db : Database) (statement : SelectStmt) (table : TableMeta) (position : Nat)
    (primary : ColumnMeta) (condition : Expr) (literal : Literal) (projection : List Nat) : Prop where
  shape : rawPointShape statement
  where_eq : statement.where' = some condition
  equation : isEquation (some condition)
  table_eq : db.catalog.tables[statement.fromTable]? = some table
  primary_eq : primaryColumn table = some (position, primary)
  literal_eq : keyPredicate primary statement.fromTable statement.fromAlias condition = some literal
  projection_eq : rawProjection table statement.fromTable statement.fromAlias statement.columns =
    .ok (some projection)

/-- The coercion of the value to the type of the column is defined: it converts no double to an integer that has
not 64 bits. -/
def CoercionDefined (column : ColumnMeta) (value : Value) : Prop :=
  upper column.type ∈ integerTypes → value.type = .real → ConvertsToInt64 value.toFloat

instance (column : ColumnMeta) (value : Value) : Decidable (CoercionDefined column value) :=
  inferInstanceAs (Decidable (_ → _ → _))

/-- What the fast path does is defined, it answers with the result of the generic pipeline, and the row that its
index leads to is the one that the condition holds on. -/
structure RawPointAgrees (order : GroupOrder) (db : Database) (entries : List (Value × RowId)) (statement : SelectStmt)
    (primary : ColumnMeta) (literal : Literal) (condition : Expr) : Prop where
  defined : CoercionDefined primary (literalValue literal)
  result : ∃ result, executeRawPointSelect db entries statement = .ok (some result) ∧
    scanSelect order db statement = .ok result
  row_iff : ∀ key, primaryKeyPredicate db.catalog statement.fromTable statement.fromAlias statement.where' =
      .ok (some key) → ∀ row ∈ db.stored statement.fromTable, ∀ table : TableMeta,
      db.catalog.tables[statement.fromTable]? = some table →
      (lookupRowId entries key = .ok (some row.id) ↔
        HoldsOnRow condition (bindRow (boundColumns table statement.fromTable statement.fromAlias) row))

/-- The literal has a key: it coerces to the type of the column, by a conversion that is defined, the keys of
different rows do not compare as equal, and it is the keys equal to the literal that compare as equal with it. -/
def LiteralKeepsKeys (position : Nat) (primary : ColumnMeta) (literal : Literal) (rows : List StoredRow) :
    Prop :=
  CoercionDefined primary (literalValue literal) ∧
    ∃ key, coerceValue primary (literalValue literal) = .ok key ∧ Separated position rows ∧
      ∀ row ∈ rows, (row.field position).compare key = .eq ↔ row.field position == literalValue literal

/-! ### The condition -/

/-- The primary column is one of the table. -/
theorem primaryColumn_eq_some (h : primaryColumn table = some (position, primary)) :
    table.columns[position]? = some primary := by
  rw [primaryColumn, Option.map_eq_some_iff] at h
  obtain ⟨⟨column, index⟩, hfind, heq⟩ := h
  obtain ⟨rfl, rfl⟩ := Prod.mk.inj heq
  exact List.mem_zipIdx_iff_getElem?.1 (List.mem_of_find?_eq_some hfind)

/-- What `keyLiteral` accepts is a reference to the key and a literal. -/
theorem keyLiteral_eq_some {name alias' : Bytes} {columnNode valueNode : Expr}
    (h : keyLiteral primary name alias' columnNode valueNode = some literal) :
    ∃ column, columnNode = .column column ∧ valueNode = .literal literal ∧
      column.column = primary.name ∧ Qualified column name alias' := by
  rw [keyLiteral.eq_def] at h
  split at h
  · rename_i column value
    split at h
    · rename_i hname
      cases h
      exact ⟨column, rfl, rfl, hname⟩
    · cases h
  · cases h

/-- The value of an equation is a truth value that says whether the operands are equal, when one of them is
not NULL. -/
theorem applyBinary_eq_ok {left right : Value} (h : left.isNull = false ∨ right.isNull = false) :
    ∃ value, applyBinary .eq left right = .ok value ∧ value.asBoolean = (left == right) := by
  by_cases hnull : left.isNull || right.isNull
  · refine ⟨.null, by simp only [applyBinary, hnull]; rfl, ?_⟩
    have hne : (left == right) = false := by
      rcases h with h | h <;> rw [h] at hnull <;> simp only [Bool.false_or, Bool.or_false] at hnull
      · rw [Value.isNull_iff.1 hnull, Value.beq_comm, Value.beq_null_left, h]
      · rw [Value.isNull_iff.1 hnull, Value.beq_null_left, h]
    rw [hne]
    rfl
  · exact ⟨.boolean (left == right), by simp only [applyBinary, hnull]; rfl, rfl⟩

/-- The condition of an accepted statement asks whether the key equals the literal. -/
theorem RawPointPlan.eval_condition
    (h : RawPointPlan db statement table position primary condition literal projection) {row : StoredRow}
    (hnull : (row.field position).isNull = false) :
    ∃ value, eval condition (bindRow (boundColumns table statement.fromTable statement.fromAlias) row) =
      .ok value ∧ value.asBoolean = (row.field position == literalValue literal) := by
  have hcolumn : ∀ {column : ColumnRef}, column.column = primary.name →
      Qualified column statement.fromTable statement.fromAlias →
      eval (.column column) (bindRow (boundColumns table statement.fromTable statement.fromAlias) row) =
        .ok (row.field position) := fun hname hqualified ↦
    eval_column (resolveIndex_of_name (db.columns_nodup _ _ h.table_eq) hqualified
      (primaryColumn_eq_some h.primary_eq) hname.symm) row
  obtain ⟨left, right, alias', rfl⟩ : ∃ left right alias', condition = .binary .eq left right alias' := by
    have hequation := h.equation
    rw [isEquation.eq_def] at hequation
    split at hequation
    · rename_i heq
      exact ⟨_, _, _, Option.some.inj heq⟩
    · cases hequation
  have hliteral := h.literal_eq
  rw [keyPredicate, Option.or_eq_some_iff] at hliteral
  rcases hliteral with hliteral | ⟨-, hliteral⟩
  · obtain ⟨column, rfl, rfl, hname, hqualified⟩ := keyLiteral_eq_some hliteral
    rw [eval, hcolumn hname hqualified, eval]
    exact applyBinary_eq_ok (.inl hnull)
  · obtain ⟨column, rfl, rfl, hname, hqualified⟩ := keyLiteral_eq_some hliteral
    rw [eval, hcolumn hname hqualified, eval, Value.beq_comm]
    exact applyBinary_eq_ok (.inr hnull)

/-- The filter of the generic pipeline. -/
theorem RawPointPlan.filterRows_eq
    (h : RawPointPlan db statement table position primary condition literal projection)
    (hkeyed : PrimaryKeyed position primary (db.stored statement.fromTable)) :
    filterRows statement.where' ((db.stored statement.fromTable).map
        (bindRow (boundColumns table statement.fromTable statement.fromAlias))) =
      .ok (((db.stored statement.fromTable).filter (·.field position == literalValue literal)).map
        (bindRow (boundColumns table statement.fromTable statement.fromAlias))) := by
  rw [h.where_eq, filterRows]
  refine (List.filterM_eq_ok (p := fun row ↦ row.values.getD position .null == literalValue literal)
    fun row hrow ↦ ?_).trans (congrArg Except.ok List.filter_map)
  obtain ⟨stored, hstored, rfl⟩ := List.mem_map.1 hrow
  obtain ⟨value, hvalue, hboolean⟩ := h.eval_condition (hkeyed.not_isNull hstored)
  rw [hvalue, Except.ok_bind, hboolean]
  rfl

/-! ### The projection -/

section Projection

variable {name alias' : Bytes}

/-- What a select list projects, the generic pipeline projects too. -/
theorem project_of_rawProjection {row : StoredRow} {rows : List EvalRow} {columns : List Expr}
    {projection : List Nat} (h : rawProjection table name alias' columns = .ok (some projection)) :
    ∃ tuples, columns.mapM (projectColumn (bindRow (boundColumns table name alias') row) rows) = .ok tuples ∧
      tuples.flatten = projection.map row.field := by
  -- An entry of the list and what follows it are projected apart, and the tuples are joined.
  have hcons : ∀ {expression : Expr} {rest : List Expr} {tuple : Tuple} {positions : List Nat},
      projectColumn (bindRow (boundColumns table name alias') row) rows expression = .ok tuple →
      (∃ tuples, rest.mapM (projectColumn (bindRow (boundColumns table name alias') row) rows) = .ok tuples ∧
        tuples.flatten = positions.map row.field) →
      ∃ tuples, (expression :: rest).mapM (projectColumn (bindRow (boundColumns table name alias') row) rows) =
        .ok tuples ∧ tuples.flatten = tuple ++ positions.map row.field := by
    rintro expression rest tuple positions hhead ⟨tuples, htail, hflatten⟩
    refine ⟨tuple :: tuples, ?_, by rw [List.flatten_cons, hflatten]⟩
    rw [List.mapM_cons, hhead, Except.ok_bind, htail]
    rfl
  induction columns generalizing projection with
  | nil =>
    cases h
    exact ⟨[], rfl, rfl⟩
  | cons expression columns ih =>
    rw [rawProjection.eq_def] at h
    split at h
    · rename_i heq
      cases heq
    · rename_i wildcard rest heq
      obtain ⟨rfl, rfl⟩ := List.cons.inj heq
      split at h
      -- The star is projected only where it stands for the columns of this table.
      · rename_i hcovers
        obtain ⟨positions, hpositions, h⟩ := Except.bind_eq_ok.1 h
        cases positions with
        | none => cases h
        | some positions =>
          cases h
          rw [List.map_append]
          exact hcons (projectColumn_wildcard hcovers) (ih hpositions)
      · cases h
    · rename_i column rest heq
      obtain ⟨rfl, rfl⟩ := List.cons.inj heq
      obtain ⟨index, hindex, h⟩ := Except.bind_eq_ok.1 h
      obtain ⟨positions, hpositions, h⟩ := Except.bind_eq_ok.1 h
      cases positions with
      | none => cases h
      | some positions =>
        cases h
        have hhead : projectColumn (bindRow (boundColumns table name alias') row) rows (.column column) =
            .ok [row.field index] := by
          rw [projectColumn, eval_column (resolveTableColumn_eq_ok hindex).2.2]
          · rfl
          · simp
          · simp
        exact hcons hhead (ih hpositions)
    · cases h

/-- The columns of a select list that is projected: wildcards that cover the table, and columns. -/
theorem mem_of_rawProjection {columns : List Expr} {projection : List Nat}
    (h : rawProjection table name alias' columns = .ok (some projection)) :
    (∀ p ∈ projection, p < table.columns.length) ∧ ∀ expression ∈ columns,
      (∃ wildcard : Wildcard, expression = .wildcard wildcard ∧ wildcard.covers name alias') ∨
        ∃ column, expression = .column column := by
  induction columns generalizing projection with
  | nil =>
    cases h
    exact ⟨nofun, nofun⟩
  | cons expression columns ih =>
    rw [rawProjection.eq_def] at h
    split at h
    · rename_i heq
      cases heq
    · rename_i wildcard rest heq
      obtain ⟨rfl, rfl⟩ := List.cons.inj heq
      split at h
      · rename_i hcovers
        obtain ⟨positions, hpositions, h⟩ := Except.bind_eq_ok.1 h
        cases positions with
        | none => cases h
        | some positions =>
          cases h
          obtain ⟨hrange, hcolumns⟩ := ih hpositions
          refine ⟨fun p hp ↦ ?_, List.forall_mem_cons.2 ⟨.inl ⟨wildcard, rfl, hcovers⟩, hcolumns⟩⟩
          exact (List.mem_append.1 hp).elim List.mem_range.1 (hrange p)
      · cases h
    · rename_i column rest heq
      obtain ⟨rfl, rfl⟩ := List.cons.inj heq
      obtain ⟨index, hindex, h⟩ := Except.bind_eq_ok.1 h
      obtain ⟨positions, hpositions, h⟩ := Except.bind_eq_ok.1 h
      cases positions with
      | none => cases h
      | some positions =>
        cases h
        obtain ⟨hrange, hcolumns⟩ := ih hpositions
        obtain ⟨c, hc, -⟩ := (resolveTableColumn_eq_ok hindex).2.1
        exact ⟨List.forall_mem_cons.2 ⟨(List.getElem?_eq_some_iff.1 hc).1, hrange⟩,
          List.forall_mem_cons.2 ⟨.inr ⟨column, rfl⟩, hcolumns⟩⟩
    · cases h

end Projection

/-- A LIMIT that is a positive literal keeps a row. -/
theorem one_le_rowCount {limit : Option Expr} (hlimit : 0 < integerLiteral limit (-1)) :
    1 ≤ rowCount limit := by
  have hsame : integerLiteral limit 0 = integerLiteral limit (-1) := by
    rw [integerLiteral.eq_def, integerLiteral.eq_def] at *
    split at hlimit
    · rfl
    · rfl
    · exact absurd hlimit (by decide)
  rw [rowCount, hsame]
  have hpos := Int64.lt_iff_toInt_lt.1 hlimit
  rw [Int64.toInt_zero] at hpos
  omega

section Plan

variable (h : RawPointPlan db statement table position primary condition literal projection)

include h

/-- The fast path projects the same values. -/
theorem RawPointPlan.rawPointRow_eq {row : StoredRow} (hrow : row ∈ db.stored statement.fromTable) :
    rawPointRow table projection row = .ok (projection.map row.field) := by
  rw [rawPointRow, rawFields_eq h.table_eq hrow]
  have hrange := (mem_of_rawProjection h.projection_eq).1
  exact List.mapM_eq_ok fun p hp ↦ fieldAt_rawFields h.table_eq hrow hp (hrange p hp)

/-- The names do not depend on a row to look at. -/
theorem RawPointPlan.outputNames_eq (sample : Option (List BoundColumn))
    (hsample : ∀ columns, sample = some columns →
      columns = boundColumns table statement.fromTable statement.fromAlias) :
    outputNames db.catalog statement sample = outputNames db.catalog statement none := by
  have hjoins : statement.joins = [] := by
    have hshape := h.shape
    simp only [rawPointShape, Bool.and_eq_true] at hshape
    exact List.isEmpty_iff.1 hshape.1.1.1.1.1.1.1
  cases sample with
  | none => rfl
  | some columns =>
    obtain rfl := hsample columns rfl
    refine List.flatMap_congr fun item hitem ↦ ?_
    have hmem := List.fst_mem_of_mem_zipIdx hitem
    rcases (mem_of_rawProjection h.projection_eq).2 item.1 hmem with ⟨wildcard, heq, hcovers⟩ | ⟨column, heq⟩
    · simp only [heq]
      have hall : ∀ column ∈ boundColumns table statement.fromTable statement.fromAlias,
          wildcard.covers column.table column.alias' = true := by
        intro column hcolumn
        obtain ⟨c, -, rfl⟩ := List.mem_map.1 hcolumn
        exact hcovers
      rw [List.filter_eq_self.2 hall]
      simp [wildcardNames, hjoins, hcovers, h.table_eq, boundColumns, Function.comp_def]
    · simp only [heq]

/-- A point lookup has no groups. -/
theorem RawPointPlan.grouped_eq_false : statement.grouped = false ∧ wholeRowCall statement.columns = none := by
  have hshape := h.shape
  simp only [rawPointShape, Bool.and_eq_true, Bool.not_eq_true'] at hshape
  obtain ⟨⟨-, hgroupBy⟩, haggregate⟩ := hshape
  refine ⟨by rw [SelectStmt.grouped, hgroupBy, haggregate]; rfl, ?_⟩
  have hcolumns := (mem_of_rawProjection h.projection_eq).2
  revert hcolumns
  generalize statement.columns = columns
  intro hcolumns
  induction columns with
  | nil => rfl
  | cons expression columns ih =>
    obtain ⟨hfirst, hrest⟩ := List.forall_mem_cons.1 hcolumns
    rcases hfirst with ⟨wildcard, rfl, -⟩ | ⟨column, rfl⟩ <;> exact ih hrest

/-- DISTINCT, ORDER BY, OFFSET and a positive LIMIT leave at most one row as it is. -/
theorem RawPointPlan.finishRows_eq {output : List OutputRow} (hlength : output.length ≤ 1) :
    finishRows statement output = output.map (·.values) := by
  have hshape := h.shape
  simp only [rawPointShape, Bool.and_eq_true, Bool.not_eq_true', Bool.or_eq_true, decide_eq_true_eq] at hshape
  obtain ⟨⟨⟨⟨⟨⟨⟨-, hdistinct⟩, -⟩, horder⟩, hlimit⟩, hoffset⟩, -⟩, -⟩ := hshape
  have hlimitRows : limitRows statement output = output := by
    rw [limitRows, Option.isNone_iff_eq_none.1 hoffset]
    show (if statement.limit.isSome then (output.drop 0).take (rowCount statement.limit) else output.drop 0) = _
    rw [List.drop_zero]
    split
    · rename_i hsome
      exact List.take_of_length_le (hlength.trans (one_le_rowCount
        (hlimit.resolve_left (by rw [← Option.not_isSome, hsome]; exact Bool.false_ne_true))))
    · rfl
  rw [finishRows, hdistinct, if_neg Bool.false_ne_true, orderRows, horder, if_pos rfl, hlimitRows]

/-- The generic pipeline from the filter on, for at most one row. -/
theorem RawPointPlan.selectRows_eq {rows : List StoredRow} (hlength : rows.length ≤ 1) :
    selectRows order db.catalog statement
        (rows.map (bindRow (boundColumns table statement.fromTable statement.fromAlias))) =
      .ok { columns := outputNames db.catalog statement none,
            rows := rows.map fun row ↦ projection.map row.field } := by
  obtain ⟨hgrouped, hwhole⟩ := h.grouped_eq_false
  -- The shape excludes everything that could reorder or drop a row.
  have horder : statement.orderBy = [] := by
    have hshape := h.shape
    simp only [rawPointShape, Bool.and_eq_true] at hshape
    exact List.isEmpty_iff.1 hshape.1.1.1.1.2
  have hnames := h.outputNames_eq ((rows.map (bindRow (boundColumns table statement.fromTable
    statement.fromAlias))).head?.map fun row ↦ row.columns.getD []) (by
      rw [List.head?_map, Option.map_map]
      intro columns hcolumns
      obtain ⟨row, -, rfl⟩ := Option.map_eq_some_iff.1 hcolumns
      rfl)
  have houtput : plainOutput statement false (outputNames db.catalog statement none)
      (rows.map (bindRow (boundColumns table statement.fromTable statement.fromAlias))) =
      .ok (rows.map fun row ↦ { values := projection.map row.field }) := by
    rw [plainOutput, List.mapM_map]
    refine List.mapM_eq_ok fun row _ ↦ ?_
    obtain ⟨tuples, htuples, hflatten⟩ := project_of_rawProjection h.projection_eq
    have hproject : project statement
        (bindRow (boundColumns table statement.fromTable statement.fromAlias) row)
        (rows.map (bindRow (boundColumns table statement.fromTable statement.fromAlias))) =
        .ok (projection.map row.field) := by
      rw [project, htuples, Except.ok_bind, hflatten]
      rfl
    simp only [Function.comp_apply, Bool.false_eq_true, if_false, hproject, Except.ok_bind, orderKeysBy,
      horder]
    rfl
  simp only [selectRows, hwhole, bestRows, hgrouped, Except.pure_eq_ok, Except.ok_bind, Option.isSome_none,
    hnames, houtput, Bool.false_eq_true, if_false]
  rw [h.finishRows_eq (by rwa [List.length_map]), List.map_map]
  rfl

/-- The key of an accepted statement is its literal in the type of the column. -/
theorem RawPointPlan.primaryKeyPredicate_eq :
    primaryKeyPredicate db.catalog statement.fromTable statement.fromAlias statement.where' =
      coerceValue primary (literalValue literal) >>= fun key ↦ .ok (some key) := by
  simp only [primaryKeyPredicate, h.table_eq, h.where_eq, h.primary_eq, h.literal_eq]
  rfl

/-- The fast path looks the key up and answers. -/
theorem RawPointPlan.execute_eq :
    executeRawPointSelect db entries statement =
      coerceValue primary (literalValue literal) >>= fun key ↦
        lookupRowId entries key >>= rawPointAnswer db statement table projection := by
  have hequation : isEquation statement.where' := h.where_eq ▸ h.equation
  rw [executeRawPointSelect, h.shape, hequation, h.primaryKeyPredicate_eq]
  rcases coerceValue primary (literalValue literal) with e | key
  · rfl
  · show rawPointByKey db entries statement key = lookupRowId entries key >>= _
    rw [rawPointByKey, Database.table_eq_ok h.table_eq, Except.ok_bind, h.projection_eq]
    rfl

/-- The full scan filters by the literal and projects. -/
theorem RawPointPlan.scanSelect_eq (hkeyed : PrimaryKeyed position primary (db.stored statement.fromTable))
    (hlength : ((db.stored statement.fromTable).filter
      (·.field position == literalValue literal)).length ≤ 1) :
    scanSelect order db statement = .ok
      { columns := outputNames db.catalog statement none,
        rows := ((db.stored statement.fromTable).filter (·.field position == literalValue literal)).map
          fun row ↦ projection.map row.field } := by
  rw [scanSelect, scanTable_eq_ok h.table_eq, Except.ok_bind, genericSelect, h.filterRows_eq hkeyed,
    Except.ok_bind, h.selectRows_eq hlength]

/-- The condition holds on the rows whose key equals the literal. -/
theorem RawPointPlan.holdsOnRow_iff {row : StoredRow} (hnull : (row.field position).isNull = false) :
    HoldsOnRow condition (bindRow (boundColumns table statement.fromTable statement.fromAlias) row) ↔
      row.field position == literalValue literal := by
  obtain ⟨value, hvalue, hboolean⟩ := h.eval_condition hnull
  rw [← hboolean]
  constructor
  · rintro ⟨value', hvalue', hholds⟩
    rwa [Except.ok.inj (hvalue.symm.trans hvalue')]
  · exact fun hholds ↦ ⟨value, hvalue, hholds⟩

end Plan

/-! ### Agreement -/

/-- The place of a key is found in the index. -/
theorem lookupRowId_eq_ok {key : Value} {id : Option RowId} :
    lookupRowId entries key = .ok id ↔
      ∃ index, buildIndex entries = .ok index ∧ index.find Value.compare key = id := by
  rw [lookupRowId, Except.bind_eq_ok]
  simp only [Except.pure_eq_ok, Except.ok.injEq]

/-- A list without duplicates has one element that satisfies a condition, if exactly one does. -/
theorem filter_eq_singleton {α : Type} {l : List α} {p : α → Bool} {a : α} (hnodup : l.Nodup) (ha : a ∈ l)
    (hp : ∀ b ∈ l, p b ↔ b = a) : l.filter p = [a] := by
  obtain ⟨front, back, rfl⟩ := List.append_of_mem ha
  rw [List.nodup_append, List.nodup_cons] at hnodup
  have hfront : front.filter p = [] := List.filter_eq_nil_iff.2 fun b hb hpb ↦
    hnodup.2.2 b hb a List.mem_cons_self ((hp b (List.mem_append_left _ hb)).1 hpb)
  have hback : back.filter p = [] := List.filter_eq_nil_iff.2 fun b hb hpb ↦
    hnodup.2.1.1 ((hp b (by simp [hb])).1 hpb ▸ hb)
  rw [List.filter_append, List.filter_cons, if_pos ((hp a ha).2 rfl), hfront, hback]
  rfl

section Agreement

variable (h : RawPointPlan db statement table position primary condition literal projection)
  (hkeyed : PrimaryKeyed position primary (db.stored statement.fromTable))
  (hentries : entries.Perm (keyedRows position (db.stored statement.fromTable)))

include hkeyed hentries

/-- The index finds exactly the keys that compare as equal, when the literal keeps the keys. -/
theorem LiteralKeepsKeys.find_iff {key : Value} {index : BPlusTree Value}
    (hindex : buildIndex entries = .ok index)
    (hkey : coerceValue primary (literalValue literal) = .ok key)
    (hrows : ∀ row ∈ db.stored statement.fromTable,
      (row.field position).compare key = .eq ↔ row.field position == literalValue literal) :
    (∃ row ∈ db.stored statement.fromTable, index.find Value.compare key = some row.id ∧
        ∀ row' ∈ db.stored statement.fromTable, row'.field position == literalValue literal ↔ row' = row) ∨
      (index.find Value.compare key = none ∧ ∀ row ∈ db.stored statement.fromTable,
        ¬(row.field position == literalValue literal)) := by
  have hids := db.nodup statement.fromTable
  by_cases hmatch : ∃ row ∈ db.stored statement.fromTable, row.field position == literalValue literal
  · left
    obtain ⟨row, hrow, hholds⟩ := hmatch
    have hliteralNaN : (literalValue literal).isNaN = false := Bool.eq_false_iff.2 fun hnan ↦
      Value.not_beq_isNaN (.inr hnan) hholds
    have hfindOf : ∀ row' ∈ db.stored statement.fromTable, row'.field position == literalValue literal →
        index.find Value.compare key = some row'.id := by
      intro row' hrow' hholds'
      obtain ⟨id, hid, hsame⟩ :=
        find_index_eq_some hkeyed hids hentries hindex hrow' ((hrows row' hrow').2 hholds')
      rw [hid, hsame (Bool.eq_false_iff.2 fun hnan ↦ Value.not_beq_isNaN (.inl hnan) hholds')
        (coerceValue_isNaN hkey hliteralNaN)]
    refine ⟨row, hrow, hfindOf row hrow hholds, fun row' hrow' ↦ ⟨fun hholds' ↦ ?_, fun heq ↦ heq ▸ hholds⟩⟩
    exact List.inj_on_of_nodup_map hids hrow' hrow
      (Option.some.inj ((hfindOf row' hrow' hholds').symm.trans (hfindOf row hrow hholds)))
  · right
    refine ⟨find_index_eq_none hkeyed hids hentries hindex fun row hrow heq ↦ ?_, fun row hrow hholds ↦ ?_⟩
    · exact hmatch ⟨row, hrow, (hrows row hrow).1 heq⟩
    · exact hmatch ⟨row, hrow, hholds⟩

include h

/-- The literal keeps the keys when the paths agree. -/
theorem RawPointAgrees.literalKeepsKeys
    (hagrees : RawPointAgrees order db entries statement primary literal condition) :
    LiteralKeepsKeys position primary literal (db.stored statement.fromTable) := by
  obtain ⟨result, hresult, -⟩ := hagrees.result
  rw [h.execute_eq] at hresult
  obtain ⟨key, hkey, hresult⟩ := Except.bind_eq_ok.1 hresult
  obtain ⟨found, hlookup, hanswer⟩ := Except.bind_eq_ok.1 hresult
  obtain ⟨index, hindex, hfound⟩ := lookupRowId_eq_ok.1 hlookup
  have hids := db.nodup statement.fromTable
  have hpredicate : primaryKeyPredicate db.catalog statement.fromTable statement.fromAlias
      statement.where' = .ok (some key) := by
    rw [h.primaryKeyPredicate_eq, hkey]
    rfl
  -- the index leads to the rows on which the condition holds
  have hfind : ∀ row ∈ db.stored statement.fromTable,
      found = some row.id ↔ row.field position == literalValue literal := by
    intro row hrow
    rw [← h.holdsOnRow_iff (hkeyed.not_isNull hrow),
      ← hagrees.row_iff key hpredicate row hrow table h.table_eq, hlookup, Except.ok.injEq]
  refine ⟨hagrees.defined, key, hkey, (exists_index_iff hkeyed hids hentries).1 ⟨index, hindex⟩, fun row hrow ↦ ⟨?_, ?_⟩⟩
  · intro heq
    obtain ⟨id, hid, hsame⟩ := find_index_eq_some hkeyed hids hentries hindex hrow heq
    obtain rfl : found = some id := hfound.symm.trans hid
    -- the row that was read is the one, or a NaN is equal to nothing
    obtain ⟨row', hrow', hid'⟩ : ∃ row' ∈ db.stored statement.fromTable, row'.id = id := by
      rw [rawPointAnswer] at hanswer
      cases hread : db.read statement.fromTable id with
      | none =>
        rw [hread] at hanswer
        cases hanswer
      | some row' => exact ⟨row', Database.mem_of_read_eq_some hread⟩
    have hholds := (hfind row' hrow').1 (by rw [hid'])
    have hkeyNaN : key.isNaN = false := coerceValue_isNaN hkey (Bool.eq_false_iff.2 fun hnan ↦
      Value.not_beq_isNaN (.inr hnan) hholds)
    by_cases hrowNaN : (row.field position).isNaN
    · rw [subsingleton_of_isNaN hkeyed hentries hindex hrow hrowNaN, List.mem_singleton] at hrow'
      rwa [← hrow']
    · exact (hfind row hrow).1 (by rw [hsame (Bool.eq_false_iff.2 hrowNaN) hkeyNaN])
  · intro hholds
    have hliteralNaN : (literalValue literal).isNaN = false := Bool.eq_false_iff.2 fun hnan ↦
      Value.not_beq_isNaN (.inr hnan) hholds
    have hfoundRow := (hfind row hrow).2 hholds
    by_contra hne
    -- some key compares as equal, as something is found
    obtain ⟨row', hrow', heq⟩ : ∃ row' ∈ db.stored statement.fromTable,
        (row'.field position).compare key = .eq := by
      by_contra hnone
      have hnothing := find_index_eq_none hkeyed hids hentries hindex fun row' hrow' heq ↦
        hnone ⟨row', hrow', heq⟩
      rw [hfound, hfoundRow] at hnothing
      cases hnothing
    by_cases hrowNaN : (row'.field position).isNaN
    · rw [subsingleton_of_isNaN hkeyed hentries hindex hrow' hrowNaN, List.mem_singleton] at hrow
      exact hne (hrow ▸ heq)
    · obtain ⟨id, hid, hsame⟩ := find_index_eq_some hkeyed hids hentries hindex hrow' heq
      rw [hfound, hfoundRow] at hid
      have hrows : row.id = row'.id := (Option.some.inj hid).trans
        (hsame (Bool.eq_false_iff.2 hrowNaN) (coerceValue_isNaN hkey hliteralNaN))
      rw [List.inj_on_of_nodup_map hids hrow hrow' hrows] at hne
      exact hne heq

/-- The paths agree when the literal keeps the keys. -/
theorem LiteralKeepsKeys.rawPointAgrees
    (hkeeps : LiteralKeepsKeys position primary literal (db.stored statement.fromTable)) :
    RawPointAgrees order db entries statement primary literal condition := by
  obtain ⟨hdefined, key, hkey, hseparated, hrows⟩ := hkeeps
  have hids := db.nodup statement.fromTable
  obtain ⟨index, hindex⟩ := (exists_index_iff hkeyed hids hentries).2 hseparated
  have hfind := LiteralKeepsKeys.find_iff hkeyed hentries hindex hkey hrows
  have hexecute : executeRawPointSelect db entries statement =
      rawPointAnswer db statement table projection (index.find Value.compare key) := by
    rw [h.execute_eq, hkey, Except.ok_bind, lookupRowId_eq_ok.2 ⟨index, hindex, rfl⟩, Except.ok_bind]
  refine ⟨hdefined, ?_, ?_⟩
  -- The index finds the one row whose key equals the literal, or no row has such a key.
  · rcases hfind with ⟨row, hrow, hid, hunique⟩ | ⟨hid, hnone⟩
    · have hfilter : (db.stored statement.fromTable).filter
          (·.field position == literalValue literal) = [row] :=
        filter_eq_singleton (List.Nodup.of_map _ hids) hrow hunique
      refine ⟨_, ?_, h.scanSelect_eq hkeyed (by rw [hfilter]; rfl)⟩
      rw [hexecute, hid, rawPointAnswer, Database.read_eq_some hrow, hfilter]
      simp only [h.rawPointRow_eq hrow]
      rfl
    · have hfilter : (db.stored statement.fromTable).filter
          (·.field position == literalValue literal) = [] := List.filter_eq_nil_iff.2 hnone
      refine ⟨_, ?_, h.scanSelect_eq hkeyed (by rw [hfilter]; exact Nat.zero_le _)⟩
      rw [hexecute, hid, rawPointAnswer, hfilter]
      rfl
  · intro key' hkey' row hrow table' htable'
    obtain rfl : table = table' := Option.some.inj (h.table_eq.symm.trans htable')
    obtain rfl : key = key' := by
      rw [h.primaryKeyPredicate_eq, hkey] at hkey'
      exact Option.some.inj (Except.ok.inj hkey')
    rw [h.holdsOnRow_iff (hkeyed.not_isNull hrow), lookupRowId_eq_ok]
    constructor
    · rintro ⟨index', hindex', hid'⟩
      obtain rfl : index = index' := Except.ok.inj (hindex.symm.trans hindex')
      rcases hfind with ⟨found, hfound, hid, hunique⟩ | ⟨hid, -⟩
      · rw [hid] at hid'
        exact (hunique row hrow).2
          (List.inj_on_of_nodup_map hids hrow hfound (Option.some.inj hid').symm)
      · rw [hid] at hid'
        cases hid'
    · intro hholds
      rcases hfind with ⟨found, -, hid, hunique⟩ | ⟨-, hnone⟩
      · exact ⟨index, hindex, by rw [hid, (hunique row hrow).1 hholds]⟩
      · exact absurd hholds (hnone row hrow)

/-- The raw point select agrees with the generic select exactly when the literal keeps the keys. -/
theorem rawPoint_agrees_iff : RawPointAgrees order db entries statement primary literal condition ↔
    LiteralKeepsKeys position primary literal (db.stored statement.fromTable) :=
  ⟨fun hagrees ↦ hagrees.literalKeepsKeys h hkeyed hentries,
    fun hkeeps ↦ hkeeps.rawPointAgrees h hkeyed hentries⟩

end Agreement

/-- The fast path has a plan for every statement that it answers. -/
theorem exists_rawPointPlan {result : NativeQueryResult}
    (hresult : executeRawPointSelect db entries statement = .ok (some result)) :
    ∃ table position primary condition literal projection,
      RawPointPlan db statement table position primary condition literal projection := by
  rw [executeRawPointSelect] at hresult
  split at hresult
  · cases hresult
  · rename_i hshape
    simp only [Bool.or_eq_true, Bool.not_eq_true', not_or, Bool.not_eq_false] at hshape
    obtain ⟨key, hkey, hresult⟩ := Except.bind_eq_ok.1 hresult
    cases key with
    | none => cases hresult
    | some key =>
      obtain ⟨table, htable, hresult⟩ := Except.bind_eq_ok.1 hresult
      obtain ⟨projection, hprojection, hresult⟩ := Except.bind_eq_ok.1 hresult
      cases projection with
      | none => cases hresult
      | some projection =>
        rw [primaryKeyPredicate.eq_def] at hkey
        split at hkey
        · rename_i metadata condition hmetadata hwhere
          split at hkey
          · rename_i position primary hprimary
            split at hkey
            · rename_i literal hliteral
              have htable' := Database.table_eq_ok hmetadata
              rw [htable] at htable'
              obtain rfl : table = metadata := Except.ok.inj htable'
              exact ⟨table, position, primary, condition, literal, projection, hshape.1, hwhere,
                hwhere ▸ hshape.2, hmetadata, hprimary, hliteral, hprojection⟩
            · cases hkey
          · cases hkey
        · cases hkey

/-! ### A literal between two keys -/

/-- A table `t` with the columns `id INTEGER PRIMARY KEY` and `name TEXT`. -/
def namedTable : TableMeta where
  name := lit "t"
  columns := [{ name := lit "id", type := lit "INTEGER", primaryKey := true, notNull := true },
    { name := lit "name", type := lit "TEXT" }]

/-- The row `(1, 'ada')`. -/
def adaRow : StoredRow where
  id := ⟨0, 0⟩
  values := [.integer 1, .text (lit "ada")]

/-- The table with one row. -/
def adaDatabase : Database :=
  .single namedTable [adaRow] (List.nodup_singleton _) (by simp [adaRow, namedTable]) (by decide)
    (by simpa using ⟨_, rfl, by decide⟩) (by decide)

/-- `slay * no-cap t only-if id = literal`. -/
def selectById (literal : Literal) : SelectStmt where
  columns := [.wildcard {}]
  fromTable := lit "t"
  where' := some (.binary .eq (.column { column := lit "id" }) (.literal literal) [])

/-- The plan for `selectById`. -/
theorem selectById_plan (literal : Literal) :
    RawPointPlan adaDatabase (selectById literal) namedTable 0
      { name := lit "id", type := lit "INTEGER", primaryKey := true, notNull := true }
      (.binary .eq (.column { column := lit "id" }) (.literal literal) []) literal [0, 1] where
  shape := rfl
  where_eq := rfl
  equation := rfl
  table_eq := by
    show adaDatabase.catalog.tables[lit "t"]? = some namedTable
    decide
  primary_eq := rfl
  literal_eq := rfl
  projection_eq := rfl

/-- The database of Ada is keyed. -/
theorem adaDatabase_keyed : PrimaryKeyed 0
    { name := lit "id", type := lit "INTEGER", primaryKey := true, notNull := true }
    (adaDatabase.stored (lit "t")) where
  typed := by
    show ∀ row ∈ [adaRow], _
    rw [List.forall_mem_singleton]
    rfl
  distinct := List.pairwise_singleton _ _

/-- With `id = 1.5` the fast path returns the row with the key 1, on which the condition does not hold. -/
theorem selectById_fraction_differs :
    PrimaryKeyed 0 { name := lit "id", type := lit "INTEGER", primaryKey := true, notNull := true }
      (adaDatabase.stored (lit "t")) ∧
    [(Value.integer 1, (⟨0, 0⟩ : RowId))].Perm (keyedRows 0 (adaDatabase.stored (lit "t"))) ∧
    executeRawPointSelect adaDatabase [(.integer 1, ⟨0, 0⟩)] (selectById (.float 0x3FF8000000000000)) =
      .ok (some { columns := [lit "id", lit "name"], rows := [[.integer 1, .text (lit "ada")]] }) ∧
    scanSelect KeyedGroups.newestFirst adaDatabase (selectById (.float 0x3FF8000000000000)) =
      .ok { columns := [lit "id", lit "name"], rows := [] } :=
  ⟨adaDatabase_keyed, .refl _, rfl, rfl⟩

/-- With `id = 1` the paths agree. -/
theorem selectById_one_agrees : RawPointAgrees KeyedGroups.newestFirst adaDatabase [(.integer 1, ⟨0, 0⟩)] (selectById (.int 1))
    { name := lit "id", type := lit "INTEGER", primaryKey := true, notNull := true } (.int 1)
    (.binary .eq (.column { column := lit "id" }) (.literal (.int 1)) []) := by
  refine (rawPoint_agrees_iff (selectById_plan (.int 1)) adaDatabase_keyed (.refl _)).2 ?_
  refine ⟨by decide, .integer 1, rfl, ?_, ?_⟩
  · refine separated_of_not_isNaN adaDatabase_keyed ?_
    show ∀ row ∈ [adaRow], _
    rw [List.forall_mem_singleton]
    decide
  · show ∀ row ∈ [adaRow], _
    rw [List.forall_mem_singleton]
    decide

end SkibidiQL
