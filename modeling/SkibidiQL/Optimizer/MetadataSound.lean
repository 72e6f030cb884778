import SkibidiQL.Base.IntegerFloat
import SkibidiQL.Base.ListRules
import SkibidiQL.Optimizer.CountRewriting
import SkibidiQL.Query.RawPointAgreement

/-!
# The rewrites that rely on the catalog

What a SELECT answers is not changed by counting rows instead of values that are never null, by dropping a
DISTINCT over a primary key, by taking the lookup of a primary key to find one row, and by dropping a
condition that always holds. The rewrites rely on keys that are unique and on columns without nulls where the
catalog says so.
-/

namespace SkibidiQL

open Bytes

variable {order : GroupOrder} {db : Database} {statement : SelectStmt} {table : TableMeta} {rows : List EvalRow}
  {result : NativeQueryResult}

/-! ### Rows on the way through the pipeline -/

/-- `biggest-W` and `biggest-L` leave one of the rows; without them all stay. -/
theorem bestRows_cases {wholeRow : Option (Bool × Expr)} {best : List EvalRow}
    (h : bestRows wholeRow rows = .ok best) :
    wholeRow = none ∧ best = rows ∨ best.length ≤ 1 ∧ ∀ row ∈ best, row ∈ rows := by
  cases wholeRow with
  | none => exact .inl ⟨rfl, (Except.ok.inj h).symm⟩
  | some call =>
    have hbest : wholeRowBest call.1 call.2 rows = .ok best := h
    rw [wholeRowBest] at hbest
    split at hbest
    · next hlength =>
      obtain rfl := Except.ok.inj hbest
      exact .inr ⟨hlength, fun _ hrow ↦ hrow⟩
    · obtain ⟨keyed, hkeyed, hbest⟩ := Except.bind_eq_ok.1 hbest
      obtain rfl := Except.ok.inj hbest
      refine .inr ⟨by simp, ?_⟩
      intro row hrow
      obtain ⟨pair, hpair, rfl⟩ := List.mem_map.1 hrow
      have hmem := List.mem_mergeSort.1 (List.mem_of_mem_take hpair)
      obtain ⟨source, hsource, heq⟩ := (List.mapM_eq_ok_iff.1 hkeyed).exists_left hmem
      obtain ⟨value, -, heq⟩ := Except.bind_eq_ok.1 heq
      obtain rfl := Except.ok.inj heq
      exact hsource

/-- The best rows are among the rows. -/
theorem mem_of_bestRows {wholeRow : Option (Bool × Expr)} {best : List EvalRow}
    (h : bestRows wholeRow rows = .ok best) : ∀ row ∈ best, row ∈ rows := by
  rcases bestRows_cases h with ⟨-, rfl⟩ | ⟨-, hmem⟩
  · exact fun _ hrow ↦ hrow
  · exact hmem

/-- Of at most one row every row is best. -/
theorem bestRows_of_length_le_one (wholeRow : Option (Bool × Expr)) (h : rows.length ≤ 1) :
    bestRows wholeRow rows = .ok rows := by
  cases wholeRow with
  | none => rfl
  | some call => exact if_pos h

/-- The rows of a group are rows of the statement. -/
theorem mem_of_groupRows {groupBy : List Expr} {groups : List (Tuple × List EvalRow)}
    (h : groupRows groupBy rows = .ok groups) : ∀ group ∈ groups, ∀ row ∈ group.2, row ∈ rows := by
  rw [groupRows] at h
  split at h
  · obtain rfl := Except.ok.inj h
    intro group hgroup row hrow
    rw [List.mem_singleton.1 hgroup] at hrow
    exact hrow
  · have hperm := KeyedGroups.collect_perm h
    intro group hgroup row hrow
    exact hperm.subset (List.mem_flatMap.2 ⟨group, hgroup, hrow⟩)

/-! ### Counts -/

theorem orderKeysBy_rewriteCounts (catalog : Catalog) (evaluate : Expr → Except Error Value)
    (names : List Bytes) (projected : Tuple) :
    orderKeysBy evaluate (rewriteCounts catalog statement) names projected =
      orderKeysBy evaluate statement names projected := rfl

/-- A group is projected to the same values. -/
theorem projectGrouped_rewriteCounts (htable : db.catalog.tables[statement.fromTable]? = some table)
    (hrows : TableRows db statement table rows) {values : Tuple}
    (h : projectGrouped statement rows = .ok values) :
    projectGrouped (rewriteCounts db.catalog statement) rows = .ok values := by
  rw [projectGrouped, rewriteCounts, List.mapM_map]
  refine List.mapM_ok_imp h fun expression _ value hvalue ↦ ?_
  cases hwildcard : expression.isWildcard with
  | true =>
    cases expression with
    | wildcard wildcard =>
      have herror : Except.error _ = Except.ok value := hvalue
      exact nomatch herror
    | _ => exact nomatch hwildcard
  | false =>
    have hrewritten := (keepsName_rewriteNonNullCounts db.catalog statement).isWildcard expression
    have hgrouped {e : Expr} (he : e.isWildcard = false) : projectGroupedColumn rows e =
        evalGrouped e rows := by
      cases e <;> first | rfl | exact nomatch he
    rw [hgrouped hwildcard] at hvalue
    exact (hgrouped (hrewritten.trans hwildcard)).trans
      (evalGrouped_rewriteNonNullCounts htable hrows expression hvalue)

/-- A group gives the same output row. -/
theorem materializedRow_rewriteCounts (htable : db.catalog.tables[statement.fromTable]? = some table)
    (hrows : TableRows db statement table rows) {names : List Bytes} {output : Option OutputRow}
    (h : materializedRow statement names rows = .ok output) :
    materializedRow (rewriteCounts db.catalog statement) names rows = .ok output := by
  obtain ⟨included, hincluded, h⟩ := Except.bind_eq_ok.1 h
  have hhaving : passesHaving (rewriteCounts db.catalog statement).having rows = .ok included := by
    rw [rewriteCounts]
    cases hcondition : statement.having with
    | none =>
      rw [hcondition] at hincluded
      exact hincluded
    | some condition =>
      rw [hcondition] at hincluded
      obtain ⟨value, hvalue, hboolean⟩ := Except.bind_eq_ok.1 hincluded
      show (evalGrouped (rewriteNonNullCounts db.catalog statement condition) rows >>= fun value ↦
        pure value.asBoolean) = _
      rw [evalGrouped_rewriteNonNullCounts htable hrows condition hvalue]
      exact hboolean
  rw [materializedRow, hhaving, Except.ok_bind]
  cases included with
  | false => exact h
  | true =>
    obtain ⟨values, hvalues, h⟩ := Except.bind_eq_ok.1 h
    simp only [projectGrouped_rewriteCounts htable hrows hvalues, if_true, Except.ok_bind]
    exact h

theorem grouped_rewriteCounts (catalog : Catalog) :
    (rewriteCounts catalog statement).grouped = statement.grouped := by
  rw [SelectStmt.grouped, SelectStmt.grouped, selectHasAggregate, selectHasAggregate, rewriteCounts]
  simp only [List.any_map, Option.any_map, Function.comp_def, hasAggregate_rewriteNonNullCounts]

/-- A call over whole rows stays one, its argument rewritten. -/
theorem wholeRowCall_rewriteCounts (catalog : Catalog) :
    wholeRowCall (rewriteCounts catalog statement).columns = (wholeRowCall statement.columns).map
      (Prod.map id (rewriteNonNullCounts catalog statement)) :=
  wholeRowCall_rewriteNonNullCounts statement.columns

/-- The output is the same. -/
theorem materializedOutput_rewriteCounts
    (htable : db.catalog.tables[statement.fromTable]? = some table)
    (hrows : TableRows db statement table rows) {names : List Bytes} {output : List OutputRow}
    (h : materializedOutput order statement names rows = .ok output) :
    materializedOutput order (rewriteCounts db.catalog statement) names rows = .ok output := by
  rw [materializedOutput] at h ⊢
  rw [grouped_rewriteCounts, wholeRowCall_rewriteCounts, Option.isSome_map]
  split at h
  · next hgrouped =>
    rw [if_pos hgrouped]
    obtain ⟨groups, hgroups, h⟩ := Except.bind_eq_ok.1 h
    obtain ⟨outputs, houtputs, h⟩ := Except.bind_eq_ok.1 h
    have hrewritten := List.mapM_ok_imp houtputs (g := fun group ↦
      materializedRow (rewriteCounts db.catalog statement) names group.2) fun group hgroup output houtput ↦
        materializedRow_rewriteCounts htable
          (fun row hrow ↦ hrows row
            (mem_of_groupRows hgroups group (order.mem_entries.1 hgroup) row hrow)) houtput
    have hgroups' : groupRows (rewriteCounts db.catalog statement).groupBy rows = .ok groups := hgroups
    rw [materialized, hgroups', Except.ok_bind, hrewritten]
    exact h
  · next hgrouped =>
    rw [if_neg hgrouped]
    have hproject (row : EvalRow) : project (rewriteCounts db.catalog statement) row rows =
        project statement row rows := by
      have hcolumn : projectColumn row rows ∘ rewriteNonNullCounts db.catalog statement =
          projectColumn row rows := funext (projectColumn_rewriteNonNullCounts row rows)
      rw [project, project, rewriteCounts, List.mapM_map, hcolumn]
    rw [plainOutput] at h ⊢
    simp only [hproject, orderKeysBy_rewriteCounts]
    exact h

/-- The names of the columns are the same. -/
theorem resultColumns_rewriteCounts (catalog : Catalog) :
    resultColumns catalog (rewriteCounts catalog statement) rows = resultColumns catalog statement rows := by
  have hnames (sample : Option (List BoundColumn)) :
      outputNames catalog (rewriteCounts catalog statement) sample = outputNames catalog statement sample :=
    outputNames_of_keepsName (keepsName_rewriteNonNullCounts catalog statement)
      (show (rewriteCounts catalog statement).columns = _ from rfl) rfl rfl rfl sample
  unfold resultColumns
  rw [wholeRowCall_rewriteCounts, Option.isSome_map]
  simp only [hnames]

/-- **Rewriting counts leaves the result.** -/
theorem materializedSelect_rewriteCounts
    (htable : db.catalog.tables[statement.fromTable]? = some table)
    (hrows : TableRows db statement table rows)
    (h : materializedSelect order db.catalog statement rows = .ok result) :
    materializedSelect order db.catalog (rewriteCounts db.catalog statement) rows = .ok result := by
  obtain ⟨best, hbest, h⟩ := Except.bind_eq_ok.1 h
  obtain ⟨output, houtput, h⟩ := Except.bind_eq_ok.1 h
  have hbestRows : TableRows db statement table best := fun row hrow ↦
    hrows row (mem_of_bestRows hbest row hrow)
  rw [materializedSelect, wholeRowCall_rewriteCounts, bestRows_rewriteNonNullCounts, hbest,
    Except.ok_bind]
  simp only [resultColumns_rewriteCounts, materializedOutput_rewriteCounts htable hbestRows houtput]
  exact h

/-! ### DISTINCT -/

/-- Equal tuples are equal value by value. -/
theorem beq_iff_forall₂ {values values' : Tuple} :
    values == values' ↔ List.Forall₂ (fun value value' ↦ (value == value') = true) values values' := by
  induction values generalizing values' with
  | nil =>
    cases values' with
    | nil => exact iff_of_true rfl .nil
    | cons => exact iff_of_false nofun nofun
  | cons value values ih =>
    cases values' with
    | nil => exact iff_of_false nofun nofun
    | cons value' values' =>
      rw [List.forall₂_cons, ← ih]
      exact Bool.and_eq_true_iff

/-- Tuples of two parts are equal part by part. -/
theorem beq_append {values values' rest rest' : Tuple} (hlength : values.length = values'.length)
    (h : values ++ rest == values' ++ rest') : values == values' ∧ rest == rest' := by
  rw [beq_iff_forall₂] at h ⊢
  rw [beq_iff_forall₂]
  have htake := List.forall₂_take_append _ _ _ h
  have hdrop := List.forall₂_drop_append _ _ _ h
  rw [← hlength, List.take_left'  rfl] at htake
  rw [← hlength, List.drop_left' rfl] at hdrop
  exact ⟨htake, hdrop⟩

/-- Rows that are all different pass DISTINCT. -/
theorem distinctRows_eq_self {output : List OutputRow}
    (h : output.Pairwise fun row row' ↦ ¬(row.values == row'.values)) : distinctRows output = output := by
  have hfold (kept : List OutputRow) (hkept : ∀ row ∈ kept, ∀ row' ∈ output, ¬(row.values == row'.values)) :
      output.foldl (fun kept row ↦ if kept.any (·.values == row.values) then kept else kept ++ [row]) kept =
        kept ++ output := by
    induction output generalizing kept with
    | nil => exact (List.append_nil _).symm
    | cons row output ih =>
      obtain ⟨hrow, hrest⟩ := List.pairwise_cons.1 h
      have hnew : kept.any (·.values == row.values) = false := by
        rw [List.any_eq_false]
        exact fun row' hrow' ↦ hkept row' hrow' row List.mem_cons_self
      rw [List.foldl_cons, hnew, if_neg Bool.false_ne_true, ih hrest, List.append_assoc]
      · rfl
      · intro row' hrow' other hother
        rcases List.mem_append.1 hrow' with hrow' | hrow'
        · exact hkept row' hrow' other (List.mem_cons_of_mem _ hother)
        · rw [List.mem_singleton.1 hrow']
          exact hrow other hother
  exact hfold [] nofun

/-- A column of the select list that shows the values of a column of the table. -/
structure ShowsField (db : Database) (statement : SelectStmt) (table : TableMeta) (index : Nat)
    (expression : Expr) : Prop where
  plain : ∀ (row row' : StoredRow) (rows rows' : List EvalRow) (values values' : Tuple),
    projectColumn (bindRow (boundColumns table statement.fromTable statement.fromAlias) row) rows
        expression = .ok values →
      projectColumn (bindRow (boundColumns table statement.fromTable statement.fromAlias) row') rows'
          expression = .ok values' → values == values' → row.field index == row'.field index
  grouped : ∀ (row row' : StoredRow) (rows rows' : List EvalRow) (value value' : Value),
    projectGroupedColumn
        (bindRow (boundColumns table statement.fromTable statement.fromAlias) row :: rows) expression =
        .ok value →
      projectGroupedColumn
          (bindRow (boundColumns table statement.fromTable statement.fromAlias) row' :: rows') expression =
          .ok value' → value == value' → row.field index == row'.field index

/-- A column shows the field that it is bound to. -/
theorem showsField_column {column : ColumnRef} {index : Nat}
    (heval : ∀ row : StoredRow, eval (.column column)
      (bindRow (boundColumns table statement.fromTable statement.fromAlias) row) = .ok (row.field index)) :
    ShowsField db statement table index (.column column) where
  plain row row' rows rows' values values' h h' hvalues := by
    obtain ⟨value, hvalue, h⟩ := Except.bind_eq_ok.1 h
    obtain ⟨value', hvalue', h'⟩ := Except.bind_eq_ok.1 h'
    obtain rfl := Except.ok.inj ((heval row).symm.trans hvalue)
    obtain rfl := Except.ok.inj ((heval row').symm.trans hvalue')
    obtain rfl := Except.ok.inj h
    obtain rfl := Except.ok.inj h'
    cases beq_iff_forall₂.1 hvalues with
    | cons hvalue => exact hvalue
  grouped row row' rows rows' value value' h h' hvalue := by
    obtain rfl := Except.ok.inj ((heval row).symm.trans h)
    obtain rfl := Except.ok.inj ((heval row').symm.trans h')
    exact hvalue

/-- A wildcard shows every field of its table. -/
theorem showsField_wildcard {wildcard : Wildcard} {index : Nat} (hindex : index < table.columns.length)
    (hcovers : wildcard.covers statement.fromTable statement.fromAlias) :
    ShowsField db statement table index (.wildcard wildcard) where
  plain row row' rows rows' values values' h h' hvalues := by
    rw [projectColumn_wildcard hcovers] at h h'
    obtain rfl := Except.ok.inj h
    obtain rfl := Except.ok.inj h'
    refine (beq_iff_forall₂.1 hvalues).getElem? (i := index) ?_ ?_
    · rw [List.getElem?_map, List.getElem?_range hindex]
      rfl
    · rw [List.getElem?_map, List.getElem?_range hindex]
      rfl
  grouped row row' rows rows' value value' h h' _ := by
    have herror : Except.error _ = Except.ok value := h
    exact nomatch herror

/-- A column of the select list that holds the primary key shows it. -/
theorem showsField_of_projectsKeyColumn
    (htable : db.catalog.tables[statement.fromTable]? = some table) {expression : Expr}
    (h : projectsKeyColumn db.catalog statement table expression) :
    ∃ index column, table.columns[index]? = some column ∧ column.primaryKey ∧
      ShowsField db statement table index expression := by
  unfold projectsKeyColumn at h
  split at h
  · obtain ⟨hcovers, hany⟩ := Bool.and_eq_true_iff.1 h
    obtain ⟨column, hcolumn, hkey⟩ := List.any_eq_true.1 hany
    obtain ⟨index, hindex⟩ := List.getElem?_of_mem hcolumn
    exact ⟨index, column, hindex, (Bool.and_eq_true_iff.1 hkey).1,
      showsField_wildcard (List.getElem?_eq_some_iff.1 hindex).1 hcovers⟩
  · obtain ⟨metadata, hmetadata, hkey⟩ := (Option.any_eq_true _ _).1 h
    obtain ⟨index, hindex, heval⟩ := resolveBaseColumn_eq_some htable hmetadata
    exact ⟨index, metadata, hindex, (Bool.and_eq_true_iff.1 hkey).1, showsField_column heval⟩
  · exact nomatch h

/-- Rows of the table that differ in a column. -/
def ApartIn (index : Nat) (row row' : EvalRow) : Prop :=
  ¬(row.values.getD index .null == row'.values.getD index .null)

variable {index : Nat} {expression : Expr}

/-- Rows of the same columns contribute as many values to a column of the select list. -/
theorem length_projectColumn {row row' : StoredRow} {columns : List BoundColumn} {rows' : List EvalRow}
    {values values' : Tuple} (h : projectColumn (bindRow columns row) rows expression = .ok values)
    (h' : projectColumn (bindRow columns row') rows' expression = .ok values') :
    values.length = values'.length := by
  cases expression with
  | wildcard wildcard =>
    obtain rfl := Except.ok.inj h
    obtain rfl := Except.ok.inj h'
    rw [List.length_map, List.length_map]
    rfl
  | window funcName partitionBy orderBy alias' =>
    obtain ⟨value, -, h⟩ := Except.bind_eq_ok.1 h
    obtain ⟨value', -, h'⟩ := Except.bind_eq_ok.1 h'
    obtain rfl := Except.ok.inj h
    obtain rfl := Except.ok.inj h'
    rfl
  | _ =>
    obtain ⟨value, -, h⟩ := Except.bind_eq_ok.1 h
    obtain ⟨value', -, h'⟩ := Except.bind_eq_ok.1 h'
    obtain rfl := Except.ok.inj h
    obtain rfl := Except.ok.inj h'
    rfl

/-- A piece of equal projections shows equal values. -/
theorem beq_field_of_pieces (hshows : ShowsField db statement table index expression)
    {row row' : StoredRow} {rows' : List EvalRow} {columns : List Expr} {pieces pieces' : List Tuple}
    (hpieces : columns.Forall₂ (fun column piece ↦ projectColumn
      (bindRow (boundColumns table statement.fromTable statement.fromAlias) row) rows column = .ok piece)
      pieces)
    (hpieces' : columns.Forall₂ (fun column piece ↦ projectColumn
      (bindRow (boundColumns table statement.fromTable statement.fromAlias) row') rows' column = .ok piece)
      pieces')
    (hmem : expression ∈ columns) (hequal : pieces.flatten == pieces'.flatten) :
    row.field index == row'.field index := by
  induction hpieces generalizing pieces' with
  | nil => exact absurd hmem List.not_mem_nil
  | @cons column piece columns pieces hpiece _ ih =>
    cases hpieces' with
    | @cons _ piece' _ pieces' hpiece' hrest' =>
      rw [List.flatten_cons, List.flatten_cons] at hequal
      obtain ⟨hhead, htail⟩ := beq_append (length_projectColumn hpiece hpiece') hequal
      rcases List.mem_cons.1 hmem with rfl | hmem
      · exact hshows.plain row row' rows rows' piece piece' hpiece hpiece' hhead
      · exact ih hrest' hmem htail

/-- Projections of different keys differ. -/
theorem beq_field_of_project (hshows : ShowsField db statement table index expression)
    (hmem : expression ∈ statement.columns) {row row' : StoredRow} {rows' : List EvalRow}
    {values values' : Tuple}
    (h : project statement (bindRow (boundColumns table statement.fromTable statement.fromAlias) row) rows =
      .ok values)
    (h' : project statement (bindRow (boundColumns table statement.fromTable statement.fromAlias) row')
      rows' = .ok values') (hequal : values == values') : row.field index == row'.field index := by
  obtain ⟨pieces, hpieces, hvalues⟩ := Except.bind_eq_ok.1 h
  obtain ⟨pieces', hpieces', hvalues'⟩ := Except.bind_eq_ok.1 h'
  obtain rfl := Except.ok.inj hvalues
  obtain rfl := Except.ok.inj hvalues'
  exact beq_field_of_pieces hshows (List.mapM_eq_ok_iff.1 hpieces) (List.mapM_eq_ok_iff.1 hpieces') hmem hequal

/-- Projections of groups with different keys at their head differ. -/
theorem beq_field_of_projectGrouped (hshows : ShowsField db statement table index expression)
    (hmem : expression ∈ statement.columns) {row row' : StoredRow} {rows rows' : List EvalRow}
    {values values' : Tuple}
    (h : projectGrouped statement
      (bindRow (boundColumns table statement.fromTable statement.fromAlias) row :: rows) = .ok values)
    (h' : projectGrouped statement
      (bindRow (boundColumns table statement.fromTable statement.fromAlias) row' :: rows') = .ok values')
    (hequal : values == values') : row.field index == row'.field index := by
  rw [projectGrouped, List.mapM_eq_ok_iff] at h h'
  obtain ⟨position, hposition⟩ := List.getElem?_of_mem hmem
  have hlt : position < statement.columns.length := (List.getElem?_eq_some_iff.1 hposition).1
  have hvalue := List.getElem?_eq_getElem (h.length_eq ▸ hlt)
  have hvalue' := List.getElem?_eq_getElem (h'.length_eq ▸ hlt)
  exact hshows.grouped row row' rows rows' _ _ (h.getElem? hposition hvalue)
    (h'.getElem? hposition hvalue') ((beq_iff_forall₂.1 hequal).getElem? hvalue hvalue')

/-- The values of an output row without grouping. -/
theorem plainOutput_forall₂ {names : List Bytes} {output : List OutputRow}
    (h : plainOutput statement false names rows = .ok output) :
    rows.Forall₂ (fun row out ↦ project statement row rows = .ok out.values) output := by
  rw [plainOutput, List.mapM_eq_ok_iff] at h
  refine h.imp fun row out hrow ↦ ?_
  obtain ⟨values, hvalues, hrow⟩ := Except.bind_eq_ok.1 hrow
  obtain ⟨orderKeys, -, hrow⟩ := Except.bind_eq_ok.1 hrow
  obtain rfl := Except.ok.inj hrow
  exact hvalues

theorem length_plainOutput {wholeRow : Bool} {names : List Bytes} {output : List OutputRow}
    (h : plainOutput statement wholeRow names rows = .ok output) : output.length = rows.length :=
  (List.mapM_eq_ok_iff.1 h).length_eq.symm

/-- The values of the output row of a group. -/
theorem values_of_materializedRow {names : List Bytes} {out : OutputRow}
    (h : materializedRow statement names rows = .ok (some out)) :
    projectGrouped statement rows = .ok out.values := by
  obtain ⟨included, -, h⟩ := Except.bind_eq_ok.1 h
  cases included with
  | false => exact nomatch (Except.ok.inj h)
  | true =>
    obtain ⟨values, hvalues, h⟩ := Except.bind_eq_ok.1 h
    obtain ⟨orderKeys, -, h⟩ := Except.bind_eq_ok.1 h
    obtain rfl := Option.some.inj (Except.ok.inj h)
    exact hvalues

/-- Groups whose first rows are related. -/
def HeadsRelated (R : EvalRow → EvalRow → Prop) (group group' : Tuple × List EvalRow) : Prop :=
  ∃ row rest row' rest', group.2 = row :: rest ∧ group'.2 = row' :: rest' ∧ R row row'

/-- Groups with related first rows, the other way round. -/
theorem HeadsRelated.symm {R : EvalRow → EvalRow → Prop} (hsymm : ∀ {row row'}, R row row' → R row' row)
    {group group' : Tuple × List EvalRow} (h : HeadsRelated R group group') : HeadsRelated R group' group := by
  obtain ⟨row, rest, row', rest', hrow, hrow', hrelated⟩ := h
  exact ⟨row', rest', row, rest, hrow', hrow, hsymm hrelated⟩

/-- Rows that are all related make groups whose first rows are. -/
theorem pairwise_groupRows (order : GroupOrder) {R : EvalRow → EvalRow → Prop} (hsymm : ∀ {row row'}, R row row' → R row' row)
    {groupBy : List Expr} {groups : List (Tuple × List EvalRow)} (hrows : rows.Pairwise R)
    (h : groupRows groupBy rows = .ok groups) : (order.entries groups).Pairwise (HeadsRelated R) := by
  refine ((order.entries_perm groups).pairwise_iff (R := HeadsRelated R) (HeadsRelated.symm hsymm)).2 ?_
  rw [groupRows] at h
  split at h
  · obtain rfl := Except.ok.inj h
    exact List.pairwise_singleton _ _
  · have hall := (List.pairwise_flatMap.1 (((KeyedGroups.collect_perm h).pairwise_iff hsymm).2 hrows)).2
    have hne := KeyedGroups.forall_collect (P := fun group ↦ group ≠ []) (fun row _ ↦ List.cons_ne_nil row [])
      (fun group row _ _ ↦ List.append_ne_nil_of_right_ne_nil group (List.cons_ne_nil row []))
      (fun group hgroup ↦ absurd hgroup List.not_mem_nil) h
    refine hall.imp_of_mem fun {group group'} hgroup hgroup' hrows ↦ ?_
    obtain ⟨row, rest, hrow⟩ := List.exists_cons_of_ne_nil (hne group hgroup)
    obtain ⟨row', rest', hrow'⟩ := List.exists_cons_of_ne_nil (hne group' hgroup')
    exact ⟨row, rest, row', rest', hrow, hrow', hrows row (hrow ▸ List.mem_cons_self) row'
      (hrow' ▸ List.mem_cons_self)⟩

theorem ApartIn.symm {row row' : EvalRow} (h : ApartIn index row row') : ApartIn index row' row := by
  rw [ApartIn, Value.beq_comm]
  exact h

/-- The output rows of a statement that shows the key of its rows all differ. -/
theorem pairwise_materializedOutput (hshows : ShowsField db statement table index expression)
    (hmem : expression ∈ statement.columns) (hrows : TableRows db statement table rows)
    (hapart : rows.Pairwise (ApartIn index)) (hwhole : (wholeRowCall statement.columns).isSome = false)
    {names : List Bytes} {output : List OutputRow}
    (h : materializedOutput order statement names rows = .ok output) :
    output.Pairwise fun out out' ↦ ¬(out.values == out'.values) := by
  rw [materializedOutput, hwhole] at h
  split at h
  · obtain ⟨groups, hgroups, h⟩ := Except.bind_eq_ok.1 h
    obtain ⟨outputs, houtputs, h⟩ := Except.bind_eq_ok.1 h
    obtain rfl := Except.ok.inj h
    rw [List.reduceOption, List.pairwise_filterMap]
    refine (List.mapM_eq_ok_iff.1 houtputs).pairwise (pairwise_groupRows order ApartIn.symm hapart hgroups) ?_
    rintro group hgroup group' hgroup' _ _ ⟨row, rest, row', rest', hrow, hrow', hne⟩ hout hout' out rfl
      out' rfl hequal
    rw [order.mem_entries] at hgroup hgroup'
    have hvalues := values_of_materializedRow hout
    have hvalues' := values_of_materializedRow hout'
    obtain ⟨stored, -, rfl⟩ := hrows row (mem_of_groupRows hgroups group hgroup row
      (hrow ▸ List.mem_cons_self))
    obtain ⟨stored', -, rfl⟩ := hrows row' (mem_of_groupRows hgroups group' hgroup' row'
      (hrow' ▸ List.mem_cons_self))
    rw [hrow] at hvalues
    rw [hrow'] at hvalues'
    exact hne (beq_field_of_projectGrouped hshows hmem hvalues hvalues' hequal)
  · refine (plainOutput_forall₂ h).pairwise hapart ?_
    intro row hrow row' hrow' out out' hne hout hout' hequal
    obtain ⟨stored, -, rfl⟩ := hrows row hrow
    obtain ⟨stored', -, rfl⟩ := hrows row' hrow'
    exact hne (beq_field_of_project hshows hmem hout hout' hequal)

/-- One row at most makes one output row at most. -/
theorem length_materializedOutput {names : List Bytes} {output : List OutputRow}
    (hrows : rows.length ≤ 1) (h : materializedOutput order statement names rows = .ok output) :
    output.length ≤ 1 := by
  rw [materializedOutput] at h
  split at h
  · obtain ⟨groups, hgroups, h⟩ := Except.bind_eq_ok.1 h
    obtain ⟨outputs, houtputs, h⟩ := Except.bind_eq_ok.1 h
    obtain rfl := Except.ok.inj h
    have hnone : rows.Pairwise fun _ _ ↦ False := by
      match rows with
      | [] => exact .nil
      | [_] => exact List.pairwise_singleton _ _
    have hgroups := (pairwise_groupRows order id hnone hgroups).length_le_one
      fun _ _ _ _ ⟨_, _, _, _, _, _, hfalse⟩ ↦ hfalse
    rw [(List.mapM_eq_ok_iff.1 houtputs).length_eq] at hgroups
    exact (List.length_filterMap_le id outputs).trans hgroups
  · rw [length_plainOutput h]
    exact hrows

/-- In a list of at most one element any two are related. -/
theorem pairwise_of_length_le_one {α : Type} {R : α → α → Prop} {l : List α} (h : l.length ≤ 1) :
    l.Pairwise R := by
  match l with
  | [] => exact .nil
  | [_] => exact List.pairwise_singleton _ _

/-- Without DISTINCT, a statement that shows the primary key answers the same. -/
theorem materializedSelect_dropDistinct (htable : db.catalog.tables[statement.fromTable]? = some table)
    (hrows : TableRows db statement table rows)
    (hkeys : ∀ index column, table.columns[index]? = some column → column.primaryKey →
      rows.Pairwise (ApartIn index))
    (h : materializedSelect order db.catalog statement rows = .ok result) :
    materializedSelect order db.catalog (dropDistinct db.catalog statement) rows = .ok result := by
  rw [dropDistinct]
  split
  · next hcondition =>
    obtain ⟨hdistinct, hprojects⟩ := Bool.and_eq_true_iff.1 hcondition
    rw [projectsPrimaryKey, htable] at hprojects
    obtain ⟨expression, hmem, hkey⟩ := List.any_eq_true.1 (Bool.and_eq_true_iff.1 hprojects).2
    obtain ⟨index, column, hindex, hprimary, hshows⟩ := showsField_of_projectsKeyColumn htable hkey
    obtain ⟨best, hbest, h⟩ := Except.bind_eq_ok.1 h
    obtain ⟨output, houtput, h⟩ := Except.bind_eq_ok.1 h
    -- Rows that show the primary key differ from each other, so DISTINCT drops none of them.
    have hdistinctRows : distinctRows output = output := by
      refine distinctRows_eq_self ?_
      rcases bestRows_cases hbest with ⟨hwhole, rfl⟩ | ⟨hlength, -⟩
      · exact pairwise_materializedOutput hshows hmem hrows (hkeys index column hindex hprimary)
          (by rw [hwhole]; rfl) houtput
      · exact pairwise_of_length_le_one (length_materializedOutput hlength houtput)
    have hfinish : finishRows { statement with distinct := false } output = finishRows statement output := by
      rw [finishRows, finishRows, hdistinct, if_pos rfl, hdistinctRows]
      rfl
    have houtput' : materializedOutput order { statement with distinct := false }
        (resultColumns db.catalog statement best) best = .ok output := houtput
    have hselect : materializedSelect order db.catalog { statement with distinct := false } rows =
        bestRows (wholeRowCall statement.columns) rows >>= fun best ↦
          materializedOutput order { statement with distinct := false }
            (resultColumns db.catalog statement best) best >>= fun output ↦
              pure { columns := resultColumns db.catalog statement best,
                     rows := finishRows { statement with distinct := false } output } := rfl
    rw [hselect, hbest, Except.ok_bind, houtput', Except.ok_bind, hfinish]
    exact h
  · exact h

/-! ### Lookups of one row -/

/-- An equation that holds relates equal values. -/
theorem beq_of_applyBinary {left right value : Value} (h : applyBinary .eq left right = .ok value)
    (hvalue : value.asBoolean) : left == right := by
  rw [applyBinary] at h
  split at h
  · obtain rfl := Except.ok.inj h
    cases hvalue
  · obtain rfl := Except.ok.inj h
    exact hvalue

/-- A condition that pins the primary key holds on rows with one key only. -/
theorem exists_key_of_pins (htable : db.catalog.tables[statement.fromTable]? = some table)
    {condition : Expr} (h : wherePinsPrimaryKey db.catalog statement condition) :
    ∃ index column literal, table.columns[index]? = some column ∧ column.primaryKey ∧
      ∀ (row : StoredRow) (value : Value),
        eval condition (bindRow (boundColumns table statement.fromTable statement.fromAlias) row) =
          .ok value → value.asBoolean → row.field index == literalValue literal := by
  have hcolumn : ∀ {column : ColumnRef}, refersToPrimaryKey db.catalog statement column →
      ∃ index metadata, table.columns[index]? = some metadata ∧ metadata.primaryKey ∧ ∀ row : StoredRow,
        eval (.column column) (bindRow (boundColumns table statement.fromTable statement.fromAlias) row) =
          .ok (row.field index) := by
    intro column hrefers
    obtain ⟨metadata, hmetadata, hprimary⟩ := (Option.any_eq_true _ _).1 hrefers
    obtain ⟨index, hindex, heval⟩ := resolveBaseColumn_eq_some htable hmetadata
    exact ⟨index, metadata, hindex, hprimary, heval⟩
  induction condition using Expr.operatorInduction with
  | binary op left right alias' ihl ihr =>
    unfold wherePinsPrimaryKey at h
    split at h
    · next heq =>
      cases heq
      -- Both sides of a conjunction that holds were evaluated and hold, so either may pin the key.
      have hboth : ∀ {row : EvalRow} {value : Value}, eval (.binary .and left right alias') row = .ok value →
          value.asBoolean → (∃ l, eval left row = .ok l ∧ l.asBoolean) ∧
            ∃ r, eval right row = .ok r ∧ r.asBoolean := by
        intro row value heval hvalue
        rw [eval] at heval
        obtain ⟨l, hl, heval⟩ := Except.bind_eq_ok.1 heval
        obtain ⟨r, hr, heval⟩ := Except.bind_eq_ok.1 heval
        obtain rfl := Except.ok.inj heval
        obtain ⟨hleft, hright⟩ := Bool.and_eq_true_iff.1 hvalue
        exact ⟨⟨l, hl, hleft⟩, r, hr, hright⟩
      rcases Bool.or_eq_true_iff.1 h with h | h
      · obtain ⟨index, column, literal, hindex, hprimary, hholds⟩ := ihl h
        refine ⟨index, column, literal, hindex, hprimary, fun row value heval hvalue ↦ ?_⟩
        obtain ⟨⟨l, hl, hleft⟩, -⟩ := hboth heval hvalue
        exact hholds row l hl hleft
      · obtain ⟨index, column, literal, hindex, hprimary, hholds⟩ := ihr h
        refine ⟨index, column, literal, hindex, hprimary, fun row value heval hvalue ↦ ?_⟩
        obtain ⟨-, r, hr, hright⟩ := hboth heval hvalue
        exact hholds row r hr hright
    · next column literal _ heq =>
      cases heq
      obtain ⟨index, metadata, hindex, hprimary, heval⟩ := hcolumn h
      refine ⟨index, metadata, literal, hindex, hprimary, fun row value hcondition hvalue ↦ ?_⟩
      rw [eval, heval] at hcondition
      exact beq_of_applyBinary hcondition hvalue
    · next literal column _ heq =>
      cases heq
      obtain ⟨index, metadata, hindex, hprimary, heval⟩ := hcolumn h
      refine ⟨index, metadata, literal, hindex, hprimary, fun row value hcondition hvalue ↦ ?_⟩
      rw [eval, heval] at hcondition
      rw [Value.beq_comm]
      exact beq_of_applyBinary hcondition hvalue
    · cases h
  | _ => cases h

/-- A condition that pins the primary key leaves one row at most. -/
theorem length_filterRows (statement : SelectStmt)
    (htable : db.catalog.tables[statement.fromTable]? = some table)
    (hrows : TableRows db statement table rows)
    (hkeys : ∀ index column, table.columns[index]? = some column → column.primaryKey →
      rows.Pairwise (ApartIn index))
    (hpins : statement.where'.any (wherePinsPrimaryKey db.catalog statement)) {kept : List EvalRow}
    (h : filterRows statement.where' rows = .ok kept) : kept.length ≤ 1 := by
  obtain ⟨condition, hcondition, hpins⟩ := (Option.any_eq_true _ _).1 hpins
  obtain ⟨index, column, literal, hindex, hprimary, hholds⟩ := exists_key_of_pins htable hpins
  rw [hcondition] at h
  obtain ⟨p, hp, rfl⟩ := List.exists_of_filterM_eq_ok h
  have hkey : ∀ row ∈ rows.filter p, row.values.getD index .null == literalValue literal := by
    intro row hrow
    obtain ⟨hrow, hpass⟩ := List.mem_filter.1 hrow
    obtain ⟨stored, -, rfl⟩ := hrows row hrow
    obtain ⟨value, hvalue, hboolean⟩ := Except.bind_eq_ok.1 (hp _ hrow)
    have hasBoolean : value.asBoolean = true := (Except.ok.inj hboolean).trans hpass
    exact hholds stored value hvalue hasBoolean
  refine ((hkeys index column hindex hprimary).filter p).length_le_one ?_
  intro row hrow row' hrow' hne
  have hkey' := hkey row' hrow'
  rw [Value.beq_comm] at hkey'
  exact hne (Value.beq_trans (hkey row hrow) hkey')

/-- The statement without ORDER BY, and with this LIMIT. -/
def withoutOrder (statement : SelectStmt) (limit : Option Expr) : SelectStmt :=
  { statement with orderBy := [], limit }

/-- An output row without the keys of ORDER BY. -/
def OutputRow.unordered (row : OutputRow) : OutputRow :=
  { values := row.values }

/-- A traversal whose results are images of those of another. -/
theorem mapM_ok_map {α β γ ε : Type} {l : List α} {f : α → Except ε β} {g : α → Except ε γ} {φ : β → γ}
    {bs : List β} (h : l.mapM f = .ok bs) (himp : ∀ a b, f a = .ok b → g a = .ok (φ b)) :
    l.mapM g = .ok (bs.map φ) := by
  rw [List.mapM_eq_ok_iff] at h ⊢
  exact List.forall₂_map_right_iff.2 (h.imp himp)

/-- Without `ORDER BY` an output row loses its sort keys and nothing else. -/
theorem materializedRow_withoutOrder {limit : Option Expr} {names : List Bytes} {out : Option OutputRow}
    (h : materializedRow statement names rows = .ok out) :
    materializedRow (withoutOrder statement limit) names rows = .ok (out.map OutputRow.unordered) := by
  obtain ⟨included, hincluded, h⟩ := Except.bind_eq_ok.1 h
  have hincluded' : passesHaving (withoutOrder statement limit).having rows = .ok included := hincluded
  rw [materializedRow, hincluded', Except.ok_bind]
  cases included with
  | false =>
    obtain rfl := Except.ok.inj h
    rfl
  | true =>
    obtain ⟨values, hvalues, h⟩ := Except.bind_eq_ok.1 h
    obtain ⟨orderKeys, -, h⟩ := Except.bind_eq_ok.1 h
    obtain rfl := Except.ok.inj h
    have hvalues' : projectGrouped (withoutOrder statement limit) rows = .ok values := hvalues
    simp only [hvalues', if_true, Except.ok_bind]
    rfl

/-- Without ORDER BY the output rows have the same values. -/
theorem materializedOutput_withoutOrder {limit : Option Expr} {names : List Bytes}
    {output : List OutputRow} (h : materializedOutput order statement names rows = .ok output) :
    materializedOutput order (withoutOrder statement limit) names rows =
      .ok (output.map OutputRow.unordered) := by
  rw [materializedOutput] at h ⊢
  have hgrouped : (withoutOrder statement limit).grouped = statement.grouped := rfl
  rw [hgrouped]
  split at h
  · next hgrouped =>
    rw [if_pos hgrouped]
    obtain ⟨groups, hgroups, h⟩ := Except.bind_eq_ok.1 h
    obtain ⟨outputs, houtputs, h⟩ := Except.bind_eq_ok.1 h
    -- The sort keys of a group are computed last, and leaving them out changes no value.
    obtain rfl := Except.ok.inj h
    have hgroups' : groupRows (withoutOrder statement limit).groupBy rows = .ok groups := hgroups
    rw [materialized, hgroups', Except.ok_bind,
      mapM_ok_map houtputs fun group out hout ↦ materializedRow_withoutOrder hout, Except.ok_bind]
    refine congrArg Except.ok ?_
    show (outputs.map _).filterMap id = (outputs.filterMap id).map _
    rw [List.filterMap_map, List.map_filterMap]
    rfl
  · next hgrouped =>
    rw [if_neg hgrouped]
    have hwhole : (wholeRowCall (withoutOrder statement limit).columns).isSome =
        (wholeRowCall statement.columns).isSome := rfl
    rw [hwhole]
    cases hcall : (wholeRowCall statement.columns).isSome with
    | true =>
      rw [hcall] at h
      refine mapM_ok_map h fun row out hout ↦ ?_
      obtain ⟨values, hvalues, hout⟩ := Except.bind_eq_ok.1 hout
      obtain ⟨orderKeys, -, hout⟩ := Except.bind_eq_ok.1 hout
      obtain rfl := Except.ok.inj hvalues
      obtain rfl := Except.ok.inj hout
      rfl
    | false =>
      rw [hcall] at h
      refine mapM_ok_map h fun row out hout ↦ ?_
      obtain ⟨values, hvalues, hout⟩ := Except.bind_eq_ok.1 hout
      obtain ⟨orderKeys, -, hout⟩ := Except.bind_eq_ok.1 hout
      obtain rfl := Except.ok.inj hout
      have hvalues' : project (withoutOrder statement limit) row rows = .ok values := hvalues
      simp only [hvalues', Except.ok_bind]
      rfl

/-- One output row at most is not sorted and has no duplicates. -/
theorem finishRows_of_length_le_one {output : List OutputRow} (h : output.length ≤ 1) :
    finishRows statement output = (limitRows statement output).map (·.values) := by
  have hdistinct : (if statement.distinct then distinctRows output else output) = output := by
    rw [distinctRows_eq_self (pairwise_of_length_le_one h), ite_self]
  have hsort : orderRows statement output = output := by
    rw [orderRows]
    split
    · rfl
    · exact List.mergeSort_of_pairwise (pairwise_of_length_le_one h)
  rw [finishRows, hdistinct, hsort]

/-- The limit commutes with a map of the rows. -/
theorem limitRows_map (f : OutputRow → OutputRow) (output : List OutputRow) :
    limitRows statement (output.map f) = (limitRows statement output).map f := by
  rw [limitRows, limitRows]
  split
  · rw [List.map_take, List.map_drop]
  · rw [List.map_drop]

/-- A LIMIT of one row keeps what is one row at most. -/
theorem limitRows_withoutOrder {output : List OutputRow} (h : output.length ≤ 1) :
    limitRows (withoutOrder statement (statement.limit.or (some (.literal (.int 1))))) output =
      limitRows statement output := by
  rw [limitRows, limitRows, withoutOrder]
  cases statement.limit with
  | some limit => rfl
  | none =>
    have hone : rowCount (some (.literal (.int 1))) = 1 := by decide
    rw [Option.none_or, Option.isSome_some, if_pos rfl, Option.isSome_none, if_neg Bool.false_ne_true, hone,
      List.take_of_length_le]
    rw [List.length_drop]
    omega

/-- A lookup of one row answers the same without ORDER BY and with a LIMIT of one row. -/
theorem materializedSelect_limitLookup (catalog : Catalog)
    (hlength : isPointLookup catalog statement → rows.length ≤ 1)
    (h : materializedSelect order catalog statement rows = .ok result) :
    materializedSelect order catalog (limitLookup catalog statement) rows = .ok result := by
  rw [limitLookup]
  split
  · next hlookup =>
    obtain ⟨best, hbest, h⟩ := Except.bind_eq_ok.1 h
    obtain ⟨output, houtput, h⟩ := Except.bind_eq_ok.1 h
    rw [bestRows_of_length_le_one _ (hlength hlookup)] at hbest
    obtain rfl := Except.ok.inj hbest
    have hone := length_materializedOutput (hlength hlookup) houtput
    have hfinish : finishRows (withoutOrder statement (statement.limit.or (some (.literal (.int 1)))))
        (output.map OutputRow.unordered) = finishRows statement output := by
      rw [finishRows_of_length_le_one hone, finishRows_of_length_le_one (by rwa [List.length_map]),
        limitRows_map, limitRows_withoutOrder hone, List.map_map]
      rfl
    have hselect (limit : Option Expr) : materializedSelect order catalog (withoutOrder statement limit) rows =
        bestRows (wholeRowCall statement.columns) rows >>= fun best ↦
          materializedOutput order (withoutOrder statement limit) (resultColumns catalog statement best) best >>=
            fun output ↦ pure { columns := resultColumns catalog statement best,
                                rows := finishRows (withoutOrder statement limit) output } := rfl
    refine (hselect _).trans ?_
    rw [bestRows_of_length_le_one _ (hlength hlookup), Except.ok_bind,
      materializedOutput_withoutOrder houtput, Except.ok_bind, hfinish]
    exact h
  · exact h

/-- A filter leaves rows in their order. -/
theorem filterRows_sublist {condition : Option Expr} {kept : List EvalRow}
    (h : filterRows condition rows = .ok kept) : kept.Sublist rows := by
  cases condition with
  | none =>
    obtain rfl := Except.ok.inj h
    exact .refl _
  | some condition =>
    obtain ⟨p, -, rfl⟩ := List.exists_of_filterM_eq_ok h
    exact List.filter_sublist

/-! ### Constant conditions -/

/-- A literal that `isTruthy` accepts holds as a condition. -/
theorem asBoolean_of_isTruthy {literal : Literal} (h : isTruthy literal) :
    (literalValue literal).asBoolean := by
  cases literal with
  | int value =>
    refine Float.ofInt_bne_zero fun hzero ↦ ?_
    have hvalue : value = 0 := Int64.toInt_inj.1 hzero
    rw [hvalue] at h
    exact nomatch h
  | float bits => exact h
  | string value => exact h
  | nul => exact nomatch h
  | bool value => exact h

/-- A condition that always holds excludes no row. -/
theorem filterRows_dropTruthy {condition : Option Expr} {kept : List EvalRow}
    (h : filterRows condition rows = .ok kept) : filterRows (dropTruthy condition) rows = .ok kept := by
  unfold dropTruthy
  split
  · next literal =>
    split
    · next htruthy =>
      have hall : ∀ row ∈ rows, (do pure (← eval (.literal literal) row).asBoolean) = Except.ok true :=
        fun row _ ↦ congrArg Except.ok (asBoolean_of_isTruthy htruthy)
      have hkept : Except.ok kept = Except.ok (rows.filter fun _ ↦ true) :=
        h.symm.trans (List.filterM_eq_ok (p := fun _ ↦ true) hall)
      rw [Except.ok.inj hkept, List.filter_true]
      rfl
    · exact h
  · exact h

/-! ### The rewrites together -/

/-- The statement after the rewrites that rely on the catalog, without a WHERE that always holds. -/
def metadataRewrite (catalog : Catalog) (statement : SelectStmt) : SelectStmt :=
  let rewritten := applyMetadataOptimizations (some catalog) statement
  { rewritten with where' := dropTruthy rewritten.where' }

/-- Dropping a condition that always holds leaves the result. -/
theorem rowSelect_dropTruthy (h : rowSelect order db statement = .ok result) :
    rowSelect order db { statement with where' := dropTruthy statement.where' } = .ok result := by
  obtain ⟨base, hbase, h⟩ := Except.bind_eq_ok.1 h
  obtain ⟨joined, hjoined, h⟩ := Except.bind_eq_ok.1 h
  obtain ⟨kept, hkept, h⟩ := Except.bind_eq_ok.1 h
  have hjoined' : executeSourceOrderJoins db { statement with where' := dropTruthy statement.where' } base =
      .ok joined := hjoined
  simp only [rowSelect, hbase, hjoined', filterRows_dropTruthy hkept, Except.ok_bind]
  exact h

/-- A statement without joins is answered from the scan of its table. -/
theorem rowSelect_of_joins_nil (hjoins : statement.joins = []) :
    rowSelect order db statement = scanTable db statement.fromTable statement.fromAlias >>= fun base ↦
      filterRows statement.where' base >>= materializedSelect order db.catalog statement := by
  have hnone (base : List EvalRow) : executeSourceOrderJoins db statement base = .ok base := by
    unfold executeSourceOrderJoins
    rw [hjoins]
    rfl
  unfold rowSelect
  simp only [hnone, Except.ok_bind]

/-- The metadata pass is its rewrites, one after the other. -/
theorem applyMetadataOptimizations_eq (htable : db.catalog.tables[statement.fromTable]? = some table)
    (hjoins : statement.joins = []) :
    applyMetadataOptimizations (some db.catalog) statement =
      limitLookup db.catalog (dropDistinct db.catalog (rewriteCounts db.catalog statement)) := by
  rw [applyMetadataOptimizations, hjoins, htable]
  rfl

/-- The rewrites change neither the table that is read nor the condition. -/
theorem limitLookup_source (catalog : Catalog) (select : SelectStmt) :
    let rewritten := limitLookup catalog (dropDistinct catalog (rewriteCounts catalog select))
    rewritten.joins = select.joins ∧ rewritten.fromTable = select.fromTable ∧
      rewritten.fromAlias = select.fromAlias ∧ rewritten.where' = select.where' := by
  unfold limitLookup dropDistinct
  split <;> split <;> exact ⟨rfl, rfl, rfl, rfl⟩

/-- What a condition pins does not depend on DISTINCT. -/
theorem wherePinsPrimaryKey_distinct (catalog : Catalog) (select : SelectStmt) (distinct : Bool)
    (condition : Expr) : wherePinsPrimaryKey catalog { select with distinct } condition =
      wherePinsPrimaryKey catalog select condition := by
  induction condition using Expr.operatorInduction with
  | binary op left right alias' ihl ihr =>
    rw [wherePinsPrimaryKey.eq_def, wherePinsPrimaryKey.eq_def catalog select]
    split
    · next heq =>
      cases heq
      exact congrArg₂ or ihl ihr
    all_goals rfl
  | _ => rfl

/-- Dropping `DISTINCT` leaves whether a statement looks up one row. -/
theorem isPointLookup_dropDistinct (catalog : Catalog) (select : SelectStmt) :
    isPointLookup catalog (dropDistinct catalog select) = isPointLookup catalog select := by
  unfold dropDistinct
  split
  · unfold isPointLookup
    rw [funext (wherePinsPrimaryKey_distinct catalog select false)]
    rfl
  · rfl

/-- The rows of a table differ in its primary key. -/
theorem Database.KeysUnique.pairwise (hunique : db.KeysUnique)
    (htable : db.catalog.tables[statement.fromTable]? = some table) {column : ColumnMeta}
    (hindex : table.columns[index]? = some column) (hprimary : column.primaryKey) :
    ((db.stored statement.fromTable).map
      (bindRow (boundColumns table statement.fromTable statement.fromAlias))).Pairwise (ApartIn index) :=
  List.pairwise_map.2 (hunique _ table htable index column hindex hprimary)

/-- The rewrites that rely on the catalog keep the answer of a statement that succeeds, in every database
whose primary keys are unique. -/
theorem rowSelect_metadataRewrite (order : GroupOrder) (db : Database) (hunique : db.KeysUnique) (statement : SelectStmt)
    {result : NativeQueryResult} (h : rowSelect order db statement = .ok result) :
    rowSelect order db (metadataRewrite db.catalog statement) = .ok result := by
  refine rowSelect_dropTruthy ?_
  by_cases happlies : statement.joins = [] ∧ ∃ table, db.catalog.tables[statement.fromTable]? = some table
  · obtain ⟨hjoins, table, htable⟩ := happlies
    obtain ⟨hjoins', hfrom, halias, hwhere⟩ := limitLookup_source db.catalog statement
    rw [rowSelect_of_joins_nil hjoins, scanTable_eq_ok htable, Except.ok_bind] at h
    rw [applyMetadataOptimizations_eq htable hjoins, rowSelect_of_joins_nil (hjoins'.trans hjoins), hfrom,
      halias, hwhere, scanTable_eq_ok htable, Except.ok_bind]
    obtain ⟨kept, hkept, h⟩ := Except.bind_eq_ok.1 h
    rw [hkept, Except.ok_bind]
    have hbase : TableRows db statement table ((db.stored statement.fromTable).map
        (bindRow (boundColumns table statement.fromTable statement.fromAlias))) :=
      fun row hrow ↦ List.mem_map.1 hrow
    have hsublist := filterRows_sublist hkept
    have hrows : TableRows db statement table kept := fun row hrow ↦ hbase row (hsublist.subset hrow)
    have hkeys : ∀ index column, table.columns[index]? = some column → column.primaryKey →
        kept.Pairwise (ApartIn index) := fun index column hindex hprimary ↦
      (hunique.pairwise htable hindex hprimary).sublist hsublist
    -- each rewrite is sound on the statement that the rewrites before it leave
    have hcounts := materializedSelect_rewriteCounts htable hrows h
    have hdistinct : materializedSelect order db.catalog
        (dropDistinct db.catalog (rewriteCounts db.catalog statement)) kept = .ok result :=
      materializedSelect_dropDistinct htable hrows hkeys hcounts
    refine materializedSelect_limitLookup db.catalog (fun hlookup ↦ ?_) hdistinct
    rw [isPointLookup_dropDistinct, isPointLookup, Bool.and_assoc, Bool.and_assoc] at hlookup
    have hpins : (rewriteCounts db.catalog statement).where'.any
        (wherePinsPrimaryKey db.catalog (rewriteCounts db.catalog statement)) :=
      (Bool.and_eq_true_iff.1 hlookup).1
    exact length_filterRows (rewriteCounts db.catalog statement) htable hbase
      (fun index column hindex hprimary ↦ hunique.pairwise htable hindex hprimary) hpins hkept
  · rw [applyMetadataOptimizations, if_pos]
    · exact h
    · rw [Bool.or_eq_true_iff]
      by_contra hneither
      obtain ⟨hjoins, htable⟩ := not_or.1 hneither
      refine happlies ⟨?_, ?_⟩
      · simpa using hjoins
      · exact Option.isSome_iff_exists.1 (by simpa using htable)

/-- The keys of a table with one row are unique. -/
theorem adaDatabase_keysUnique : adaDatabase.KeysUnique := by
  intro name table _ index column _ _
  show (if name = lit "t" then [adaRow] else []).Pairwise _
  split
  · exact List.pairwise_singleton _ _
  · exact .nil

/-- A lookup of the key 1, from which the rewrites take DISTINCT and to which they add a LIMIT. -/
theorem rowSelect_metadataRewrite_ada :
    let statement : SelectStmt := { selectById (.int 1) with distinct := true }
    rowSelect KeyedGroups.newestFirst adaDatabase (metadataRewrite adaDatabase.catalog statement) =
      .ok { columns := [lit "id", lit "name"], rows := [[.integer 1, .text (lit "ada")]] } :=
  rowSelect_metadataRewrite KeyedGroups.newestFirst adaDatabase adaDatabase_keysUnique _ rfl

end SkibidiQL
