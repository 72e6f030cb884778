import SkibidiQL.Query.RowSelect

/-!
# Qualified column names in joined rows

A joined row lists the columns of its relations one after the other, each under the table name and the alias
of its relation. `resolveColumn` compares a qualifier with both and takes the last column that matches, so
that a relation without an alias is hidden by a later occurrence of its table, and an alias by a later table
of that name (`resolveColumn_qualified_iff`).
-/

namespace SkibidiQL

/-! ### The last match -/

section Resolve

variable {column : ColumnRef} (before after : List BoundColumn) {target : BoundColumn}

/-- The search goes on from the first part of a schema to the second. -/
theorem resolveColumnFrom_append (column : ColumnRef) (xs ys : List BoundColumn) (index : Nat)
    (result : Option Nat) :
    resolveColumnFrom column (xs ++ ys) index result =
      resolveColumnFrom column xs index result >>= resolveColumnFrom column ys (index + xs.length) := by
  induction xs generalizing index result with
  | nil => rfl
  | cons candidate xs ih =>
    rw [List.cons_append, resolveColumnFrom, resolveColumnFrom, List.length_cons,
      Nat.add_comm xs.length, ← Nat.add_assoc]
    split_ifs with hnames hambiguous
    · rfl
    · exact ih (index + 1) (some index)
    · exact ih (index + 1) result

/-- Columns that the reference does not name leave the result alone. -/
theorem resolveColumnFrom_of_none {columns : List BoundColumn}
    (h : ∀ candidate ∈ columns, ¬column.names candidate) (index : Nat) (result : Option Nat) :
    resolveColumnFrom column columns index result = .ok result := by
  induction columns generalizing index with
  | nil => rfl
  | cons candidate columns ih =>
    rw [resolveColumnFrom, if_neg (h candidate List.mem_cons_self)]
    exact ih (fun other hmem ↦ h other (List.mem_cons_of_mem _ hmem)) (index + 1)

/-- A qualified reference is never ambiguous: a later match replaces an earlier one. -/
theorem resolveColumnFrom_qualified (hqualified : ¬column.table.isEmpty) (columns : List BoundColumn)
    (index : Nat) (result : Option Nat) :
    ∃ found, resolveColumnFrom column columns index result = .ok found ∧
      (found = result ∨ ∃ position, found = some position ∧ index ≤ position) ∧
      ((∃ candidate ∈ columns, column.names candidate) → ∃ position, found = some position ∧ index ≤ position) := by
  induction columns generalizing index result with
  | nil => exact ⟨result, rfl, .inl rfl, fun ⟨_, hmem, _⟩ ↦ absurd hmem List.not_mem_nil⟩
  | cons candidate columns ih =>
    rw [resolveColumnFrom]
    by_cases hnames : column.names candidate
    · have hnot : ¬(result.isSome && column.table.isEmpty) := fun h ↦
        hqualified ((Bool.and_eq_true _ _).mp h).2
      obtain ⟨found, hrun, hlast, -⟩ := ih (index + 1) (some index)
      rw [if_pos hnames, if_neg hnot, hrun]
      have hposition : ∃ position, found = some position ∧ index ≤ position := by
        rcases hlast with rfl | ⟨position, rfl, hle⟩
        · exact ⟨index, rfl, Nat.le_refl index⟩
        · exact ⟨position, rfl, Nat.le_of_succ_le hle⟩
      exact ⟨found, rfl, .inr hposition, fun _ ↦ hposition⟩
    · obtain ⟨found, hrun, hlast, hmatch⟩ := ih (index + 1) result
      rw [if_neg hnames, hrun]
      refine ⟨found, rfl, hlast.imp_right fun ⟨position, heq, hle⟩ ↦ ⟨position, heq, Nat.le_of_succ_le hle⟩, ?_⟩
      rintro ⟨other, hmem, hother⟩
      rcases List.mem_cons.1 hmem with rfl | hmem
      · exact absurd hother hnames
      · obtain ⟨position, heq, hle⟩ := hmatch ⟨other, hmem, hother⟩
        exact ⟨position, heq, Nat.le_of_succ_le hle⟩

/-- The columns up to one that the reference names. -/
theorem resolveColumnFrom_target (hqualified : ¬column.table.isEmpty) (hnames : column.names target) :
    resolveColumnFrom column (before ++ target :: after) 0 none =
      resolveColumnFrom column after (before.length + 1) (some before.length) := by
  obtain ⟨found, hrun, -, -⟩ := resolveColumnFrom_qualified hqualified before 0 none
  have hnot : ¬(found.isSome && column.table.isEmpty) := fun h ↦
    hqualified ((Bool.and_eq_true _ _).mp h).2
  rw [resolveColumnFrom_append, hrun]
  show resolveColumnFrom column (target :: after) (0 + before.length) found = _
  rw [resolveColumnFrom, if_pos hnames, if_neg hnot, Nat.zero_add]

/-- A qualified reference to a column of the schema finds that column exactly if it names no later one. -/
theorem resolveIndex_iff (hqualified : ¬column.table.isEmpty) (hnames : column.names target) :
    ∃ position, resolveIndex column (before ++ target :: after) = .ok position ∧ before.length ≤ position ∧
      (position = before.length ↔ ∀ candidate ∈ after, ¬column.names candidate) := by
  have htarget := resolveColumnFrom_target before after hqualified hnames
  by_cases hlater : ∃ candidate ∈ after, column.names candidate
  · obtain ⟨found, hrun, -, hmatch⟩ :=
      resolveColumnFrom_qualified hqualified after (before.length + 1) (some before.length)
    obtain ⟨position, rfl, hle⟩ := hmatch hlater
    refine ⟨position, by rw [resolveIndex, htarget, hrun]; rfl, by omega,
      iff_of_false (by omega) fun hall ↦ ?_⟩
    obtain ⟨candidate, hmem, hother⟩ := hlater
    exact hall candidate hmem hother
  · have hnone : ∀ candidate ∈ after, ¬column.names candidate := fun candidate hmem hother ↦
      hlater ⟨candidate, hmem, hother⟩
    refine ⟨before.length, ?_, Nat.le_refl _, iff_of_true rfl hnone⟩
    rw [resolveIndex, htarget, resolveColumnFrom_of_none hnone]
    rfl

/-- A reference finds the value of a column it names, whatever the values are, exactly if it names no later
column. -/
theorem resolveColumn_iff (hqualified : ¬column.table.isEmpty) (hnames : column.names target) :
    (∀ (left : Tuple) (value : Value) (right : Tuple), left.length = before.length →
      right.length = after.length →
      resolveColumn column ⟨some (before ++ target :: after), left ++ value :: right⟩ = .ok value) ↔
    ∀ candidate ∈ after, ¬column.names candidate := by
  obtain ⟨position, hindex, hle, hiff⟩ := resolveIndex_iff before after hqualified hnames
  have hresolve (values : Tuple) :
      resolveColumn column ⟨some (before ++ target :: after), values⟩ = .ok (values.getD position .null) := by
    rw [resolveColumn]
    simp only [hindex]
    rfl
  simp only [hresolve, ← hiff, Except.ok.injEq]
  constructor
  · intro h
    by_contra hne
    -- one value that no other column has
    have hvalue := h (List.replicate before.length .null) (.boolean true)
      (List.replicate after.length .null) List.length_replicate List.length_replicate
    obtain ⟨k, rfl⟩ : ∃ k, position = before.length + (k + 1) := ⟨position - before.length - 1, by omega⟩
    rw [List.getD_eq_getElem?_getD, List.getElem?_append_right (by rw [List.length_replicate]; omega),
      List.length_replicate, Nat.add_sub_cancel_left, List.getElem?_cons_succ, List.getElem?_replicate] at hvalue
    split_ifs at hvalue <;> cases hvalue
  · rintro rfl left value right hleft -
    rw [← hleft, List.getD_eq_getElem?_getD, List.getElem?_append_right (Nat.le_refl _), Nat.sub_self]
    rfl

end Resolve

/-! ### Joined rows -/

/-- An occurrence of a table in FROM or JOIN. -/
structure Relation where
  table : Bytes
  alias' : Bytes
  columns : List Bytes

/-- The name under which the relation is visible: the alias if one is given, otherwise the table name. -/
def Relation.visible (relation : Relation) : Bytes :=
  if relation.alias'.isEmpty then relation.table else relation.alias'

/-- The columns that `boundSchema` gives the relation. -/
def Relation.bound (relation : Relation) : List BoundColumn :=
  relation.columns.map fun name ↦ { table := relation.table, alias' := relation.alias', name }

/-- The columns of a joined row: what `combineSchemas` makes of the relations in their order. -/
def joinedSchema (relations : List Relation) : List BoundColumn :=
  relations.flatMap Relation.bound

/-- A qualified reference names a column of a relation by the table name and by the alias. -/
theorem names_bound_iff {relation : Relation} {q c name : Bytes} (hq : ¬q.isEmpty) :
    ({ table := q, column := c } : ColumnRef).names ⟨relation.table, relation.alias', name⟩ ↔
      name = c ∧ (q = relation.table ∨ ¬relation.alias'.isEmpty ∧ q = relation.alias') := by
  simp only [ColumnRef.names, hq, Bool.false_or, Bool.and_eq_true, Bool.or_eq_true, Bool.not_eq_true',
    beq_iff_eq, Bool.not_eq_true]

/-- A relation is visible under its alias, or under its table when it has none. -/
theorem visible_cases (relation : Relation) :
    relation.visible = relation.table ∨ ¬relation.alias'.isEmpty ∧ relation.visible = relation.alias' := by
  unfold Relation.visible
  split_ifs with hempty
  · exact .inl rfl
  · exact .inr ⟨hempty, rfl⟩

/-- A relation is named by a visible name that is not its own only under its table name. -/
theorem names_other_iff {relation : Relation} {q c name : Bytes} (hq : ¬q.isEmpty)
    (hother : q ≠ relation.visible) :
    ({ table := q, column := c } : ColumnRef).names ⟨relation.table, relation.alias', name⟩ ↔
      name = c ∧ relation.table = q := by
  rw [names_bound_iff hq]
  refine and_congr_right fun _ ↦ ⟨?_, fun h ↦ .inl h.symm⟩
  rintro (rfl | ⟨halias, rfl⟩)
  · rfl
  · exact absurd (if_neg halias).symm hother

/-- The columns behind a column of a relation that its visible name also names. -/
theorem not_names_after_iff {relation : Relation} {after : List Relation} {left right : List Bytes} {c : Bytes}
    (hcolumns : relation.columns = left ++ c :: right) (hnodup : relation.columns.Nodup)
    (hdistinct : ∀ other ∈ after, relation.visible ≠ other.visible) (hvisible : ¬relation.visible.isEmpty) :
    (∀ candidate ∈ right.map (fun name ↦ (⟨relation.table, relation.alias', name⟩ : BoundColumn)) ++
        joinedSchema after, ¬({ table := relation.visible, column := c } : ColumnRef).names candidate) ↔
      ∀ other ∈ after, other.table = relation.visible → c ∉ other.columns := by
  constructor
  · intro h other hmem htable hc
    refine h ⟨other.table, other.alias', c⟩ (List.mem_append_right _ ?_) ?_
    · exact List.mem_flatMap.2 ⟨other, hmem, List.mem_map_of_mem hc⟩
    · exact (names_other_iff hvisible (hdistinct other hmem)).2 ⟨rfl, htable⟩
  · intro h candidate hmem hnames
    rcases List.mem_append.1 hmem with hown | hlater
    · -- the columns of one relation have different names
      obtain ⟨name, hname, rfl⟩ := List.mem_map.1 hown
      obtain ⟨rfl, -⟩ := (names_bound_iff hvisible).1 hnames
      rw [hcolumns] at hnodup
      exact (List.nodup_cons.1 (List.nodup_append.1 hnodup).2.1).1 hname
    · obtain ⟨other, hother, hbound⟩ := List.mem_flatMap.1 hlater
      obtain ⟨name, hname, rfl⟩ := List.mem_map.1 hbound
      obtain ⟨rfl, htable⟩ := (names_other_iff hvisible (hdistinct other hother)).1 hnames
      exact h other hother htable hname

/-- For relations with distinct visible names, a reference to a column of one of them by its visible name
returns the value of that column in every row, exactly if no later relation is an occurrence, under an alias,
of a table that has this name and such a column. -/
theorem resolveColumn_qualified_iff (before after : List Relation) (relation : Relation)
    (left right : List Bytes) (c : Bytes) (hcolumns : relation.columns = left ++ c :: right)
    (hnodup : relation.columns.Nodup)
    (hdistinct : ((before ++ relation :: after).map Relation.visible).Nodup)
    (hvisible : ¬relation.visible.isEmpty) :
    (∀ (valuesBefore valuesLeft : Tuple) (value : Value) (valuesRight valuesAfter : Tuple),
      valuesBefore.length = (joinedSchema before).length → valuesLeft.length = left.length →
      valuesRight.length = right.length → valuesAfter.length = (joinedSchema after).length →
      resolveColumn { table := relation.visible, column := c }
        ⟨some (joinedSchema (before ++ relation :: after)),
          valuesBefore ++ (valuesLeft ++ value :: valuesRight) ++ valuesAfter⟩ = .ok value) ↔
      ∀ other ∈ after, other.table = relation.visible → c ∉ other.columns := by
  set bound : Bytes → BoundColumn := fun name ↦ ⟨relation.table, relation.alias', name⟩ with hbound
  have hother : ∀ other ∈ after, relation.visible ≠ other.visible := by
    rw [List.map_append, List.map_cons] at hdistinct
    intro other hmem heq
    refine (List.nodup_cons.1 (List.nodup_append.1 hdistinct).2.1).1 ?_
    rw [heq]
    exact List.mem_map_of_mem hmem
  have hschema : joinedSchema (before ++ relation :: after) =
      (joinedSchema before ++ left.map bound) ++ bound c :: (right.map bound ++ joinedSchema after) := by
    simp only [joinedSchema, List.flatMap_append, List.flatMap_cons, Relation.bound, hcolumns, List.map_append,
      List.map_cons, List.append_assoc, List.cons_append, hbound]
  have hvalues (valuesBefore valuesLeft : Tuple) (value : Value) (valuesRight valuesAfter : Tuple) :
      valuesBefore ++ (valuesLeft ++ value :: valuesRight) ++ valuesAfter =
        (valuesBefore ++ valuesLeft) ++ value :: (valuesRight ++ valuesAfter) := by
    simp only [List.append_assoc, List.cons_append]
  have hnames : ({ table := relation.visible, column := c } : ColumnRef).names (bound c) :=
    (names_bound_iff hvisible).2 ⟨rfl, visible_cases relation⟩
  have hresolve := resolveColumn_iff (joinedSchema before ++ left.map bound)
    (right.map bound ++ joinedSchema after) hvisible hnames
  rw [← not_names_after_iff hcolumns hnodup hother hvisible, ← hresolve, hschema]
  simp only [hvalues, List.length_append, List.length_map]
  constructor
  -- The values in front of the column and behind it are cut at the ends of the relations.
  · intro h valuesLeft value valuesRight hleft hright
    have hvalue := h (valuesLeft.take (joinedSchema before).length)
      (valuesLeft.drop (joinedSchema before).length) value (valuesRight.take right.length)
      (valuesRight.drop right.length) (by rw [List.length_take]; omega) (by rw [List.length_drop]; omega)
      (by rw [List.length_take]; omega) (by rw [List.length_drop]; omega)
    rwa [List.take_append_drop, List.take_append_drop] at hvalue
  · intro h valuesBefore valuesLeft value valuesRight valuesAfter hbefore hleft hright hafter
    exact h _ value _ (by rw [List.length_append, hbefore, hleft]) (by rw [List.length_append, hright, hafter])

/-- A table with one column, joined with itself under an alias. -/
def selfJoin : List Relation :=
  [⟨lit "t", [], [lit "c"]⟩, ⟨lit "t", lit "b", [lit "c"]⟩]

/-- In `FROM t JOIN t AS b` the alias names the column of the second occurrence. -/
theorem resolveColumn_qualified_iff_alias :
    (∀ (valuesBefore valuesLeft : Tuple) (value : Value) (valuesRight valuesAfter : Tuple),
      valuesBefore.length = 1 → valuesLeft.length = 0 → valuesRight.length = 0 → valuesAfter.length = 0 →
      resolveColumn { table := lit "b", column := lit "c" }
        ⟨some (joinedSchema selfJoin), valuesBefore ++ (valuesLeft ++ value :: valuesRight) ++ valuesAfter⟩ =
          .ok value) ↔
      ∀ other ∈ ([] : List Relation), other.table = lit "b" → lit "c" ∉ other.columns :=
  resolveColumn_qualified_iff [⟨lit "t", [], [lit "c"]⟩] [] ⟨lit "t", lit "b", [lit "c"]⟩ [] [] (lit "c") rfl
    (by decide) (by decide) (by decide)

/-- In `FROM t JOIN t AS b` the reference `t.c` returns the column of `b`. -/
theorem resolveColumn_wrong_relation :
    ¬∀ (before after : List Relation) (relation : Relation) (left right : List Bytes) (c : Bytes),
      relation.columns = left ++ c :: right → relation.columns.Nodup →
      ((before ++ relation :: after).map Relation.visible).Nodup → ¬relation.visible.isEmpty →
      ∀ (valuesBefore valuesLeft : Tuple) (value : Value) (valuesRight valuesAfter : Tuple),
        valuesBefore.length = (joinedSchema before).length → valuesLeft.length = left.length →
        valuesRight.length = right.length → valuesAfter.length = (joinedSchema after).length →
        resolveColumn { table := relation.visible, column := c }
          ⟨some (joinedSchema (before ++ relation :: after)),
            valuesBefore ++ (valuesLeft ++ value :: valuesRight) ++ valuesAfter⟩ = .ok value := by
  intro h
  have hvalue := h [] [⟨lit "t", lit "b", [lit "c"]⟩] ⟨lit "t", [], [lit "c"]⟩ [] [] (lit "c") rfl
    (by decide) (by decide) (by decide) [] [] (.integer 1) [] [.integer 2] rfl rfl rfl rfl
  exact absurd hvalue (by decide)

/-! ### The rows that joins produce -/

/-- A row of these relations. -/
structure EvalRow.IsOf (row : EvalRow) (relations : List Relation) : Prop where
  columns_eq : row.columns = some (joinedSchema relations)
  width : row.values.length = (joinedSchema relations).length

variable {db : Database} {statement : SelectStmt} {relations : List Relation}

/-- An occurrence of the table under this name and alias. -/
def TableMeta.relation (table : TableMeta) (name alias' : Bytes) : Relation where
  table := name
  alias'
  columns := table.columns.map (·.name)

/-- The columns of a relation are those of its table. -/
theorem bound_relation (table : TableMeta) (name alias' : Bytes) :
    (table.relation name alias').bound = boundColumns table name alias' := by
  rw [Relation.bound, TableMeta.relation, List.map_map]
  rfl

theorem joinedSchema_append (relations : List Relation) (relation : Relation) :
    joinedSchema (relations ++ [relation]) = joinedSchema relations ++ relation.bound := by
  rw [joinedSchema, List.flatMap_append, List.flatMap_singleton, joinedSchema]

theorem joinedSchema_singleton (relation : Relation) : joinedSchema [relation] = relation.bound :=
  joinedSchema_append [] relation

/-- A table of the database has the columns of its relation, in every row. -/
theorem width_of_table {name : Bytes} {table : TableMeta} (htable : db.table name = .ok table)
    {row : StoredRow} (hrow : row ∈ db.stored name) : row.values.length = table.columns.length := by
  unfold Database.table at htable
  split at htable
  · rename_i found hfound
    obtain rfl := Except.ok.inj htable
    exact db.width name found hfound row hrow
  · cases htable

/-- The rows of a scan are rows of an occurrence of the table. -/
theorem scanTable_isOf {name alias' : Bytes} {rows : List EvalRow} (h : scanTable db name alias' = .ok rows) :
    ∃ table, db.table name = .ok table ∧
      ∀ row ∈ rows, row.IsOf [table.relation name alias'] ∧ row.values.length = table.columns.length := by
  obtain ⟨table, htable, hrows⟩ := Except.bind_eq_ok.1 h
  obtain rfl := Except.ok.inj hrows
  refine ⟨table, htable, fun row hrow ↦ ?_⟩
  obtain ⟨stored, hstored, rfl⟩ := List.mem_map.1 hrow
  have hwidth := width_of_table htable hstored
  refine ⟨⟨?_, ?_⟩, hwidth⟩
  · rw [joinedSchema_singleton, bound_relation]
    rfl
  · rw [joinedSchema_singleton, bound_relation, boundColumns, List.length_map]
    exact hwidth

/-- The rows that a row contributes to a join. -/
theorem combinations_isOf {join : JoinClause} {row : EvalRow} (hrow : row.IsOf relations)
    {table : TableMeta} {name alias' : Bytes} {matching : List EvalRow}
    (hmatching : ∀ other ∈ matching, other.values.length = table.columns.length) :
    ∀ combined ∈ join.combinations (joinedSchema (relations ++ [table.relation name alias']))
      table.columns.length row matching, combined.IsOf (relations ++ [table.relation name alias']) := by
  have hcombine (values : Tuple) (hvalues : values.length = table.columns.length) :
      (row.combine (joinedSchema (relations ++ [table.relation name alias'])) values).IsOf
        (relations ++ [table.relation name alias']) := by
    refine ⟨rfl, ?_⟩
    rw [joinedSchema_append, bound_relation, boundColumns]
    show (row.values ++ values).length = _
    rw [List.length_append, List.length_append, List.length_map, hrow.width, hvalues]
  intro combined hcombined
  unfold JoinClause.combinations at hcombined
  split_ifs at hcombined
  · obtain rfl := List.mem_singleton.1 hcombined
    exact hcombine _ List.length_replicate
  · obtain ⟨other, hother, rfl⟩ := List.mem_map.1 hcombined
    exact hcombine _ (hmatching other hother)

/-- The matches of a key come from the entries. -/
theorem mem_of_mem_hashMatches {entries : List (Value × EvalRow)} {key : Value} {row : EvalRow}
    (h : row ∈ hashMatches entries key) : ∃ entry ∈ entries, entry.2 = row := by
  unfold hashMatches at h
  split_ifs at h
  · cases h
  · obtain ⟨entry, hentry, rfl⟩ := List.mem_map.1 h
    exact ⟨entry, List.mem_of_mem_filter hentry, rfl⟩

/-- The combinations of the rows of the left side. -/
theorem flatten_isOf {join : JoinClause} {rows : List EvalRow} (hrows : ∀ row ∈ rows, row.IsOf relations)
    {table : TableMeta} {name alias' : Bytes} {matching : EvalRow → Except Error (List EvalRow)}
    (hmatching : ∀ row ∈ rows, ∀ others, matching row = .ok others →
      ∀ other ∈ others, other.values.length = table.columns.length) {joined : List (List EvalRow)}
    (h : rows.mapM (fun row ↦ do
      pure (join.combinations (joinedSchema (relations ++ [table.relation name alias']))
        table.columns.length row (← matching row))) = .ok joined) :
    ∀ combined ∈ joined.flatten, combined.IsOf (relations ++ [table.relation name alias']) := by
  intro combined hcombined
  obtain ⟨result, hresult, hmem⟩ := List.mem_flatten.1 hcombined
  obtain ⟨row, hrow, hrun⟩ := List.exists_of_mem_mapM h hresult
  obtain ⟨others, hothers, hrun⟩ := Except.bind_eq_ok.1 hrun
  obtain rfl := Except.ok.inj hrun
  exact combinations_isOf (hrows row hrow) (hmatching row hrow others hothers) combined hmem

/-- What `executeSourceOrderJoins` does with the rows of both sides under the joined schema. -/
def JoinClause.joinRows (join : JoinClause) (schema : List BoundColumn) (table : TableMeta)
    (rows right : List EvalRow) : Except Error (List EvalRow) :=
  match join.keys with
  | some keys => hashJoin join schema table.columns.length keys rows right
  | none => nestedLoopJoin join schema ((right.head?.map (·.values.length)).getD table.columns.length) rows right

theorem joinRows_nil (join : JoinClause) (schema schema' : List BoundColumn) (table : TableMeta)
    (right : List EvalRow) : join.joinRows schema table [] right = join.joinRows schema' table [] right := by
  unfold JoinClause.joinRows
  rcases join.keys with _ | keys <;> rfl

/-- The schema of the rows joined so far. -/
def leftSchema (db : Database) (statement : SelectStmt) : List EvalRow → Except Error (List BoundColumn)
  | row :: _ => pure (row.columns.getD [])
  | [] => boundSchema db statement.fromTable statement.fromAlias

/-- The schema of the right side does not depend on whether it has rows. -/
theorem joinTable_of_schema {join : JoinClause} {rows right : List EvalRow} {table : TableMeta}
    (htable : db.table join.table = .ok table) (hscan : scanTable db join.table join.alias' = .ok right)
    (hright : ∀ row ∈ right, row.IsOf [table.relation join.table join.alias']) :
    joinTable db statement rows join = leftSchema db statement rows >>= fun left ↦
      join.joinRows (left ++ (table.relation join.table join.alias').bound) table rows right := by
  have hbound : boundSchema db join.table join.alias' = .ok (table.relation join.table join.alias').bound := by
    rw [boundSchema, htable, bound_relation]
    rfl
  rw [joinTable, hscan, Except.ok_bind, htable]
  rcases right with _ | ⟨other, others⟩
  · simp only [hbound]
    rcases rows with _ | ⟨row, rest⟩ <;> rfl
  · have hcolumns := (hright other List.mem_cons_self).columns_eq
    rw [joinedSchema_singleton] at hcolumns
    simp only [hcolumns]
    rcases rows with _ | ⟨row, rest⟩ <;> rfl

/-- A join works on the scan of its table, under the joined schema. -/
theorem joinTable_eq {join : JoinClause} {rows right : List EvalRow} {table : TableMeta}
    (htable : db.table join.table = .ok table) (hscan : scanTable db join.table join.alias' = .ok right)
    (hright : ∀ row ∈ right, row.IsOf [table.relation join.table join.alias'])
    (hrows : ∀ row ∈ rows, row.IsOf relations) {joined : List EvalRow}
    (h : joinTable db statement rows join = .ok joined) :
    join.joinRows (joinedSchema (relations ++ [table.relation join.table join.alias'])) table rows right =
      .ok joined := by
  rw [joinTable_of_schema htable hscan hright] at h
  rcases rows with _ | ⟨row, rest⟩
  · obtain ⟨left, -, h⟩ := Except.bind_eq_ok.1 h
    rwa [joinRows_nil] at h
  · rw [leftSchema, (hrows row List.mem_cons_self).columns_eq] at h
    rw [joinedSchema_append]
    exact h

/-- Joined rows are rows of one relation more. -/
theorem joinRows_isOf {join : JoinClause} {rows right joined : List EvalRow} {table : TableMeta}
    {name alias' : Bytes} (hright : ∀ row ∈ right, row.values.length = table.columns.length)
    (hrows : ∀ row ∈ rows, row.IsOf relations)
    (h : join.joinRows (joinedSchema (relations ++ [table.relation name alias'])) table rows right =
      .ok joined) :
    ∀ row ∈ joined, row.IsOf (relations ++ [table.relation name alias']) := by
  unfold JoinClause.joinRows at h
  -- A nested loop filters the right rows, a hash join looks them up; both only combine rows they were given.
  rcases hkeys : join.keys with _ | keys
  · simp only [hkeys] at h
    have hwidth : (right.head?.map (·.values.length)).getD table.columns.length = table.columns.length := by
      rcases right with _ | ⟨other, others⟩
      · rfl
      · exact hright other List.mem_cons_self
    rw [hwidth] at h
    obtain ⟨parts, hparts, h⟩ := Except.bind_eq_ok.1 h
    obtain rfl := Except.ok.inj h
    refine flatten_isOf hrows (fun row _ others hothers other hother ↦ ?_) hparts
    obtain ⟨p, -, rfl⟩ := List.exists_of_filterM_eq_ok hothers
    exact hright other (List.mem_of_mem_filter hother)
  · simp only [hkeys] at h
    obtain ⟨entries, hentries, h⟩ := Except.bind_eq_ok.1 h
    obtain ⟨parts, hparts, h⟩ := Except.bind_eq_ok.1 h
    obtain rfl := Except.ok.inj h
    let matching (row : EvalRow) : Except Error (List EvalRow) := resolveColumn keys.1 row >>= fun key ↦
      pure (hashMatches (entries.filter fun entry ↦ !entry.1.isNull) key)
    have hparts' : rows.mapM (fun row ↦ matching row >>= fun others ↦ pure (join.combinations
        (joinedSchema (relations ++ [table.relation name alias'])) table.columns.length row others)) =
        .ok parts := by
      simpa only [matching, bind_assoc, pure_bind] using hparts
    refine flatten_isOf hrows (fun row _ others hothers other hother ↦ ?_) hparts'
    obtain ⟨key, -, hothers⟩ := Except.bind_eq_ok.1 hothers
    obtain rfl := Except.ok.inj hothers
    obtain ⟨entry, hentry, rfl⟩ := mem_of_mem_hashMatches hother
    obtain ⟨row', hrow', hrun⟩ := List.exists_of_mem_mapM hentries (List.mem_of_mem_filter hentry)
    obtain ⟨key', -, hrun⟩ := Except.bind_eq_ok.1 hrun
    obtain rfl := Except.ok.inj hrun
    exact hright row' hrow'

/-- One join puts the columns of its table behind those of the rows. -/
theorem joinTable_isOf {join : JoinClause} {rows joined : List EvalRow}
    (hrows : ∀ row ∈ rows, row.IsOf relations) (h : joinTable db statement rows join = .ok joined) :
    ∃ table, db.table join.table = .ok table ∧
      ∀ row ∈ joined, row.IsOf (relations ++ [table.relation join.table join.alias']) := by
  obtain ⟨right, hscan, -⟩ := Except.bind_eq_ok.1 h
  obtain ⟨table, htable, hright⟩ := scanTable_isOf hscan
  exact ⟨table, htable, joinRows_isOf (fun row hrow ↦ (hright row hrow).2) hrows
    (joinTable_eq htable hscan (fun row hrow ↦ (hright row hrow).1) hrows h)⟩

/-- An occurrence of a table of the database. -/
def relationOf (db : Database) (name alias' : Bytes) : Except Error Relation := do
  pure ((← db.table name).relation name alias')

/-- The relations of FROM and of the joins, in the order of the statement. -/
def SelectStmt.joinedRelations (db : Database) (statement : SelectStmt) : Except Error (List Relation) := do
  let base ← relationOf db statement.fromTable statement.fromAlias
  let joined ← statement.joins.mapM fun join ↦ relationOf db join.table join.alias'
  pure (base :: joined)

/-- A table that is found gives its relation. -/
theorem relationOf_of_table {name alias' : Bytes} {table : TableMeta} (h : db.table name = .ok table) :
    relationOf db name alias' = .ok (table.relation name alias') := by
  rw [relationOf, h]
  rfl

/-- The columns of an occurrence of a table have different names. -/
theorem nodup_relationOf {name alias' : Bytes} {relation : Relation}
    (h : relationOf db name alias' = .ok relation) : relation.columns.Nodup := by
  obtain ⟨table, htable, h⟩ := Except.bind_eq_ok.1 h
  obtain rfl := Except.ok.inj h
  unfold Database.table at htable
  split at htable
  · rename_i found hfound
    obtain rfl := Except.ok.inj htable
    exact db.columns_nodup name found hfound
  · cases htable

/-- The rows after some of the joins. -/
theorem foldlM_isOf {joins : List JoinClause} {rows joined : List EvalRow}
    (hrows : ∀ row ∈ rows, row.IsOf relations) (h : joins.foldlM (joinTable db statement) rows = .ok joined) :
    ∃ others, joins.mapM (fun join ↦ relationOf db join.table join.alias') = .ok others ∧
      ∀ row ∈ joined, row.IsOf (relations ++ others) := by
  induction joins generalizing relations rows with
  | nil =>
    obtain rfl := Except.ok.inj h
    refine ⟨[], rfl, fun row hrow ↦ ?_⟩
    rw [List.append_nil]
    exact hrows row hrow
  | cons join joins ih =>
    rw [List.foldlM_cons] at h
    obtain ⟨next, hnext, h⟩ := Except.bind_eq_ok.1 h
    obtain ⟨table, htable, hisOf⟩ := joinTable_isOf hrows hnext
    obtain ⟨others, hothers, hall⟩ := ih hisOf h
    refine ⟨table.relation join.table join.alias' :: others, ?_, fun row hrow ↦ ?_⟩
    · rw [List.mapM_cons, relationOf_of_table htable, Except.ok_bind, hothers]
      rfl
    · rw [List.append_cons]
      exact hall row hrow

/-- The rows that `executeSourceOrderJoins` makes of a scan have the columns of all relations of the
statement, each with different names. -/
theorem executeSourceOrderJoins_isOf {base rows : List EvalRow}
    (hscan : scanTable db statement.fromTable statement.fromAlias = .ok base)
    (h : executeSourceOrderJoins db statement base = .ok rows) :
    ∃ relations, statement.joinedRelations db = .ok relations ∧
      (∀ relation ∈ relations, relation.columns.Nodup) ∧ ∀ row ∈ rows, row.IsOf relations := by
  obtain ⟨table, htable, hbase⟩ := scanTable_isOf hscan
  obtain ⟨others, hothers, hall⟩ := foldlM_isOf (fun row hrow ↦ (hbase row hrow).1) h
  have hfrom : relationOf db statement.fromTable statement.fromAlias =
      .ok (table.relation statement.fromTable statement.fromAlias) := relationOf_of_table htable
  refine ⟨_, ?_, fun relation hmem ↦ ?_, hall⟩
  · rw [SelectStmt.joinedRelations, hfrom, Except.ok_bind, hothers]
    rfl
  · rcases List.mem_cons.1 hmem with rfl | hmem
    · exact nodup_relationOf hfrom
    · obtain ⟨join, -, hjoin⟩ := List.exists_of_mem_mapM hothers hmem
      exact nodup_relationOf hjoin

/-- A table `t` with the columns `id INTEGER` and `boss INTEGER`. -/
def bossTable : TableMeta where
  name := lit "t"
  columns := [{ name := lit "id", type := lit "INTEGER" }, { name := lit "boss", type := lit "INTEGER" }]

/-- The table with the rows `(1, 2)` and `(2, 2)`. -/
def bossDatabase : Database :=
  .single bossTable [⟨⟨0, 0⟩, [.integer 1, .integer 2]⟩, ⟨⟨0, 1⟩, [.integer 2, .integer 2]⟩] (by decide) (by decide)
    (by decide)
    (List.forall_mem_cons.2 ⟨⟨_, rfl, by decide⟩, List.forall_mem_singleton.2 ⟨_, rfl, by decide⟩⟩) (by decide)

/-- The table joined with itself: `slay * no-cap t lowkey p link-up t lowkey b fr-fr p.boss = b.id`. -/
def joinBoss : SelectStmt where
  columns := [.wildcard {}]
  fromTable := lit "t"
  fromAlias := lit "p"
  joins := [{ table := lit "t", alias' := lit "b", condition := some (.binary .eq
    (.column { table := lit "p", column := lit "boss" }) (.column { table := lit "b", column := lit "id" }) []) }]

/-- Two people and their bosses. -/
theorem executeSourceOrderJoins_isOf_boss : ∃ base rows, scanTable bossDatabase (lit "t") (lit "p") = .ok base ∧
    executeSourceOrderJoins bossDatabase joinBoss base = .ok rows ∧ rows.length = 2 ∧
    ∃ relations, joinBoss.joinedRelations bossDatabase = .ok relations ∧
      (∀ relation ∈ relations, relation.columns.Nodup) ∧ ∀ row ∈ rows, row.IsOf relations :=
  ⟨_, _, rfl, rfl, rfl, executeSourceOrderJoins_isOf rfl rfl⟩

end SkibidiQL
