import SkibidiQL.Base.ExceptRules
import SkibidiQL.Query.Database

/-!
# Columns and fields of one table

The fast paths resolve the columns of their table by its metadata and decode the fields of a row from its
bytes. The generic pipeline resolves them in the schema of the bound row and reads the decoded tuple. Both
read the same values.
-/

namespace SkibidiQL

variable {table : TableMeta} {name alias' : Bytes} {column : ColumnRef} {index : Nat}

/-- A table of the catalog is found. -/
theorem Database.table_eq_ok {db : Database} (h : db.catalog.tables[name]? = some table) :
    db.table name = .ok table := by
  simp only [Database.table, h]
  rfl

theorem scanTable_eq_ok {db : Database} (h : db.catalog.tables[name]? = some table) :
    scanTable db name alias' = .ok ((db.stored name).map (bindRow (boundColumns table name alias'))) := by
  rw [scanTable, Database.table_eq_ok h]
  rfl

/-- A stored row is read by its id. -/
theorem Database.read_eq_some {db : Database} {row : StoredRow} (hrow : row ∈ db.stored name) :
    db.read name row.id = some row := by
  rw [Database.read]
  cases hfind : (db.stored name).find? (·.id == row.id) with
  | none => exact absurd (beq_self_eq_true row.id) (List.find?_eq_none.1 hfind row hrow)
  | some found =>
    have hid : found.id = row.id := by simpa using List.find?_some hfind
    rw [List.inj_on_of_nodup_map (db.nodup name) (List.mem_of_find?_eq_some hfind) hrow hid]

theorem Database.mem_of_read_eq_some {db : Database} {id : RowId} {row : StoredRow}
    (h : db.read name id = some row) : row ∈ db.stored name ∧ row.id = id :=
  ⟨List.mem_of_find?_eq_some h, by simpa using List.find?_some h⟩

/-- The value of a stored row in a column is one that the column admits. -/
theorem Database.admits_field {db : Database} (htable : db.catalog.tables[name]? = some table)
    {row : StoredRow} (hrow : row ∈ db.stored name) {c : ColumnMeta} (hc : table.columns[index]? = some c) :
    c.Admits (row.field index) := by
  obtain ⟨hlt, hget⟩ := List.getElem?_eq_some_iff.1 hc
  have hlt' : index < row.values.length := by rwa [db.width name table htable row hrow]
  have hmem : (c, row.field index) ∈ table.columns.zip row.values := by
    rw [List.mem_iff_getElem?]
    refine ⟨index, ?_⟩
    rw [List.getElem?_zip_eq_some]
    exact ⟨hc, by rw [StoredRow.field, List.getD_eq_getElem?_getD, List.getElem?_eq_getElem hlt']; rfl⟩
  exact db.admitted name table htable row hrow _ hmem

/-! ### Resolution -/

/-- The qualifier of a reference admits the table under its alias. -/
def Qualified (column : ColumnRef) (name alias' : Bytes) : Prop :=
  column.table.isEmpty ∨ column.table = name ∨ column.table = alias'

/-- A qualified column names the column of its name. -/
theorem names_boundColumn (h : Qualified column name alias') (columnName : Bytes) :
    column.names ⟨name, alias', columnName⟩ = (columnName == column.column) := by
  have hqualifier : (column.table.isEmpty || column.table == name ||
      (!alias'.isEmpty && column.table == alias')) = true := by
    rcases h with h | h | h
    · rw [h]
      rfl
    · simp [h]
    · cases halias : alias'.isEmpty <;> simp [h, halias]
  rw [ColumnRef.names, hqualifier, Bool.and_true]

/-- The loops over the metadata and over the bound schema agree. -/
theorem resolveColumnFrom_boundColumns (h : Qualified column name alias') (columns : List ColumnMeta)
    (start : Nat) (result : Option Nat) :
    resolveColumnFrom column (columns.map fun c ↦ { table := name, alias', name := c.name }) start result =
      resolveTableColumnFrom column columns start result := by
  induction columns generalizing start result with
  | nil => rfl
  | cons c columns ih =>
    rw [List.map_cons, resolveColumnFrom, resolveTableColumnFrom, names_boundColumn h]
    by_cases hname : c.name = column.column
    · simp only [hname, beq_self_eq_true, if_true, ne_eq, not_true_eq_false, if_false, ih]
    · simp only [hname, beq_eq_false_iff_ne.2 hname, Bool.false_eq_true, if_false, ne_eq,
        not_false_eq_true, if_true, ih]

/-- What the loop over the metadata finds has the name of the reference. -/
theorem resolveTableColumnFrom_eq_some {columns : List ColumnMeta} {start : Nat} {result : Option Nat}
    (h : resolveTableColumnFrom column columns start result = .ok (some index)) :
    result = some index ∨ ∃ i c, columns[i]? = some c ∧ c.name = column.column ∧ index = start + i := by
  induction columns generalizing start result with
  | nil => exact .inl (Except.ok.inj h)
  | cons c columns ih =>
    have hrest : ∀ {result' : Option Nat},
        resolveTableColumnFrom column columns (start + 1) result' = .ok (some index) →
        result' = some index ∨
          ∃ i d, (c :: columns)[i]? = some d ∧ d.name = column.column ∧ index = start + i := by
      intro result' h'
      refine (ih h').imp_right ?_
      rintro ⟨i, d, hd, hname, rfl⟩
      exact ⟨i + 1, d, hd, hname, by omega⟩
    rw [resolveTableColumnFrom] at h
    split at h
    · exact hrest h
    · rename_i hname
      split at h
      · cases h
      · refine .inr ((hrest h).elim (fun heq ↦ ?_) id)
        exact ⟨0, c, rfl, not_not.1 hname, (Option.some.inj heq).symm⟩

/-- A column with the name of the reference is found, when no other has its name. -/
theorem resolveTableColumnFrom_of_name {columns : List ColumnMeta} {start i : Nat} {c : ColumnMeta}
    (hnodup : (columns.map (·.name)).Nodup) (hc : columns[i]? = some c) (hname : c.name = column.column) :
    resolveTableColumnFrom column columns start none = .ok (some (start + i)) := by
  have hnone : ∀ (columns : List ColumnMeta) (start : Nat) (result : Option Nat),
      (∀ d ∈ columns, d.name ≠ column.column) →
      resolveTableColumnFrom column columns start result = .ok result := by
    intro columns
    induction columns with
    | nil => exact fun _ _ _ ↦ rfl
    | cons d columns ih =>
      intro start result hne
      rw [resolveTableColumnFrom, if_pos (hne d List.mem_cons_self)]
      exact ih _ _ fun e he ↦ hne e (List.mem_cons_of_mem _ he)
  induction columns generalizing start i with
  | nil => simp at hc
  | cons d columns ih =>
    rw [List.map_cons, List.nodup_cons] at hnodup
    rw [resolveTableColumnFrom]
    cases i with
    | zero =>
      obtain rfl : d = c := by simpa using hc
      rw [if_neg (not_not.2 hname), Option.isSome_none, Bool.false_and, if_neg Bool.false_ne_true,
        hnone columns _ _ fun e he heq ↦ hnodup.1 (by rw [hname, ← heq]; exact List.mem_map_of_mem he)]
      rfl
    | succ i =>
      have hmem : c ∈ columns := List.mem_of_getElem? hc
      have hne : d.name ≠ column.column := fun heq ↦
        hnodup.1 (by rw [heq, ← hname]; exact List.mem_map_of_mem hmem)
      rw [if_pos hne, ih hnodup.2 hc, Nat.add_right_comm, Nat.add_assoc]

/-- What a fast path resolves, `resolveColumn` resolves too. -/
theorem resolveTableColumn_eq_ok (h : resolveTableColumn table name alias' column = .ok index) :
    Qualified column name alias' ∧ (∃ c, table.columns[index]? = some c ∧ c.name = column.column) ∧
      resolveIndex column (boundColumns table name alias') = .ok index := by
  rw [resolveTableColumn] at h
  split at h
  · cases h
  · rename_i hqualifier
    have hqualified : Qualified column name alias' := by
      simp only [Bool.and_eq_true, Bool.not_eq_true', bne_iff_ne, not_and, not_not] at hqualifier
      rw [Qualified]
      by_cases hempty : column.table.isEmpty
      · exact .inl hempty
      · by_cases hname : column.table = name
        · exact .inr (.inl hname)
        · exact .inr (.inr (hqualifier ⟨Bool.eq_false_iff.2 hempty, hname⟩))
    refine ⟨hqualified, ?_⟩
    obtain ⟨result, hresult, h⟩ := Except.bind_eq_ok.1 h
    cases result with
    | none => cases h
    | some found =>
      cases h
      refine ⟨?_, ?_⟩
      · rcases resolveTableColumnFrom_eq_some hresult with h | ⟨i, c, hc, hname, rfl⟩
        · cases h
        · rw [Nat.zero_add]
          exact ⟨c, hc, hname⟩
      · rw [resolveIndex, boundColumns, resolveColumnFrom_boundColumns hqualified, hresult]
        rfl

/-- The position of a column in the bound schema, by its name. -/
theorem resolveIndex_of_name (hnodup : (table.columns.map (·.name)).Nodup)
    (hqualified : Qualified column name alias') {c : ColumnMeta} (hc : table.columns[index]? = some c)
    (hname : c.name = column.column) : resolveIndex column (boundColumns table name alias') = .ok index := by
  rw [resolveIndex, boundColumns, resolveColumnFrom_boundColumns hqualified,
    resolveTableColumnFrom_of_name hnodup hc hname, Nat.zero_add]
  rfl

/-- The value of a column of a bound row. -/
theorem eval_column (h : resolveIndex column (boundColumns table name alias') = .ok index)
    (row : StoredRow) :
    eval (.column column) (bindRow (boundColumns table name alias') row) =
      .ok (row.field index) := by
  simp only [eval, resolveColumn, bindRow, h]
  rfl

/-- A wildcard that covers the table stands for all of its columns. -/
theorem projectColumn_wildcard {row : StoredRow} {rows : List EvalRow} {wildcard : Wildcard}
    (h : wildcard.covers name alias') :
    projectColumn (bindRow (boundColumns table name alias') row) rows (.wildcard wildcard) =
      .ok ((List.range table.columns.length).map row.field) := by
  have hall : ∀ item ∈ (boundColumns table name alias').zipIdx,
      wildcard.covers item.1.table item.1.alias' = true := by
    rintro ⟨column, index⟩ hitem
    obtain ⟨c, -, rfl⟩ := List.mem_map.1 (List.fst_mem_of_mem_zipIdx hitem)
    exact h
  rw [projectColumn, bindRow, Option.getD_some, List.filter_eq_self.2 hall]
  refine congrArg Except.ok ?_
  rw [show (fun item : BoundColumn × Nat ↦ row.values.getD item.2 .null) = row.field ∘ Prod.snd from rfl,
    ← List.map_map, List.zipIdx_map_snd, boundColumns, List.length_map, List.range_eq_range']

/-! ### Fields -/

/-- The required columns are those of the table that were asked for. -/
theorem mem_requiredColumns {columns : List Nat} :
    index ∈ requiredColumns table columns ↔ index < table.columns.length ∧ index ∈ columns := by
  rw [requiredColumns, List.mem_filter, List.mem_range, List.contains_iff_mem]

/-- The fields of a stored row are its values in the columns. -/
theorem rawFields_eq {db : Database} (htable : db.catalog.tables[name]? = some table) {row : StoredRow}
    (hrow : row ∈ db.stored name) (columns : List Nat) :
    rawFields (requiredColumns table columns) row =
      .ok (HeapFile.project (requiredColumns table columns) row.values) := by
  obtain ⟨encoded, hencoded, hlength⟩ := db.storable name row hrow
  rw [rawFields, hencoded]
  have hshort : encoded.length < 4294967296 := lt_of_le_of_lt (Nat.le_of_add_right_le hlength) (by decide)
  refine HeapFile.decodeTupleProjected_encode hencoded hshort ?_ ?_
  · exact HeapFile.sortedUnique_iff.2 (List.pairwise_lt_range.filter _)
  · intro c hc
    rw [db.width name table htable row hrow]
    exact (mem_requiredColumns.1 hc).1

/-- The field of a stored row in one column is its value. -/
theorem rawColumn_eq {db : Database} (htable : db.catalog.tables[name]? = some table) {row : StoredRow}
    (hrow : row ∈ db.stored name) (hindex : index < table.columns.length) :
    rawColumn index row = .ok (row.field index) := by
  obtain ⟨encoded, hencoded, hlength⟩ := db.storable name row hrow
  have hshort : encoded.length < 4294967296 := lt_of_le_of_lt (Nat.le_of_add_right_le hlength) (by decide)
  have hfits := HeapFile.valueFits_of_encodeTuple hencoded hshort
  obtain ⟨hcount, rfl⟩ := HeapFile.encodeTuple_eq_ok hencoded
  have hlt : index < row.values.length := by rwa [db.width name table htable row hrow]
  have hfields : HeapFile.decodeFields [index] row.values.length 0 (row.values.flatMap HeapFile.encodeValue) =
      .ok [row.field index] := by
    rw [HeapFile.decodeFields_of_decodeAll (HeapFile.decodeAll_encode hfits) (List.pairwise_singleton _ _)
      (List.cons_ne_nil _ _) (by simpa)]
    simp [StoredRow.field, List.getElem?_eq_getElem hlt]
  rw [rawColumn, hencoded, Except.ok_bind, HeapFile.readPod_encode (by omega), Except.ok_bind]
  simp only [hfields]
  rw [if_neg (Nat.not_le.2 hlt)]
  rfl

/-- The field of a decoded column is its value. -/
theorem fieldAt_project {message : Bytes} {required : List Nat} {values : Tuple}
    (hrequired : ∀ c ∈ required, c < values.length) (hindex : index ∈ required) :
    fieldAt message required (HeapFile.project required values) index =
      .ok (values.getD index .null) := by
  have hfield : (required.idxOf? index).bind ((HeapFile.project required values)[·]?) =
      some (values.getD index .null) := by
    induction required with
    | nil => simp at hindex
    | cons c required ih =>
      have hc := hrequired c List.mem_cons_self
      have hproject : HeapFile.project (c :: required) values =
          values.getD c .null :: HeapFile.project required values := by
        simp [HeapFile.project, List.getElem?_eq_getElem hc]
      rw [hproject, List.idxOf?_cons]
      by_cases heq : c = index
      · simp [heq]
      · have hrest := ih (fun d hd ↦ hrequired d (List.mem_cons_of_mem _ hd))
          ((List.mem_cons.1 hindex).resolve_left (Ne.symm heq))
        simpa [heq, Option.bind_map] using hrest
  rw [fieldAt, hfield]
  rfl

/-- Decoding the required columns of a stored row and taking one of them. -/
theorem fieldAt_rawFields {message : Bytes} {db : Database} (htable : db.catalog.tables[name]? = some table)
    {row : StoredRow} (hrow : row ∈ db.stored name) {columns : List Nat}
    (hindex : index ∈ columns) (hlt : index < table.columns.length) :
    fieldAt message (requiredColumns table columns)
        (HeapFile.project (requiredColumns table columns) row.values) index =
      .ok (row.field index) :=
  fieldAt_project (fun c hc ↦ by
    rw [db.width name table htable row hrow]
    exact (mem_requiredColumns.1 hc).1) (mem_requiredColumns.2 ⟨hlt, hindex⟩)

end SkibidiQL
