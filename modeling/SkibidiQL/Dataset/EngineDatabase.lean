import SkibidiQL.Catalog.CatalogReachable
import SkibidiQL.Dataset.KeyedInsert
import SkibidiQL.Dataset.SetSemantics
import SkibidiQL.Storage.HeapUpdate

/-!
# The databases of the engine

What a query supposes of its `Database` the engine sees to. CREATE takes no name of a column twice
(`Catalog.Reachable.columnsDistinct`), INSERT and UPDATE coerce every row that they store
(`validateNewRow_conforms`, `UpdatesRows.conforms`), DELETE leaves rows as they are (`DeletesRows.conforms`), a heap
file holds no row that does not fit on a page, and a scan lists each row once. So the scans of such tables are a
database (`exists_database`).
-/

namespace SkibidiQL

open Bytes

/-! ### The names of columns -/

namespace Catalog

/-- The columns of a table have different names. -/
def ColumnsDistinct (catalog : Catalog) : Prop :=
  ∀ (name : Bytes) (table : TableMeta), catalog.tables[name]? = some table → (table.columns.map (·.name)).Nodup

variable {catalog catalog' : Catalog} {columns columns' : List ColumnMeta}

/-- A column that `executeCreate` accepts has a new name. -/
theorem createColumn_nodup {definition : ColumnDef} (h : catalog.createColumn columns definition = .ok columns')
    (hnodup : (columns.map (·.name)).Nodup) : (columns'.map (·.name)).Nodup := by
  obtain ⟨_, hcheck, hnext⟩ := Except.bind_eq_ok.1 h
  obtain rfl := Except.ok.inj hnext
  rw [checkColumn] at hcheck
  split at hcheck
  · cases hcheck
  · rename_i hany
    have hnew : definition.name ∉ columns.map (·.name) := by
      intro hmem
      obtain ⟨column, hcolumn, hname⟩ := List.mem_map.1 hmem
      exact hany (List.any_eq_true.2 ⟨column, hcolumn, beq_iff_eq.2 hname⟩)
    rw [List.map_append]
    refine List.nodup_append.2 ⟨hnodup, List.nodup_singleton _, fun name hname other hother heq ↦ hnew ?_⟩
    have hother : other = definition.name := List.mem_singleton.1 hother
    rwa [← hother, ← heq]

/-- Columns that are created one after the other have different names. -/
theorem createColumns_nodup {definitions : List ColumnDef}
    (h : definitions.foldlM catalog.createColumn columns = .ok columns') (hnodup : (columns.map (·.name)).Nodup) :
    (columns'.map (·.name)).Nodup := by
  induction definitions generalizing columns with
  | nil =>
    obtain rfl := Except.ok.inj h
    exact hnodup
  | cons definition definitions ih =>
    obtain ⟨next, hfirst, hrest⟩ := Except.bind_eq_ok.1 ((List.foldlM_cons ..).symm.trans h)
    exact ih hrest (createColumn_nodup hfirst hnodup)

/-- Adding a table keeps the columns distinct. -/
theorem ColumnsDistinct.addTable (h : catalog.ColumnsDistinct) {table : TableMeta}
    (htable : (table.columns.map (·.name)).Nodup) : (catalog.addTable table).ColumnsDistinct := by
  intro name value hvalue
  rw [getElem?_addTable] at hvalue
  split at hvalue
  · exact Option.some.inj hvalue ▸ htable
  · exact h name value hvalue

/-- Removing a table keeps the columns distinct. -/
theorem ColumnsDistinct.removeTable (h : catalog.ColumnsDistinct) (name : Bytes) :
    (catalog.removeTable name).ColumnsDistinct := by
  rw [Catalog.removeTable]
  split
  · intro other table htable
    rw [Std.ExtTreeMap.getElem?_erase] at htable
    split at htable
    · cases htable
    · exact h other table htable
  · exact h

/-- `CREATE` keeps the columns distinct. -/
theorem ColumnsDistinct.executeCreate (h : catalog.ColumnsDistinct) {statement : CreateStmt}
    (hcreate : catalog.executeCreate statement = .ok catalog') : catalog'.ColumnsDistinct := by
  rw [Catalog.executeCreate] at hcreate
  split at hcreate
  · split at hcreate
    · exact Except.ok.inj hcreate ▸ h
    · cases hcreate
  · obtain ⟨columns, hcolumns, hadd⟩ := Except.bind_eq_ok.1 hcreate
    exact Except.ok.inj hadd ▸ h.addTable (createColumns_nodup hcolumns List.nodup_nil)

/-- Context statements leave the tables alone. -/
theorem tables_prompt (σ : PromptState) (statement : PromptStatement) :
    (σ.step statement).catalog.tables = σ.catalog.tables := by
  rw [PromptState.step]
  split
  · rename_i r τ hexecute
    rcases statement with name | statement | query | query | context
    · rw [PromptState.execute, PromptState.executeCreateContext] at hexecute
      split at hexecute <;> cases hexecute
      rfl
    · rw [PromptState.execute, PromptState.executeChange] at hexecute
      split at hexecute
      · cases hexecute
      · obtain ⟨⟨context, result⟩, -, hadd⟩ := Except.bind_eq_ok.1 hexecute
        cases hadd
        rfl
    · exact congrArg Catalog.tables (executeView_catalog hexecute)
    · exact congrArg Catalog.tables (executeView_catalog hexecute)
    · exact congrArg Catalog.tables (executeView_catalog hexecute)
  · rfl

/-- Every step of the catalog keeps the columns distinct. -/
theorem ColumnsDistinct.step (h : catalog.ColumnsDistinct) (hstep : Step catalog catalog') :
    catalog'.ColumnsDistinct := by
  rcases hstep with
    ⟨statement, hcreate⟩ | ⟨statement, -, hcreate⟩ | ⟨statement, hdrop⟩ | ⟨removed, hbackup⟩ | snapshot | ⟨cache, statement⟩
  · exact h.executeCreate hcreate
  · exact (h.executeCreate hcreate).removeTable _
  · rw [Catalog.executeDrop] at hdrop
    split at hdrop
    · split at hdrop
      · cases hdrop
      · exact Except.ok.inj hdrop ▸ h.removeTable _
    · split at hdrop
      · exact Except.ok.inj hdrop ▸ h
      · cases hdrop
  · rcases removed with - | -
    · exact h.addTable (h _ _ hbackup)
    · exact (h.removeTable _).addTable (h _ _ hbackup)
  · exact h
  · intro name table htable
    exact h name table ((congrArg (·[name]?) (tables_prompt _ statement)).symm.trans htable)

/-- No table of a reachable catalog has a name of a column twice. -/
theorem Reachable.columnsDistinct (h : Reachable catalog) : catalog.ColumnsDistinct := by
  induction h with
  | new => exact fun name table htable ↦ absurd htable (by simp)
  | step _ hstep ih => exact ih.step hstep
  | reload hsaved ih =>
    intro name table htable
    rw [hsaved.ok.load_save] at htable
    exact ih name table htable

end Catalog

/-! ### The rows of tables -/

/-- The row has the columns of the table, and in each a value that it admits. -/
structure TableMeta.Conforms (table : TableMeta) (values : Tuple) : Prop where
  width : values.length = table.columns.length
  admitted : ∀ item ∈ table.columns.zip values, item.1.Admits item.2

variable {table : TableMeta} {column : ColumnMeta} {value value' : Value} {tuple new : Tuple}

/-- A value that is coerced has the type of the column, or was null and stays so. -/
theorem coerceValue_type (h : coerceValue column value = .ok value') (hnull : value'.isNull = false) :
    declaredValueType column = .ok value'.type := by
  rw [coerceValue] at h
  rw [declaredValueType]
  -- The conversions in the order of the source, and the declared type in step with them.
  split at h
  · rename_i hvalue
    rw [← Except.ok.inj h, hvalue] at hnull
    cases hnull
  split at h
  · rename_i hinteger
    rw [if_pos hinteger]
    split at h
    · obtain ⟨n, -, hvalue⟩ := Except.bind_eq_ok.1 h
      rw [← Except.ok.inj hvalue]
      rfl
    · cases h
  rename_i hinteger
  rw [if_neg hinteger]
  split at h
  · rename_i hreal
    rw [if_pos hreal]
    split at h
    · rw [← Except.ok.inj h]
      rfl
    · cases h
  rename_i hreal
  rw [if_neg hreal]
  split at h
  · rename_i htext
    rw [if_pos htext, ← Except.ok.inj h]
    rfl
  rename_i htext
  rw [if_neg htext]
  split at h
  · rename_i hblob
    rw [if_pos hblob]
    split at h
    · rename_i hvalue
      rw [← Except.ok.inj h, hvalue]
      rfl
    · cases h
  · cases h

/-- A coerced value is one that its column admits. -/
theorem admits_of_coerceField (h : coerceField column value = .ok value') : column.Admits value' := by
  obtain ⟨coerced, hcoerce, hcheck⟩ := Except.bind_eq_ok.1 h
  split at hcheck
  · cases hcheck
  · rename_i hallowed
    obtain rfl := Except.ok.inj hcheck
    rw [ColumnMeta.Admits]
    split
    · rename_i hnull
      simpa [hnull] using hallowed
    · rename_i hnull
      exact coerceValue_type hcoerce (Bool.not_eq_true _ ▸ hnull)

/-- What `validateAndCoerce` lets through conforms to its table. -/
theorem coerceTuple_conforms (h : coerceTuple table tuple = .ok new) : table.Conforms new := by
  rw [coerceTuple] at h
  split at h
  · cases h
  · rename_i hwidth
    have hfields := List.mapM_eq_ok_iff.1 h
    have hlength : new.length = table.columns.length := by
      rw [← hfields.length_eq, List.length_zip, not_ne_iff.1 hwidth, Nat.min_self]
    refine ⟨hlength, fun item hitem ↦ ?_⟩
    obtain ⟨i, hi, rfl⟩ := List.getElem_of_mem hitem
    rw [List.length_zip] at hi
    have hfield := hfields.get (i := i) (by rw [List.length_zip, not_ne_iff.1 hwidth]; omega) (by omega)
    rw [List.get_eq_getElem, List.getElem_zip, List.get_eq_getElem] at hfield
    rw [List.getElem_zip]
    exact admits_of_coerceField hfield

/-- INSERT stores rows that conform to their table. -/
theorem validateNewRow_conforms {engine : NativeEngine} {st st' : EngineState}
    (h : engine.validateNewRow table tuple st = .ok new st') : table.Conforms new := by
  obtain ⟨coerced, _, hcoerce, h⟩ := EStateM.exists_of_bind_eq_ok h
  obtain ⟨-, _, -, h⟩ := EStateM.exists_of_bind_eq_ok h
  obtain ⟨-, _, -, h⟩ := EStateM.exists_of_bind_eq_ok h
  obtain ⟨rfl, -⟩ := EStateM.Result.ok.inj h
  exact coerceTuple_conforms (EStateM.answer_eq_ok hcoerce).1

/-- An updated row conforms to its table. -/
theorem updatedRow_conforms {statement : UpdateStmt} {row : StoredRow} (hrow : table.Conforms row.values)
    (h : updatedRow table statement row = .ok new) : table.Conforms new := by
  obtain ⟨selected, -, h⟩ := Except.bind_eq_ok.1 h
  split at h
  · obtain ⟨assigned, -, hcoerce⟩ := Except.bind_eq_ok.1 h
    exact coerceTuple_conforms hcoerce
  · exact Except.ok.inj h ▸ hrow

/-- UPDATE leaves rows that conform to their table. -/
theorem UpdatesRows.conforms {statement : UpdateStmt} {before after : List StoredRow} {events : List RowEvent}
    (h : UpdatesRows table statement before after events) (hbefore : ∀ row ∈ before, table.Conforms row.values) :
    ∀ row ∈ after, table.Conforms row.values := by
  intro row hrow
  obtain ⟨tuples, htuples, hperm⟩ := h.tuples
  obtain ⟨old, hold, hupdated⟩ := List.exists_of_mem_mapM htuples (hperm.subset (List.mem_map_of_mem hrow))
  exact updatedRow_conforms (hbefore old hold) hupdated

/-- DELETE leaves rows that conform to their table. -/
theorem DeletesRows.conforms {statement : DeleteStmt} {before after : List StoredRow} {events : List RowEvent}
    (h : DeletesRows table statement before after events) (hbefore : ∀ row ∈ before, table.Conforms row.values) :
    ∀ row ∈ after, table.Conforms row.values :=
  fun row hrow ↦ hbefore row (List.mem_of_mem_filter (h.rows.subset hrow))

/-! ### Databases -/

/-- The tables of a catalog as statements leave them: each has a heap file with rows that conform to it. -/
structure EngineTables (catalog : Catalog) (s : Storage) (heapOf : Bytes → HeapMap) : Prop where
  reachable : catalog.Reachable
  stored : ∀ (name : Bytes) (table : TableMeta), catalog.tables[name]? = some table →
    ∃ path, TableOK IsTableFile path (heapOf name) s
  conforms : ∀ (name : Bytes) (table : TableMeta), catalog.tables[name]? = some table →
    ∀ id values, heapOf name id = some values → table.Conforms values

/-- The scans of the tables are a database. -/
theorem exists_database {catalog : Catalog} {s : Storage} {heapOf : Bytes → HeapMap}
    (h : EngineTables catalog s heapOf) : ∃ db : Database, db.catalog = catalog ∧
      ∀ (name : Bytes) (table : TableMeta), catalog.tables[name]? = some table →
        IsScan (heapOf name) (db.stored name) := by
  have hscan (name : Bytes) : ∃ found : List StoredRow,
      if name ∈ catalog.tables then IsScan (heapOf name) found else found = [] := by
    split
    · rename_i hname
      obtain ⟨table, htable⟩ := Option.isSome_iff_exists.1 (Std.ExtTreeMap.isSome_getElem?_iff_mem.2 hname)
      obtain ⟨path, hpath⟩ := h.stored name table htable
      exact hpath.exists_isScan
    · exact ⟨[], rfl⟩
  choose found hfound using hscan
  have hlisted {name : Bytes} {table : TableMeta} (htable : catalog.tables[name]? = some table) :
      IsScan (heapOf name) (found name) := by
    have hmem : name ∈ catalog.tables := Std.ExtTreeMap.isSome_getElem?_iff_mem.1 (by rw [htable]; rfl)
    have hname := hfound name
    rwa [if_pos hmem] at hname
  have hconforms {name : Bytes} {table : TableMeta} (htable : catalog.tables[name]? = some table) {row : StoredRow}
      (hrow : row ∈ found name) : table.Conforms row.values :=
    h.conforms name table htable row.id row.values (((hlisted htable).mem row).1 hrow)
  -- The fields of the database, each from what the engine keeps of its heap files.
  refine ⟨⟨catalog, found, fun name ↦ ?_, fun name table htable row hrow ↦ (hconforms htable hrow).width,
    fun name table htable row hrow ↦ (hconforms htable hrow).admitted, fun name row hrow ↦ ?_,
    h.reachable.columnsDistinct⟩, rfl, fun name table htable ↦ hlisted htable⟩
  · rcases htable : catalog.tables[name]? with _ | table
    · have hname := hfound name
      rw [if_neg (mt Std.ExtTreeMap.isSome_getElem?_iff_mem.2 (by rw [htable]; exact Bool.false_ne_true))] at hname
      rw [hname]
      exact List.nodup_nil
    · exact (hlisted htable).lists.nodup
  · rcases htable : catalog.tables[name]? with _ | table
    · have hname := hfound name
      rw [if_neg (mt Std.ExtTreeMap.isSome_getElem?_iff_mem.2 (by rw [htable]; exact Bool.false_ne_true))] at hname
      rw [hname] at hrow
      cases hrow
    · obtain ⟨path, hpath⟩ := h.stored name table htable
      exact hpath.inUse.ok.storable hpath.inUse.holds (((hlisted htable).mem row).1 hrow)

end SkibidiQL
