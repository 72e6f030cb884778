import SkibidiQL.Query.VectorEval

/-!
# Batches of a table

The vectors of a batch hold the fields of its rows in the columns that the statement reads, and the columns of
the statement resolve to them.
-/

namespace SkibidiQL

open Bytes

variable {db : Database} {table : TableMeta} {name alias' : Bytes} {required : List Nat}
  {stored : List StoredRow} {row : StoredRow} {batch : VectorBatch} {expression : Expr}

/-! ### Vectors of the columns -/

/-- No column is declared to hold NULL. -/
theorem declaredValueType_not_ok_null (metadata : ColumnMeta) : declaredValueType metadata ≠ .ok .null := by
  rw [declaredValueType]
  split
  · nofun
  · split
    · nofun
    · split
      · nofun
      · split <;> nofun

/-- A column of the table, and its type. -/
def TypedColumn (table : TableMeta) (column : Nat) (type : ValueType) : Prop :=
  ∃ metadata, table.columns[column]? = some metadata ∧ declaredValueType metadata = .ok type

/-- The types of these columns are known. -/
def Decodable (table : TableMeta) (required : List Nat) : Prop :=
  ∀ column ∈ required, ∃ type, TypedColumn table column type

/-- The vector has the fields of the rows in the column. -/
def HoldsColumn (table : TableMeta) (rows : List StoredRow) (column : Nat) (vector : TypedVector) : Prop :=
  vector.Holds (rows.map (·.field column)) ∧ TypedColumn table column vector.type

/-- The row with the fields that are decoded. -/
def decodedRow (required : List Nat) (row : StoredRow) : StoredRow :=
  { row with values := HeapFile.project required row.values }

/-- Projecting a row takes the columns in order. -/
theorem project_eq {values : Tuple} (h : ∀ column ∈ required, column < values.length) :
    HeapFile.project required values = required.map fun column ↦ values.getD column .null := by
  rw [HeapFile.project, ← List.filterMap_eq_map]
  refine List.filterMap_congr fun column hcolumn ↦ ?_
  rw [Function.comp_apply, List.getD_eq_getElem?_getD, List.getElem?_eq_getElem (h column hcolumn)]
  rfl

section Table

variable (htable : db.catalog.tables[name]? = some table)
  (hrequired : ∀ column ∈ required, column < table.columns.length)

include htable hrequired

omit hrequired in
/-- One field more in the vector of a column. -/
theorem HoldsColumn.append {seen : List StoredRow} {column : Nat} {vector : TypedVector}
    (h : HoldsColumn table seen column vector) (hrow : row ∈ db.stored name) :
    ∃ vector', vector.append (row.field column) = .ok vector' ∧
      HoldsColumn table (seen ++ [row]) column vector' := by
  obtain ⟨hholds, metadata, hmetadata, htype⟩ := h
  have hadmits := db.admits_field htable hrow hmetadata
  rw [ColumnMeta.Admits] at hadmits
  have hfield : (row.field column).isNull ∨ (row.field column).type = vector.type := by
    by_cases hnull : (row.field column).isNull
    · exact .inl hnull
    · rw [if_neg hnull, htype, Except.ok.injEq] at hadmits
      exact .inr hadmits.symm
  obtain ⟨vector', happend, hholds', htype'⟩ := hholds.append (hfield.imp_right .inr)
  refine ⟨vector', happend, ?_, metadata, hmetadata, ?_⟩
  · rw [List.map_append]
    exact hholds'
  · rcases htype' with htype' | ⟨hnull, htype'⟩
    · rw [htype', htype]
    · rw [htype', htype, hfield.resolve_left fun h ↦ Bool.false_ne_true (hnull.symm.trans h)]

omit hrequired in
/-- The fields of a row in the vectors of their columns. -/
theorem appendFields_holds {seen : List StoredRow} {columns : List Nat} {vectors : List TypedVector}
    (h : List.Forall₂ (HoldsColumn table seen) columns vectors) (hrow : row ∈ db.stored name) :
    ∃ vectors', appendFields vectors (columns.map row.field) = .ok vectors' ∧
      List.Forall₂ (HoldsColumn table (seen ++ [row])) columns vectors' := by
  induction h with
  | nil => exact ⟨[], rfl, .nil⟩
  | cons hvector _ ih =>
    obtain ⟨vector', happend, hvector'⟩ := hvector.append htable hrow
    obtain ⟨vectors', hvectors', hrest⟩ := ih
    refine ⟨vector' :: vectors', ?_, .cons hvector' hrest⟩
    rw [List.map_cons, appendFields, happend, Except.ok_bind, hvectors']
    rfl

/-- All rows of a batch. -/
theorem foldlM_appendRow (hstored : ∀ row ∈ stored, row ∈ db.stored name) {seen : List StoredRow}
    {vectors : List TypedVector} (h : List.Forall₂ (HoldsColumn table seen) required vectors) :
    ∃ vectors', (stored.map (decodedRow required)).foldlM (appendRow name required) vectors = .ok vectors' ∧
      List.Forall₂ (HoldsColumn table (seen ++ stored)) required vectors' := by
  induction stored generalizing seen vectors with
  | nil => exact ⟨vectors, rfl, by rwa [List.append_nil]⟩
  | cons row stored ih =>
    obtain ⟨hrow, hrest⟩ := List.forall_mem_cons.1 hstored
    obtain ⟨vectors₁, hvectors₁, hholds₁⟩ := appendFields_holds htable h hrow
    obtain ⟨vectors', hvectors', hholds'⟩ := ih hrest hholds₁
    have hfields : (decodedRow required row).values = required.map row.field :=
      project_eq fun column hcolumn ↦ by
        rw [db.width name table htable row hrow]
        exact hrequired column hcolumn
    refine ⟨vectors', ?_, ?_⟩
    · rw [List.map_cons, List.foldlM_cons, appendRow, hfields, List.length_map, if_neg (not_not.2 rfl),
        hvectors₁]
      exact hvectors'
    · rwa [List.append_cons]

end Table

end SkibidiQL
