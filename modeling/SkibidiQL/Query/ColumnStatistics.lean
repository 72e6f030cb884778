import SkibidiQL.Query.TableColumns
import SkibidiQL.Storage.ValueOrder

/-!
# Column statistics

`ensureColumnRange` scans a column once and keeps its least and its greatest value and, as long as they are
few, how often each value occurs. The statistics of a table are dropped when a statement has changed it, and
all of them by a rollback. Of the cached fields, those are modelled that a query reads.
-/

namespace SkibidiQL

open Bytes

/-- `TableStatistics::ColumnRange`. -/
structure ColumnRange where
  present : Bool := false
  min : Value := .null
  max : Value := .null
  valueCountsExact : Bool := true
  valueCounts : List (Value × Nat) := []

/-- `++valueCounts[value]`. -/
def countIn (value : Value) : List (Value × Nat) → List (Value × Nat)
  | [] => [(value, 1)]
  | (v, n) :: rest => if v == value then (v, n + 1) :: rest else (v, n) :: countIn value rest

namespace ColumnRange

/-- A value counted, until there are more than `limit` different ones. -/
def count (limit : Nat) (range : ColumnRange) (value : Value) : ColumnRange :=
  if range.valueCountsExact then
    let counts := countIn value range.valueCounts
    if limit < counts.length then { range with valueCounts := [], valueCountsExact := false }
    else { range with valueCounts := counts }
  else range

/-- The bounds with one value more. -/
def widen (range : ColumnRange) (value : Value) : ColumnRange :=
  if range.present then
    { range with
      min := if (value.compare range.min).isLT then value else range.min
      max := if (value.compare range.max).isGT then value else range.max }
  else { range with present := true, min := value, max := value }

/-- The step of the scan in `ensureColumnRange`. -/
def add (limit : Nat) (range : ColumnRange) (value : Value) : ColumnRange :=
  if value.isNull then range else (range.count limit value).widen value

/-- The range of the values of a column. -/
def ofValues (limit : Nat) (values : List Value) : ColumnRange :=
  values.foldl (add limit) {}

/-- The entry of `valueCounts` for a value. -/
def countOf (range : ColumnRange) (value : Value) : Nat :=
  ((range.valueCounts.find? (·.1 == value)).map (·.2)).getD 0

/-! ### What a range says -/

/-- A range of these values, none of them NULL. -/
structure Covers (range : ColumnRange) (values : List Value) : Prop where
  present_iff : range.present ↔ values ≠ []
  min_mem : range.present → range.min ∈ values
  max_mem : range.present → range.max ∈ values
  min_le : ∀ v ∈ values, range.min.compare v ≠ .gt
  le_max : ∀ v ∈ values, v.compare range.max ≠ .gt
  counts : range.valueCountsExact → ∀ literal, range.countOf literal = values.countP (· == literal)

variable {limit : Nat} {range : ColumnRange} {values : List Value} {value literal : Value}
  {type : ValueType}

/-- Counting a value counts it for the literals that equal it. -/
theorem find?_countIn (counts : List (Value × Nat)) (value literal : Value) :
    (((countIn value counts).find? (·.1 == literal)).map (·.2)).getD 0 =
      ((counts.find? (·.1 == literal)).map (·.2)).getD 0 + if value == literal then 1 else 0 := by
  induction counts with
  | nil =>
    rw [countIn, List.find?_cons, List.find?_nil]
    cases value == literal <;> rfl
  | cons first rest ih =>
    obtain ⟨v, n⟩ := first
    rw [countIn]
    by_cases hv : v == value
    · rw [if_pos hv, List.find?_cons, List.find?_cons, Value.beq_congr hv]
      cases hvalue : value == literal <;> simp
    · rw [if_neg hv, List.find?_cons, List.find?_cons]
      by_cases hliteral : v == literal
      · have hne : ¬(value == literal) := fun heq ↦
          hv (Value.beq_trans hliteral (by rwa [Value.beq_comm]))
        simp [hliteral, hne]
      · simp only [hliteral]
        exact ih

/-- The count of a literal after one value more. -/
theorem countOf_count (h : (range.count limit value).valueCountsExact) (literal : Value) :
    range.valueCountsExact ∧
      (range.count limit value).countOf literal = range.countOf literal + if value == literal then 1 else 0 := by
  rw [count] at h ⊢
  by_cases hexact : range.valueCountsExact
  · rw [if_pos hexact] at h ⊢
    dsimp only at h ⊢
    split at h
    · cases h
    · rename_i hlimit
      rw [if_neg hlimit]
      exact ⟨hexact, find?_countIn _ _ _⟩
  · rw [if_neg hexact] at h
    exact absurd h hexact

/-- Counting leaves the bounds. -/
theorem count_bounds (limit : Nat) (range : ColumnRange) (value : Value) :
    (range.count limit value).present = range.present ∧ (range.count limit value).min = range.min ∧
      (range.count limit value).max = range.max := by
  rw [count]
  dsimp only
  split
  · split <;> exact ⟨rfl, rfl, rfl⟩
  · exact ⟨rfl, rfl, rfl⟩

/-- The greatest and the least of the values so far and one more. -/
theorem Covers.widen_bounds (h : range.Covers values) (htype : ∀ v ∈ values ++ [value], v.type = type)
    (hnan : ∀ v ∈ values ++ [value], v.isNaN = false) :
    (range.widen value).min ∈ values ++ [value] ∧ (range.widen value).max ∈ values ++ [value] ∧
      (∀ v ∈ values ++ [value], (range.widen value).min.compare v ≠ .gt) ∧
      ∀ v ∈ values ++ [value], v.compare (range.widen value).max ≠ .gt := by
  have hself : value.compare value ≠ .gt := by rw [Value.compare_self]; nofun
  rw [widen]
  -- A first value is both bounds; a later one moves at most the bound that it passes.
  by_cases hpresent : range.present
  · have hmin := List.mem_append_left [value] (h.min_mem hpresent)
    have hmax := List.mem_append_left [value] (h.max_mem hpresent)
    have hvalue : value ∈ values ++ [value] := List.mem_append_right _ List.mem_cons_self
    rw [if_pos hpresent]
    refine ⟨?_, ?_, ?_, ?_⟩
    · dsimp only
      split
      · exact hvalue
      · exact hmin
    · dsimp only
      split
      · exact hvalue
      · exact hmax
    · dsimp only
      rw [List.forall_mem_append, List.forall_mem_singleton]
      split
      · rename_i hlt
        refine ⟨fun v hv ↦ ?_, hself⟩
        have hv' := List.mem_append_left [value] hv
        -- The new bound lies below the old one, and NaN apart the order is transitive.
        rw [Value.compare_trans' ((htype _ hmin).trans (htype v hv').symm) (hnan _ hvalue) (hnan _ hmin)
          (hnan v hv') (by simpa using hlt) (h.min_le v hv)]
        nofun
      · rename_i hlt
        refine ⟨h.min_le, ?_⟩
        rw [Value.compare_swap]
        cases hcompare : value.compare range.min with
        | lt => exact absurd (by rw [hcompare]; rfl) hlt
        | eq => nofun
        | gt => nofun
    · dsimp only
      rw [List.forall_mem_append, List.forall_mem_singleton]
      split
      · rename_i hgt
        refine ⟨fun v hv ↦ ?_, hself⟩
        have hv' := List.mem_append_left [value] hv
        rw [Value.compare_trans ((htype v hv').trans (htype _ hmax).symm) (hnan v hv') (hnan _ hmax)
          (hnan _ hvalue) (h.le_max v hv) (Value.compare_lt_of_gt (by simpa using hgt))]
        nofun
      · rename_i hgt
        exact ⟨h.le_max, by simpa using hgt⟩
  · have hempty : values = [] := by
      by_contra hne
      exact hpresent (h.present_iff.2 hne)
    rw [if_neg hpresent, hempty, List.nil_append]
    simpa using hself

/-- The range of one value more. -/
theorem Covers.add (h : range.Covers values) (hnull : value.isNull = false)
    (htype : ∀ v ∈ values ++ [value], v.type = type) (hnan : ∀ v ∈ values ++ [value], v.isNaN = false) :
    (range.add limit value).Covers (values ++ [value]) := by
  obtain ⟨hpresent, hmin, hmax⟩ := count_bounds limit range value
  have hcount : (range.count limit value).widen value =
      { range.count limit value with
        present := (range.widen value).present
        min := (range.widen value).min
        max := (range.widen value).max } := by
    rw [widen, widen, hpresent, hmin, hmax]
    split <;> rfl
  obtain ⟨hminMem, hmaxMem, hminLe, hleMax⟩ := h.widen_bounds htype hnan
  rw [ColumnRange.add, hnull, if_neg Bool.false_ne_true, hcount]
  constructor
  · refine iff_of_true ?_ (by simp)
    show (range.widen value).present = true
    rw [widen]
    split
    · assumption
    · rfl
  · exact fun _ ↦ hminMem
  · exact fun _ ↦ hmaxMem
  · exact hminLe
  · exact hleMax
  · intro hexact literal
    obtain ⟨hexact', hliteral⟩ := countOf_count hexact literal
    refine (hliteral.trans ?_)
    rw [h.counts hexact', List.countP_append, List.countP_singleton]

/-- The range of a column: of its values that are not NULL. -/
theorem covers_ofValues (limit : Nat) (type : ValueType) (htype : ∀ v ∈ values, v.isNull = false → v.type = type)
    (hnan : ∀ v ∈ values, v.isNaN = false) :
    (ofValues limit values).Covers (values.filter fun v ↦ !v.isNull) := by
  -- A fold over the values still to come, from a range that covers those already seen.
  have hfold : ∀ (seen values : List Value) (range : ColumnRange), range.Covers seen →
      (∀ v ∈ seen ++ values.filter fun v ↦ !v.isNull, v.type = type ∧ v.isNaN = false) →
      (values.foldl (ColumnRange.add limit) range).Covers (seen ++ values.filter fun v ↦ !v.isNull) := by
    intro seen values
    induction values generalizing seen with
    | nil =>
      intro range h _
      rwa [List.filter_nil, List.append_nil]
    | cons value values ih =>
      intro range h hall
      rw [List.foldl_cons]
      by_cases hnull : value.isNull
      · rw [ColumnRange.add, if_pos hnull]
        rw [List.filter_cons, hnull] at hall ⊢
        exact ih seen range h hall
      · rw [Bool.not_eq_true] at hnull
        rw [List.filter_cons, hnull] at hall ⊢
        simp only [Bool.not_false, if_true] at hall ⊢
        rw [List.append_cons] at hall ⊢
        have hsnoc := (List.forall_mem_append.1 hall).1
        exact ih _ _ (h.add hnull (fun v hv ↦ (hsnoc v hv).1) fun v hv ↦ (hsnoc v hv).2) hall
  have hempty : ({} : ColumnRange).Covers [] := by
    constructor
    · exact iff_of_false Bool.false_ne_true (fun h ↦ h rfl)
    · exact fun h ↦ absurd h Bool.false_ne_true
    · exact fun h ↦ absurd h Bool.false_ne_true
    · exact nofun
    · exact nofun
    · exact fun _ _ ↦ rfl
  refine hfold [] values {} hempty fun v hv ↦ ?_
  rw [List.nil_append, List.mem_filter, Bool.not_eq_true'] at hv
  exact ⟨htype v hv.1 hv.2, hnan v hv.1⟩

end ColumnRange

/-- `struct TableStatistics`. -/
structure TableStatistics where
  rowCount : Nat := 0
  columnRanges : NameMap ColumnRange := ∅

/-- `tableStatistics_`. -/
abbrev Statistics := NameMap TableStatistics

/-- The statistics of a table; an empty entry when there are none. -/
def Statistics.entry (statistics : Statistics) (name : Bytes) : TableStatistics :=
  statistics[name]?.getD {}

/-- The statistics of a table with the range of one more column. -/
def TableStatistics.store (cached : TableStatistics) (rows : Nat) (column : Bytes) (range : ColumnRange) :
    TableStatistics :=
  let cached := if cached.rowCount ≠ 0 ∧ cached.rowCount ≠ rows then {} else cached
  { rowCount := rows, columnRanges := cached.columnRanges.insert column range }

/-- The statistics of a table of which the cost-based joins have found this many rows. -/
def TableStatistics.recount (cached : TableStatistics) (rows : Nat) : TableStatistics :=
  if cached.rowCount ≠ rows then { rowCount := rows } else cached

/-- `NativeEngine::ensureColumnRange`: the range, and the statistics that it leaves. -/
def ensureColumnRange (limit : Nat) (db : Database) (statistics : Statistics) (name column : Bytes) :
    Except Error (ColumnRange × Statistics) := do
  let table ← db.table name
  let cached := statistics.entry name
  match cached.columnRanges[column]? with
  | some range => pure (range, statistics)
  | none =>
    match table.columns.findIdx? (·.name == column) with
    | none => throw (lit "Unknown statistics column: " ++ column)
    | some index => do
      let values ← (db.stored name).mapM (rawColumn index)
      -- The count of the rows is stored along with the range.
      let range := ColumnRange.ofValues limit values
      pure (range, statistics.insert name (cached.store values.length column range))

/-! ### The life of the statistics -/

/-- What the engine does to the rows and the statistics. -/
inductive StatisticsStep (limit : Nat) : Database × Statistics → Database × Statistics → Prop
  /-- A query reads the range of a column. -/
  | read {db : Database} {statistics statistics' : Statistics} {name column : Bytes} {range : ColumnRange}
      (h : ensureColumnRange limit db statistics name column = .ok (range, statistics')) :
      StatisticsStep limit (db, statistics) (db, statistics')
  /-- The cost-based joins scan a table. -/
  | scan {db : Database} {statistics : Statistics} (name : Bytes) :
      StatisticsStep limit (db, statistics)
        (db, statistics.insert name ((statistics.entry name).recount (db.stored name).length))
  /-- INSERT, UPDATE, DELETE, CREATE TABLE or DROP TABLE succeeds on a table. -/
  | write {db db' : Database} {statistics : Statistics} (name : Bytes)
      (h : ∀ other, other ≠ name →
        db'.catalog.tables[other]? = db.catalog.tables[other]? ∧ db'.stored other = db.stored other) :
      StatisticsStep limit (db, statistics) (db', statistics.erase name)
  /-- A statement writes to no table, or it fails and its table is restored. -/
  | fail {db : Database} {statistics : Statistics} : StatisticsStep limit (db, statistics) (db, statistics)
  /-- A transaction or a statement of its own is rolled back. -/
  | rollback {db db' : Database} {statistics : Statistics} : StatisticsStep limit (db, statistics) (db', ∅)

/-- The statistics that the engine has after it was opened on a database, with the database by then. -/
inductive ReachableStatistics (limit : Nat) : Database × Statistics → Prop
  | opened (db : Database) : ReachableStatistics limit (db, ∅)
  | step {state state' : Database × Statistics} (h : ReachableStatistics limit state)
      (hstep : StatisticsStep limit state state') : ReachableStatistics limit state'

/-- Every cached range is the one of its column. -/
def StatisticsCurrent (limit : Nat) (db : Database) (statistics : Statistics) : Prop :=
  ∀ (name column : Bytes) (range : ColumnRange),
    (statistics.entry name).columnRanges[column]? = some range →
    ∃ (table : TableMeta) (index : Nat), db.catalog.tables[name]? = some table ∧
      table.columns.findIdx? (·.name == column) = some index ∧
      range = ColumnRange.ofValues limit ((db.stored name).map (·.field index))

/-! ### The cached ranges are current -/

variable {limit : Nat} {db db' : Database} {statistics statistics' : Statistics} {name column : Bytes}
  {table : TableMeta} {index : Nat} {range : ColumnRange}

/-- Inserting a table's statistics changes its entry. -/
theorem entry_insert (statistics : Statistics) (name other : Bytes) (cached : TableStatistics) :
    Statistics.entry (statistics.insert name cached) other =
      if name = other then cached else statistics.entry other := by
  simp only [Statistics.entry, Std.ExtTreeMap.getElem?_insert, Std.LawfulEqCmp.compare_eq_iff_eq]
  split <;> rfl

theorem entry_erase (statistics : Statistics) (name other : Bytes) :
    Statistics.entry (statistics.erase name) other =
      if name = other then {} else statistics.entry other := by
  simp only [Statistics.entry, Std.ExtTreeMap.getElem?_erase, Std.LawfulEqCmp.compare_eq_iff_eq]
  split <;> rfl

/-- Storing a range changes the column's. -/
theorem columnRanges_store {cached : TableStatistics} {rows : Nat} {other : Bytes} {found : ColumnRange}
    (h : (cached.store rows column range).columnRanges[other]? = some found) :
    (column = other ∧ found = range) ∨ cached.columnRanges[other]? = some found := by
  simp only [TableStatistics.store, Std.ExtTreeMap.getElem?_insert,
    Std.LawfulEqCmp.compare_eq_iff_eq] at h
  split at h
  · rename_i heq
    exact .inl ⟨heq, (Option.some.inj h).symm⟩
  · split at h
    · simp at h
    · exact .inr h

/-- Recounting keeps the ranges that it leaves. -/
theorem columnRanges_recount {cached : TableStatistics} {rows : Nat} {found : ColumnRange}
    (h : (cached.recount rows).columnRanges[column]? = some found) :
    cached.columnRanges[column]? = some found := by
  rw [TableStatistics.recount] at h
  split at h
  · simp at h
  · exact h

/-- The values of a column that a query reads of the bytes of the rows. -/
theorem mapM_rawColumn (htable : db.catalog.tables[name]? = some table)
    (hindex : index < table.columns.length) :
    (db.stored name).mapM (rawColumn index) = .ok ((db.stored name).map (·.field index)) :=
  List.mapM_eq_ok fun _ hrow ↦ rawColumn_eq htable hrow hindex

/-- The range that a query gets of a column is the one of its values now. -/
theorem StatisticsCurrent.ensureColumnRange (h : StatisticsCurrent limit db statistics)
    (htable : db.catalog.tables[name]? = some table)
    (hindex : table.columns.findIdx? (·.name == column) = some index) :
    ∃ statistics', SkibidiQL.ensureColumnRange limit db statistics name column =
        .ok (ColumnRange.ofValues limit ((db.stored name).map (·.field index)), statistics') ∧
      StatisticsCurrent limit db statistics' := by
  rw [SkibidiQL.ensureColumnRange, Database.table_eq_ok htable, Except.ok_bind]
  dsimp only
  cases hcached : (statistics.entry name).columnRanges[column]? with
  | some range =>
    obtain ⟨table', index', htable', hindex', rfl⟩ := h name column range hcached
    obtain rfl : table = table' := Option.some.inj (htable.symm.trans htable')
    obtain rfl : index = index' := Option.some.inj (hindex.symm.trans hindex')
    exact ⟨statistics, rfl, h⟩
  | none =>
    have hlt : index < table.columns.length := (List.findIdx?_eq_some_iff_findIdx_eq.1 hindex).1
    simp only [hindex, mapM_rawColumn htable hlt, Except.ok_bind]
    refine ⟨_, rfl, fun other column' range' hrange' ↦ ?_⟩
    rw [entry_insert] at hrange'
    split at hrange'
    · rename_i heq
      obtain rfl := heq
      rcases columnRanges_store hrange' with ⟨rfl, rfl⟩ | hold
      · exact ⟨table, index, htable, hindex, rfl⟩
      · exact h name column' range' hold
    · exact h other column' range' hrange'

/-- One step keeps the cached ranges current. -/
theorem StatisticsCurrent.step (h : StatisticsCurrent limit db statistics)
    (hstep : StatisticsStep limit (db, statistics) (db', statistics')) :
    StatisticsCurrent limit db' statistics' := by
  cases hstep with
  | @read _ _ _ name column range hread =>
    obtain ⟨table, htable, hread'⟩ := Except.bind_eq_ok.1 hread
    have htable' : db.catalog.tables[name]? = some table := by
      rw [Database.table] at htable
      split at htable
      · rename_i heq
        rw [heq, Except.ok.inj htable]
      · cases htable
    cases hindex : table.columns.findIdx? (·.name == column) with
    | some index =>
      obtain ⟨statistics'', hensure, hcurrent⟩ := h.ensureColumnRange htable' hindex
      obtain ⟨-, rfl⟩ := Prod.mk.inj (Except.ok.inj (hensure.symm.trans hread))
      exact hcurrent
    | none =>
      cases hcached : (statistics.entry name).columnRanges[column]? with
      | some range' =>
        simp only [hcached] at hread'
        obtain ⟨-, rfl⟩ := Prod.mk.inj (Except.ok.inj hread')
        exact h
      | none =>
        simp only [hcached, hindex] at hread'
        cases hread'
  | scan name =>
    intro other column range hrange
    rw [entry_insert] at hrange
    split at hrange
    · rename_i heq
      obtain rfl := heq
      exact h name column range (columnRanges_recount hrange)
    · exact h other column range hrange
  -- A write drops what is known of its table and leaves the rows of the others.
  | write name hother =>
    intro other column range hrange
    rw [entry_erase] at hrange
    split at hrange
    · simp at hrange
    · rename_i hne
      obtain ⟨htables, hstored⟩ := hother other (Ne.symm hne)
      rw [htables, hstored]
      exact h other column range hrange
  | fail => exact h
  | rollback =>
    intro name column range hrange
    simp [Statistics.entry] at hrange

/-- In every state of the engine the cached ranges are those of the tables now. -/
theorem ReachableStatistics.current {state : Database × Statistics} (h : ReachableStatistics limit state) :
    StatisticsCurrent limit state.1 state.2 := by
  induction h with
  | opened db =>
    intro name column range hrange
    simp [Statistics.entry] at hrange
  | step _ hstep ih => exact ih.step hstep

end SkibidiQL
