import SkibidiQL.Query.DenseAgreement
import SkibidiQL.Query.DirectAgreement

/-!
# When dense grouping is exact

Dense grouping answers what the hash-group scan answers exactly when the bounds are less than `2 ^ 63` apart,
every row that is taken lies between them, and no two of these rows have different integers that are equal as
doubles.
-/

namespace SkibidiQL

open Bytes

variable {order : GroupOrder} {db : Database} {statement : SelectStmt} {plan : DirectPlan} {limit : Nat}
  {statistics statistics' : Statistics} {projections : List StreamProjection}
  {columns : List BoundColumn} {row : StoredRow} {rows : List StoredRow} {column : Nat}
  {minimum maximum : Int64}

/-- A sum or an average can take the row: its argument is a number or NULL. -/
def DirectProjection.Summable (row : StoredRow) : DirectProjection → Prop
  | .representative _ => True
  | .aggregate kind column? => kind.isNumeric → ∀ column ∈ column?,
    (row.field column).isNull ∨ (row.field column).isNumeric

/-- Every sum and average of the select list can take the row. -/
def DirectPlan.Summable (plan : DirectPlan) (row : StoredRow) : Prop :=
  ∀ projection ∈ plan.projections, projection.Summable row

/-- The bounds are not too far apart, the rows that are taken lie between them, and, unless the aggregates fail,
their group values differ as doubles when they differ. -/
structure DirectPlan.DenseExact (plan : DirectPlan) (rows : List StoredRow) (column : Nat)
    (minimum maximum : Int64) : Prop where
  span : maximum.toInt - minimum.toInt < 2 ^ 63
  within : ∀ row ∈ rows, plan.selects row →
    minimum ≤ groupValue column row ∧ groupValue column row ≤ maximum
  distinct : (∀ row ∈ rows, plan.selects row → plan.Summable row) →
    ∀ row ∈ rows, plan.selects row → ∀ row' ∈ rows, plan.selects row' →
      row.field column == row'.field column → groupValue column row = groupValue column row'

/-- Dense grouping is safe and exact: neither difference overflows, indices are in the array, no row is dropped,
and the answer is that of the hash-group scan. -/
structure DenseAgrees (order : GroupOrder) (db : Database) (name : Bytes) (plan : DirectPlan) (column : Nat)
    (minimum maximum : Int64) : Prop where
  span : (maximum - minimum).toInt = maximum.toInt - minimum.toInt
  offset : ∀ row ∈ db.stored name, plan.selects row →
    (groupValue column row - minimum).toInt = (groupValue column row).toInt - minimum.toInt
  index : ∀ row ∈ db.stored name, plan.selects row →
    DirectPlan.denseIndex minimum (groupValue column row) < (plan.denseGroups minimum maximum).length
  taken : ∀ row ∈ db.stored name, plan.selects row → ∀ groups,
    plan.denseRow column minimum maximum groups row = plan.denseTake column minimum groups row
  rows : ∀ hashed, plan.hashRows order db name = .ok hashed →
    ∃ rows, plan.denseRows db name column minimum maximum = .ok rows ∧ rows.Perm hashed
  fails : (plan.hashRows order db name).Fails → (plan.denseRows db name column minimum maximum).Fails

/-! ### Groups that fail -/

/-- A streamed result fails when a numeric aggregate meets another value. -/
theorem streamedResult_fails_iff {kind : AggregateKind} {values : List Value}
    (h : ∀ value ∈ values, value.isNull = false) :
    (streamedResult kind values).Fails ↔ kind.isNumeric ∧ ∃ value ∈ values, value.isNumeric = false := by
  rw [← Except.toOption_eq_none]
  by_cases hkind : kind.isNumeric
  · rw [streamedResult_numeric hkind h, and_iff_right hkind]
    split
    · rename_i hall
      refine iff_of_false nofun ?_
      rintro ⟨value, hvalue, hnot⟩
      rw [List.all_eq_true] at hall
      rw [hall value hvalue] at hnot
      cases hnot
    · rename_i hall
      refine iff_of_true rfl ?_
      simpa using hall
  · refine iff_of_false (fun hnone ↦ ?_) fun hboth ↦ hkind hboth.1
    cases kind with
    | count =>
      rw [streamedResult, foldlM_add_count h] at hnone
      cases hnone
    | max | min =>
      rw [streamedResult, foldlM_add_extremum (by simp) h] at hnone
      cases hnone
    | sum | average | loneWolf => exact hkind rfl

/-- A plain column takes every row. -/
theorem exists_foldColumn_representative {expression : Expr} (h : Reads columns expression column)
    (rows : List StoredRow) (state : StreamColumnState) :
    ∃ state', foldColumn (.representative expression) state (rows.map (bindRow columns)) = .ok state' := by
  induction rows generalizing state with
  | nil => exact ⟨state, rfl⟩
  | cons row rows ih =>
    rw [List.map_cons, foldColumn, List.foldlM_cons, StreamProjection.step, h row]
    split <;> exact ih _

/-- A streamed column fails when its values do. -/
theorem streamColumn_fails_iff {projection : DirectProjection} {stream : StreamProjection}
    (h : Streams columns projection stream) (rows : List StoredRow) :
    (streamColumn stream (rows.map (bindRow columns))).Fails ↔ ∃ row ∈ rows, ¬projection.Summable row := by
  cases h with
  | @representative c expression hreads =>
    refine iff_of_false (fun hfails ↦ ?_) (by rintro ⟨_, _, hnot⟩; exact hnot trivial)
    rw [streamColumn, Except.fails_bind] at hfails
    obtain ⟨state, hstate⟩ := exists_foldColumn_representative hreads rows {}
    rcases hfails with hfails | ⟨_, _, hfails⟩
    · rw [hstate] at hfails
      exact Except.not_fails_ok _ hfails
    · exact Except.not_fails_ok _ hfails
  | countRows =>
    refine iff_of_false (fun hfails ↦ ?_) (by rintro ⟨_, _, hnot⟩; exact hnot (by rintro ⟨⟩))
    rw [streamColumn, foldColumn_countRows] at hfails
    exact Except.not_fails_ok _ hfails
  | @aggregate kind c expression hreads =>
    have hne : ∀ value ∈ columnValues rows c, value.isNull = false := fun value hvalue ↦ by
      simpa using (List.mem_filter.1 hvalue).2
    rw [← Except.toOption_eq_none, streamColumn_eq kind hreads, Except.toOption_eq_none,
      streamedResult_fails_iff hne]
    simp only [columnValues, List.mem_filter, List.mem_map, DirectProjection.Summable]
    constructor
    · rintro ⟨hkind, _, ⟨⟨row, hrow, rfl⟩, hnull⟩, hnumeric⟩
      refine ⟨row, hrow, fun hsummable ↦ ?_⟩
      have := hsummable hkind c rfl
      simp [hnumeric] at this hnull
      exact absurd this (by simp [hnull])
    · rintro ⟨row, hrow, hnot⟩
      simp only [Option.mem_def, Option.some.injEq, forall_eq', Classical.not_imp, not_or,
        Bool.not_eq_true] at hnot
      exact ⟨hnot.1, _, ⟨⟨row, hrow, rfl⟩, by simp [hnot.2.1]⟩, hnot.2.2⟩

/-- A plan fails when one of its columns does. -/
theorem exists_streamColumn_fails_iff {planned : List DirectProjection}
    (h : List.Forall₂ (Streams columns) planned projections) (rows : List StoredRow) :
    (∃ stream ∈ projections, (streamColumn stream (rows.map (bindRow columns))).Fails) ↔
      ∃ projection ∈ planned, ∃ row ∈ rows, ¬projection.Summable row := by
  induction h with
  | nil => simp
  | cons hstream _ ih => simp only [List.exists_mem_cons_iff, ih, streamColumn_fails_iff hstream]

/-- A group fails on a row that one of the aggregates cannot take. -/
theorem groupTuple_fails_iff (h : Planned db statement plan projections) (rows : List StoredRow) :
    (groupTuple projections (rows.map (bindRow (plan.bound statement)))).Fails ↔
      ∃ row ∈ rows, ¬plan.Summable row := by
  rw [groupTuple, List.mapM_fails_iff, DirectPlan.bound, exists_streamColumn_fails_iff h.streams]
  simp only [DirectPlan.Summable, not_forall]
  constructor
  · rintro ⟨projection, hprojection, row, hrow, hnot⟩
    exact ⟨row, hrow, projection, hprojection, hnot⟩
  · rintro ⟨row, hrow, projection, hprojection, hnot⟩
    exact ⟨projection, hprojection, row, hrow, hnot⟩

/-! ### Partitions into groups -/

/-- Over any partition, the groups fail on a row that one of the aggregates cannot take. -/
theorem mapM_groupTuple_fails_iff {γ κ : Type} [DecidableEq γ] {key : StoredRow → κ} {code : StoredRow → γ}
    {groups : List (κ × List StoredRow)} (h : Planned db statement plan projections)
    (hpartition : KeyedGroups.Partition key code rows groups) :
    (groups.mapM fun group ↦ groupTuple projections (group.2.map (bindRow (plan.bound statement)))).Fails ↔
      ∃ row ∈ rows, ¬plan.Summable row := by
  rw [List.mapM_fails_iff]
  simp only [groupTuple_fails_iff h]
  constructor
  · rintro ⟨group, hgroup, row, hrow, hnot⟩
    obtain ⟨_, -, -, hrows⟩ := hpartition.group group hgroup
    rw [hrows] at hrow
    exact ⟨row, (List.mem_filter.1 hrow).1, hnot⟩
  · rintro ⟨row, hrow, hnot⟩
    obtain ⟨group, hgroup, hmem⟩ := hpartition.covers row hrow
    exact ⟨group, hgroup, row, hmem, hnot⟩

namespace Planned

variable (h : Planned db statement plan projections) (hdense : DensePlanned plan column minimum maximum)

include h hdense

/-- Group values are equal when their doubles are. -/
theorem beq_iff_rank {row' : StoredRow} (hrow : row ∈ db.stored statement.fromTable)
    (hrow' : row' ∈ db.stored statement.fromTable) :
    row.field column == row'.field column ↔
      (row.field column).toFloat.rank = (row'.field column).toFloat.rank := by
  rw [hdense.field_eq h.table_eq hrow, hdense.field_eq h.table_eq hrow', Value.beq_numeric rfl rfl]
  exact Float.beq_iff_rank (Value.toFloat_isNaN rfl (Value.isNaN_integer _))
    (Value.toFloat_isNaN rfl (Value.isNaN_integer _))

/-- The hash-group scan partitions the rows by the doubles of their group values. -/
theorem exists_hashPartition (order : GroupOrder) :
    ∃ groups, KeyedGroups.Partition (fun row : StoredRow ↦ [row.field column])
        (fun row ↦ (row.field column).toFloat.rank) ((db.stored statement.fromTable).filter plan.selects)
        groups ∧
      (plan.hashRows order db statement.fromTable).toOption = (groups.mapM fun group ↦
        groupTuple projections (group.2.map (bindRow (plan.bound statement)))).toOption := by
  -- The hash table compares keys as values, which for numbers is comparing their doubles.
  have hcode : ∀ r ∈ (db.stored statement.fromTable).filter plan.selects,
      ∀ r' ∈ (db.stored statement.fromTable).filter plan.selects,
        ([r.field column] == [r'.field column]) =
          decide ((r.field column).toFloat.rank = (r'.field column).toFloat.rank) := by
    intro r hr r' hr'
    rw [Bool.eq_iff_iff, decide_eq_true_iff,
      ← h.beq_iff_rank hdense (List.mem_filter.1 hr).1 (List.mem_filter.1 hr').1]
    simp
  have hkey : ∀ r ∈ (db.stored statement.fromTable).filter plan.selects,
      groupKey statement.groupBy (bindRow (plan.bound statement) r) = .ok [r.field column] := by
    intro r _
    rw [DirectPlan.bound, groupKey_eq h.groups, hdense.groupColumns_eq]
    rfl
  obtain ⟨groups, hcollect, hpartition⟩ := KeyedGroups.collect_partition hkey hcode
  refine ⟨order.entries groups, hpartition.entries order, ?_⟩
  have hgroupBy : statement.groupBy.isEmpty = false := by
    rw [← h.isEmpty_groupColumns, hdense.groupColumns_eq]
    rfl
  have hgroups : KeyedGroups.collect (groupKey statement.groupBy) []
      (((db.stored statement.fromTable).filter plan.selects).map (bindRow (plan.bound statement))) =
        .ok (groups.map fun group ↦ (group.1, group.2.map (bindRow (plan.bound statement)))) :=
    (KeyedGroups.collect_map _ _ []).trans (by rw [hcollect]; rfl)
  rw [h.hashRows_eq, DirectPlan.streamedFrom, streamed_toOption, streamedRows, groupRows_eq_collect,
    initialGroups, hgroupBy, if_neg Bool.false_ne_true, hgroups, Except.ok_bind,
    order.entries_map (List.map (bindRow (plan.bound statement))), List.mapM_map]
  rfl

/-- The dense path partitions them by their index. -/
theorem exists_densePartition (hspan : maximum.toInt - minimum.toInt < 2 ^ 63)
    (hwithin : ∀ row ∈ db.stored statement.fromTable, plan.selects row →
      minimum ≤ groupValue column row ∧ groupValue column row ≤ maximum) :
    ∃ groups, KeyedGroups.Partition (fun row ↦ DirectPlan.denseIndex minimum (groupValue column row))
        (fun row ↦ DirectPlan.denseIndex minimum (groupValue column row))
        ((db.stored statement.fromTable).filter plan.selects) groups ∧
      (plan.denseRows db statement.fromTable column minimum maximum).toOption = (groups.mapM fun group ↦
        groupTuple projections (group.2.map (bindRow (plan.bound statement)))).toOption := by
  refine ⟨_, KeyedGroups.partition_range fun row hrow ↦ ?_, h.denseRows_toOption hdense hspan hwithin⟩
  obtain ⟨hrow, hselects⟩ := List.mem_filter.1 hrow
  obtain ⟨hmin, hmax⟩ := hwithin row hrow hselects
  exact denseIndex_lt hmin hmax hspan

/-- The step of the dense path takes a row only when it lies between the bounds. -/
theorem within_of_taken (hrow : row ∈ db.stored statement.fromTable) (hselects : plan.selects row)
    (htaken : ∀ groups, plan.denseRow column minimum maximum groups row =
      plan.denseTake column minimum groups row) :
    minimum ≤ groupValue column row ∧ groupValue column row ≤ maximum := by
  by_contra hout
  rw [not_and_or, Int64.not_le, Int64.not_le] at hout
  have hcolumn : column ∈ plan.groupColumns := by
    rw [hdense.groupColumns_eq]
    exact List.mem_singleton_self _
  have hkey := h.fieldAt_eq hrow (DirectPlan.mem_required (h.groupColumns_lt column hcolumn)
    (.inr (.inl hcolumn)))
  have hskip := htaken []
  rw [DirectPlan.denseRow, h.rawFields_eq hrow, Except.ok_bind, h.predicateMatches_eq hrow, Except.ok_bind,
    if_pos hselects, hkey, Except.ok_bind, ← groupValue, if_pos] at hskip
  · cases hskip
  · rw [Bool.or_eq_true, decide_eq_true_iff]
    exact .inr hout

end Planned

/-! ### The answers -/

/-- A value is the least one and its offset. -/
theorem add_denseIndex (minimum value : Int64) :
    minimum + (UInt64.ofNat (DirectPlan.denseIndex minimum value)).toInt64 = value := by
  rw [DirectPlan.denseIndex, UInt64.ofNat_toNat, Int64.toInt64_toUInt64]
  rw [Int64.sub_eq_add_neg, Int64.add_comm, Int64.add_assoc, Int64.add_left_neg, Int64.add_zero]

/-- Groups at one index have one key. -/
theorem groupValue_eq_of_denseIndex {row' : StoredRow}
    (h : DirectPlan.denseIndex minimum (groupValue column row) =
      DirectPlan.denseIndex minimum (groupValue column row')) : groupValue column row = groupValue column row' := by
  rw [← add_denseIndex minimum (groupValue column row), h, add_denseIndex]

namespace Planned

variable (h : Planned db statement plan projections) (hdense : DensePlanned plan column minimum maximum)

include h hdense

/-- An array that has the groups of the hash-group scan separates no integers that are equal as doubles. -/
theorem denseExact_of_agrees (hagrees : DenseAgrees order db statement.fromTable plan column minimum maximum) :
    plan.DenseExact (db.stored statement.fromTable) column minimum maximum := by
  have hspan : maximum.toInt - minimum.toInt < 2 ^ 63 := by
    rw [← hagrees.span]
    exact Int64.toInt_lt _
  have hwithin : ∀ row ∈ db.stored statement.fromTable, plan.selects row →
      minimum ≤ groupValue column row ∧ groupValue column row ≤ maximum :=
    fun row hrow hselects ↦ h.within_of_taken hdense hrow hselects (hagrees.taken row hrow hselects)
  refine ⟨hspan, hwithin, fun hsummable r hr hselects r' hr' hselects' heq ↦ ?_⟩
  obtain ⟨hashed, hhashed, hhash⟩ := h.exists_hashPartition hdense order
  obtain ⟨groups, hgroups, hrows⟩ := h.exists_densePartition hdense hspan hwithin
  have hok : ¬(hashed.mapM fun group ↦
      groupTuple projections (group.2.map (bindRow (plan.bound statement)))).Fails := by
    rw [mapM_groupTuple_fails_iff h hhashed]
    rintro ⟨row, hrow, hnot⟩
    obtain ⟨hrow, hselects⟩ := List.mem_filter.1 hrow
    exact hnot (hsummable row hrow hselects)
  obtain ⟨tuples, htuples⟩ := Except.not_fails_iff.1 hok
  rw [htuples, Except.toOption_ok, Except.toOption_eq_some] at hhash
  obtain ⟨tuples', htuples', hperm⟩ := hagrees.rows tuples hhash
  rw [htuples', Except.toOption_ok, eq_comm, Except.toOption_eq_some] at hrows
  -- there are as many indices as doubles
  have hlength : groups.length = hashed.length := by
    rw [(List.mapM_eq_ok_iff.1 hrows).length_eq, hperm.length_eq, (List.mapM_eq_ok_iff.1 htuples).length_eq]
  refine groupValue_eq_of_denseIndex (hgroups.eq_of_length_le hhashed
    (f := fun i ↦ (Value.integer (minimum + (UInt64.ofNat i).toInt64)).toFloat.rank) (fun row hrow ↦ ?_)
    hlength.le (List.mem_filter.2 ⟨hr, hselects⟩) (List.mem_filter.2 ⟨hr', hselects'⟩)
    ((h.beq_iff_rank hdense hr hr').1 heq))
  rw [add_denseIndex, hdense.field_eq h.table_eq (List.mem_filter.1 hrow).1]

/-- The rows of both, when different integers are different doubles. -/
theorem exists_denseRows_perm (hexact : plan.DenseExact (db.stored statement.fromTable) column minimum maximum)
    {tuples : List Tuple} (htuples : plan.hashRows order db statement.fromTable = .ok tuples) :
    ∃ tuples', plan.denseRows db statement.fromTable column minimum maximum = .ok tuples' ∧
      tuples'.Perm tuples := by
  obtain ⟨hashed, hhashed, hhash⟩ := h.exists_hashPartition hdense order
  obtain ⟨groups, hgroups, hrows⟩ := h.exists_densePartition hdense hexact.span hexact.within
  rw [htuples, Except.toOption_ok, eq_comm, Except.toOption_eq_some] at hhash
  have hsummable : ∀ row ∈ db.stored statement.fromTable, plan.selects row → plan.Summable row := by
    intro row hrow hselects
    by_contra hnot
    have hfails := (mapM_groupTuple_fails_iff h hhashed).2 ⟨row, List.mem_filter.2 ⟨hrow, hselects⟩, hnot⟩
    rw [hhash] at hfails
    exact Except.not_fails_ok _ hfails
  -- Both partition the rows, and different integers are different doubles, so the groups are the same.
  have hperm := hhashed.perm hgroups fun r hr r' hr' ↦ by
    obtain ⟨hr, hselects⟩ := List.mem_filter.1 hr
    obtain ⟨hr', hselects'⟩ := List.mem_filter.1 hr'
    rw [← h.beq_iff_rank hdense hr hr']
    constructor
    · intro heq
      rw [hexact.distinct hsummable r hr hselects r' hr' hselects' heq]
    · intro heq
      rw [h.beq_iff_rank hdense hr hr', hdense.field_eq h.table_eq hr, hdense.field_eq h.table_eq hr',
        groupValue_eq_of_denseIndex heq]
  have hmap : (hashed.map (·.2)).mapM (fun rows ↦ groupTuple projections
      (rows.map (bindRow (plan.bound statement)))) = .ok tuples := by
    rwa [List.mapM_map]
  obtain ⟨tuples', htuples', hperm'⟩ := hperm.mapM_eq_ok hmap
  rw [List.mapM_map] at htuples'
  refine ⟨tuples', ?_, hperm'.symm⟩
  rw [← Except.toOption_eq_some, hrows, Except.toOption_eq_some]
  exact htuples'

/-- The dense route agrees where it is exact. -/
theorem denseAgrees_of_exact (order : GroupOrder)
    (hexact : plan.DenseExact (db.stored statement.fromTable) column minimum maximum) :
    DenseAgrees order db statement.fromTable plan column minimum maximum where
  span := toInt_sub_eq hdense.le hexact.span
  offset row hrow hselects := by
    have hspan := hexact.span
    obtain ⟨hmin, hmax⟩ := hexact.within row hrow hselects
    rw [Int64.le_iff_toInt_le] at hmax
    exact toInt_sub_eq hmin (by omega)
  index row hrow hselects := by
    obtain ⟨hmin, hmax⟩ := hexact.within row hrow hselects
    rw [DirectPlan.denseGroups, List.length_replicate]
    exact denseIndex_lt hmin hmax hexact.span
  taken row hrow hselects groups := by
    rw [h.denseRow_eq hdense hrow (hexact.within row hrow), if_pos hselects]
  rows _ htuples := h.exists_denseRows_perm hdense hexact htuples
  fails hfails := by
    obtain ⟨hashed, hhashed, hhash⟩ := h.exists_hashPartition hdense order
    obtain ⟨groups, hgroups, hrows⟩ := h.exists_densePartition hdense hexact.span hexact.within
    rw [← Except.toOption_eq_none, hhash, Except.toOption_eq_none, mapM_groupTuple_fails_iff h hhashed] at hfails
    rwa [← Except.toOption_eq_none, hrows, Except.toOption_eq_none, mapM_groupTuple_fails_iff h hgroups]

end Planned

/-- Dense grouping is safe and agrees with the hash-group scan exactly when the bounds are not too far apart,
the rows lie between them and different integers are different doubles. -/
theorem denseAgrees_iff (hplan : directPlan db statement = .ok (some plan))
    (hroute : plan.route limit db statistics statement.fromTable =
      .ok (.dense column minimum maximum, statistics')) :
    DenseAgrees order db statement.fromTable plan column minimum maximum ↔
      plan.DenseExact (db.stored statement.fromTable) column minimum maximum := by
  obtain ⟨projections, h⟩ := exists_planned hplan
  have hdense := densePlanned_of_route hroute
  exact ⟨h.denseExact_of_agrees hdense, h.denseAgrees_of_exact hdense order⟩

/-! ### Neighbouring integers -/

/-- A table `t` with the column `g INTEGER NOT NULL`. -/
def groupTable : TableMeta where
  name := lit "t"
  columns := [{ name := lit "g", type := lit "INTEGER", notNull := true }]

theorem storable_integer (n : Int64) : HeapFile.Storable [.integer n] :=
  ⟨_, rfl, Nat.le_of_ble_eq_true rfl⟩

/-- The table with these two rows. -/
def pairDatabase (first second : Int64) : Database :=
  .single groupTable [⟨⟨0, 0⟩, [.integer first]⟩, ⟨⟨0, 1⟩, [.integer second]⟩] (by simp)
    (by simp [groupTable])
    (by
      simp only [List.forall_mem_cons, List.not_mem_nil, false_imp_iff, implies_true, and_true, groupTable,
        List.zip_cons_cons, List.zip_nil_right]
      exact ⟨rfl, rfl⟩)
    (by simp [storable_integer]) (by decide)

/-- `slay g, headcount(*) no-cap t vibe-check g`. -/
def countByGroup : SelectStmt where
  columns := [.column { column := lit "g" }, .function (lit "headcount") [] false []]
  fromTable := lit "t"
  groupBy := [.column { column := lit "g" }]

/-- The plan for `countByGroup`. -/
def countPlan : DirectPlan where
  table := groupTable
  predicate := none
  groupColumns := [0]
  projections := [.representative 0, .aggregate .count none]

/-- Dense grouping drops the row of an integer below the least one that is equal to it as a double. -/
theorem countByGroup_neighbours_differ :
    ReachableStatistics 4096 (pairDatabase 9007199254740993 9007199254740992, ∅) ∧
    directPlan (pairDatabase 9007199254740993 9007199254740992) countByGroup = .ok (some countPlan) ∧
    (∃ statistics, countPlan.route 4096 (pairDatabase 9007199254740993 9007199254740992) ∅ (lit "t") =
      .ok (.dense 0 9007199254740993 9007199254740993, statistics)) ∧
    countPlan.denseRows (pairDatabase 9007199254740993 9007199254740992) (lit "t") 0 9007199254740993
      9007199254740993 = .ok [[.integer 9007199254740993, .integer 1]] ∧
    countPlan.hashRows KeyedGroups.newestFirst (pairDatabase 9007199254740993 9007199254740992) (lit "t") =
      .ok [[.integer 9007199254740993, .integer 2]] :=
  ⟨.opened _, rfl, ⟨_, rfl⟩, rfl, rfl⟩

/-- Dense grouping agrees with the hash-group scan on small integers. -/
theorem countByGroup_small_agrees :
    DenseAgrees KeyedGroups.newestFirst (pairDatabase 7 5) (lit "t") countPlan 0 5 7 := by
  have hplan : directPlan (pairDatabase 7 5) countByGroup = .ok (some countPlan) := rfl
  have hroute : ∃ statistics, countPlan.route 4096 (pairDatabase 7 5) ∅ (lit "t") =
    .ok (.dense 0 5 7, statistics) := ⟨_, rfl⟩
  obtain ⟨statistics, hroute⟩ := hroute
  refine (denseAgrees_iff hplan hroute).2 ⟨by decide, ?_, fun _ ↦ ?_⟩
  · show ∀ row ∈ [_, _], _
    decide
  · show ∀ row ∈ [_, _], _ → ∀ row' ∈ [_, _], _
    decide

end SkibidiQL
