import SkibidiQL.Query.DirectAgreement

/-!
# When direct aggregation is exact

The answers agree unless the predicate is an equation or an inequation with a NaN. Then the scan takes all rows
with a number in the column, where WHERE holds on none, or the other way round; this shows in the answer when
an aggregate sees one of these rows.
-/

namespace SkibidiQL

open Bytes

variable {order : GroupOrder} {db : Database} {statement : SelectStmt} {plan : DirectPlan} {limit : Nat}
  {statistics statistics' : Statistics} {projections : List StreamProjection} {columns : List BoundColumn}
  {rows : List StoredRow} {row : StoredRow} {route : DirectRoute}

/-- The rows on which the test by comparison is not WHERE. -/
def DirectPlan.misjudged (plan : DirectPlan) (rows : List StoredRow) : List StoredRow :=
  rows.filter fun row ↦ plan.predicate.any fun predicate ↦
    predicate.comparesNaN && (row.field predicate.column).isNumeric

/-- An aggregate over these rows is what it is over none: it finds no value in them, or no lone wolf. -/
def DirectProjection.Unseen (rows : List StoredRow) : DirectProjection → Prop
  | .representative _ => False
  | .aggregate _ none => False
  | .aggregate kind (some column) => columnValues rows column = [] ∨
    kind = .loneWolf ∧ countLoneWolves ((columnValues rows column).map Value.toFloat) = 0

/-- No row is misjudged, or the value counts have the answer, or no aggregate of an equation sees the misjudged
rows. -/
def DirectPlan.Exact (limit : Nat) (plan : DirectPlan) (rows : List StoredRow) : Prop :=
  plan.misjudged rows = [] ∨ plan.Counted limit rows ∨
    (∃ predicate, plan.predicate = some predicate ∧ predicate.op = .eq) ∧ plan.groupColumns = [] ∧
      ∀ projection ∈ plan.projections, projection.Unseen (plan.misjudged rows)

/-- The answer of the generic pipeline: the same columns, and the same rows in some order. What was pruned or
counted is so in a scan. -/
structure DirectAgrees (order : GroupOrder) (db : Database) (statement : SelectStmt) (route : DirectRoute)
    (result : NativeQueryResult) : Prop where
  result : ∃ generic, scanSelect order db statement = .ok generic ∧ generic.columns = result.columns ∧
    generic.rows.Perm result.rows
  pruned : route = .pruned → ∃ rows, scanTable db statement.fromTable statement.fromAlias = .ok rows ∧
    filterRows statement.where' rows = .ok []
  counted : ∀ count, route = .counted count → ∃ rows kept,
    scanTable db statement.fromTable statement.fromAlias = .ok rows ∧
      filterRows statement.where' rows = .ok kept ∧ kept.length = count

/-! ### Misjudged rows -/

namespace Planned

variable (h : Planned db statement plan projections) (hnan : NaNFree db statement.fromTable)

include h hnan

/-- When no row is misjudged, the test by comparison takes the rows on which WHERE holds. -/
theorem filter_selects_eq (hnone : plan.misjudged (db.stored statement.fromTable) = []) :
    (db.stored statement.fromTable).filter plan.selects =
      (db.stored statement.fromTable).filter plan.satisfies := by
  refine List.filter_congr fun row hrow ↦ ?_
  rcases planPredicate_eq_some h.predicate_eq with ⟨-, hpredicate⟩ | ⟨_, predicate, -, hpredicate, hop, -, -⟩
  · rw [DirectPlan.selects, DirectPlan.satisfies, hpredicate]
    rfl
  · have hjudged := List.filter_eq_nil_iff.1 hnone row hrow
    rw [hpredicate, Option.any_some, Bool.and_eq_true] at hjudged
    rw [DirectPlan.selects, DirectPlan.satisfies, hpredicate]
    exact accepts_eq_holds hop (hnan.field hrow _) hjudged

/-- Misjudged rows are all that an equation takes and none on which it holds, or the other way round for an
inequation, which the range of its column then excludes. -/
theorem misjudged_cases (limit : Nat) (hne : plan.misjudged (db.stored statement.fromTable) ≠ []) :
    ∃ predicate, plan.predicate = some predicate ∧
      (predicate.op = .eq ∧
          (db.stored statement.fromTable).filter plan.selects =
            plan.misjudged (db.stored statement.fromTable) ∧
          (db.stored statement.fromTable).filter plan.satisfies = [] ∨
        predicate.op = .ne ∧
          (db.stored statement.fromTable).filter plan.satisfies =
            plan.misjudged (db.stored statement.fromTable) ∧
          minMaxProvesEmpty predicate
            (DirectPlan.range limit (db.stored statement.fromTable) predicate.column)) := by
  obtain ⟨row, hrow⟩ := List.exists_mem_of_ne_nil _ hne
  obtain ⟨hrow, hjudged⟩ := List.mem_filter.1 hrow
  cases hpredicate : plan.predicate with
  | none =>
    rw [hpredicate] at hjudged
    cases hjudged
  | some predicate =>
    rw [hpredicate, Option.any_some, Bool.and_eq_true] at hjudged
    obtain ⟨hcompares, hnumeric⟩ := hjudged
    have hmisjudged (row : StoredRow) : (plan.predicate.any fun predicate ↦
        predicate.comparesNaN && (row.field predicate.column).isNumeric) =
          (row.field predicate.column).isNumeric := by
      rw [hpredicate, Option.any_some, hcompares, Bool.true_and]
    have hNaN := hcompares
    rw [PredicatePlan.comparesNaN, Bool.and_eq_true, Bool.or_eq_true, beq_iff_eq, beq_iff_eq] at hNaN
    obtain ⟨hliteral, hop⟩ := hNaN
    refine ⟨predicate, rfl, ?_⟩
    rcases hop with hop | hop
    · left
      refine ⟨hop, List.filter_congr fun row _ ↦ ?_, List.filter_eq_nil_iff.2 fun row _ ↦ ?_⟩
      · rw [DirectPlan.selects, hmisjudged, hpredicate, Option.all_some]
        exact (accepts_eq_isNaN hliteral hop _).1
      · rw [DirectPlan.satisfies, hpredicate, Option.all_some, (accepts_eq_isNaN hliteral hop _).2]
        exact Bool.false_ne_true
    · right
      have hlt := h.predicate_lt hpredicate
      obtain ⟨type, htype⟩ := exists_type h.table_eq hlt
      -- the column holds numbers
      have hnumbers : ∀ row ∈ db.stored statement.fromTable,
          (row.field predicate.column).isNull = false → (row.field predicate.column).isNumeric := by
        intro row' hrow' hnull'
        have heq : (row'.field predicate.column).type = (row.field predicate.column).type :=
          (htype row' hrow' hnull').trans (htype row hrow (Value.not_isNull_of_isNumeric hnumeric)).symm
        rw [Value.isNumeric, heq]
        exact hnumeric
      refine ⟨hop, List.filter_congr fun row' hrow' ↦ ?_, ?_⟩
      · rw [DirectPlan.satisfies, hmisjudged, hpredicate, Option.all_some, (accepts_ne_isNaN hliteral hop _).2]
        cases hnull' : (row'.field predicate.column).isNull
        · exact (hnumbers row' hrow' hnull').symm
        · rw [Value.isNull_iff.1 hnull']
          rfl
      · have hcovers := covers_column limit h.table_eq hnan hlt
        have hpresent : (DirectPlan.range limit (db.stored statement.fromTable) predicate.column).present := by
          refine hcovers.present_iff.2 (List.ne_nil_of_mem (a := row.field predicate.column) ?_)
          exact List.mem_filter.2 ⟨List.mem_map.2 ⟨row, hrow, rfl⟩,
            by rw [Value.not_isNull_of_isNumeric hnumeric]; rfl⟩
        have hbound : ∀ v ∈ columnValues (db.stored statement.fromTable) predicate.column, v.isNumeric := by
          intro v hv
          obtain ⟨hv, hnull⟩ := List.mem_filter.1 hv
          obtain ⟨row', hrow', rfl⟩ := List.mem_map.1 hv
          exact hnumbers row' hrow' (by simpa using hnull)
        have hnormal : normalizeColumnPredicateOp predicate.op predicate.columnOnLeft = .ne := by
          rw [hop]
          cases predicate.columnOnLeft <;> rfl
        rw [minMaxProvesEmpty, isNull_of_isNaN hliteral, hpresent, hnormal]
        simp only [Bool.not_true, Bool.or_false, Bool.false_eq_true, if_false, compare_isNaN_isEq hliteral,
          hbound _ (hcovers.min_mem hpresent), hbound _ (hcovers.max_mem hpresent), Bool.and_true]

end Planned

/-! ### What an aggregate sees -/

/-- An extremum is one of the values. -/
theorem extremum_mem (better : Ordering → Bool) {values : List Value} (hne : values ≠ []) :
    extremum better values ∈ values := by
  obtain ⟨first, rest, rfl⟩ := List.exists_cons_of_ne_nil hne
  have hfold : ∀ (rest : List Value) (best : Value),
      rest.foldl (fun result value ↦ if better (value.compare result) then value else result) best ∈
        best :: rest := by
    intro rest
    induction rest with
    | nil => exact fun best ↦ List.mem_cons_self
    | cons value rest ih =>
      intro best
      rw [List.foldl_cons]
      rcases List.mem_cons.1 (ih (if better (value.compare best) then value else best)) with heq | hmem
      · rw [heq]
        split
        · exact List.mem_cons_of_mem _ List.mem_cons_self
        · exact List.mem_cons_self
      · exact List.mem_cons_of_mem _ (List.mem_cons_of_mem _ hmem)
  exact hfold rest first

/-- A count is zero when nothing is counted. -/
theorem countValue_eq_zero {n : Nat} (h : n < 2 ^ 63) : countValue n = countValue 0 ↔ n = 0 := by
  refine ⟨fun heq ↦ ?_, fun heq ↦ by rw [heq]⟩
  have hint := congrArg Int64.toInt (Value.integer.inj heq)
  rw [Int64.toInt_ofNat_of_lt h, Int64.toInt_ofNat_of_lt (by decide)] at hint
  exact Int.ofNat.inj hint

/-- There are no more lone wolves than samples. -/
theorem countLoneWolves_le (samples : List Float) : countLoneWolves samples ≤ samples.length := by
  rw [countLoneWolves]
  split
  · exact Nat.zero_le _
  · dsimp only
    split
    · exact Nat.zero_le _
    · exact List.length_filter_le _ _

/-- The value of an aggregate over at least one value: counts, or a value that is not NULL. -/
theorem storedResult_cases {kind : AggregateKind} {values : List Value} {value : Value} (hne : values ≠ [])
    (hnull : ∀ v ∈ values, v.isNull = false) (h : storedResult kind values = .ok value) :
    (kind = .count ∧ value = countValue values.length) ∨
    (kind = .loneWolf ∧ value = countValue (countLoneWolves (values.map Value.toFloat))) ∨
    (kind ≠ .count ∧ kind ≠ .loneWolf ∧ value ≠ .null) := by
  have hempty : values.isEmpty = false := by rwa [List.isEmpty_eq_false_iff]
  cases kind with
  | count => exact .inl ⟨rfl, (Except.ok.inj h).symm⟩
  | sum =>
    rw [storedResult, hempty, if_neg Bool.false_ne_true] at h
    obtain ⟨numbers, -, h⟩ := Except.bind_eq_ok.1 h
    refine .inr (.inr ⟨by simp, by simp, ?_⟩)
    dsimp only at h
    split at h <;> rw [← Except.ok.inj h] <;> simp [Value.ofFloat]
  | average =>
    rw [storedResult, hempty, if_neg Bool.false_ne_true] at h
    obtain ⟨numbers, -, h⟩ := Except.bind_eq_ok.1 h
    refine .inr (.inr ⟨by simp, by simp, ?_⟩)
    rw [← Except.ok.inj h]
    simp [Value.ofFloat]
  | loneWolf =>
    rw [storedResult, hempty, if_neg Bool.false_ne_true] at h
    obtain ⟨samples, hsamples, h⟩ := Except.bind_eq_ok.1 h
    rw [← Except.toOption_eq_some, numericValues_toOption] at hsamples
    split at hsamples
    · rw [← Option.some.inj hsamples] at h
      exact .inr (.inl ⟨rfl, (Except.ok.inj h).symm⟩)
    · cases hsamples
  -- An extremum is one of the values, none of which is NULL.
  | max =>
    refine .inr (.inr ⟨by simp, by simp, ?_⟩)
    rintro rfl
    have hmem := extremum_mem AggregateKind.max.better hne
    rw [storedResult, hempty, if_neg Bool.false_ne_true] at h
    · rw [Except.ok.inj h] at hmem
      exact absurd (hnull _ hmem) (by decide)
    all_goals simp
  | min =>
    refine .inr (.inr ⟨by simp, by simp, ?_⟩)
    rintro rfl
    have hmem := extremum_mem AggregateKind.min.better hne
    rw [storedResult, hempty, if_neg Bool.false_ne_true] at h
    · rw [Except.ok.inj h] at hmem
      exact absurd (hnull _ hmem) (by decide)
    all_goals simp

/-- An aggregate over these rows is what it is over none exactly when it does not see them. -/
theorem unseen_iff {projection : DirectProjection} {stream : StreamProjection}
    (hstream : Streams columns projection stream) (haggregate : projection.isAggregate) (hrows : rows ≠ [])
    (hshort : rows.length < 2 ^ 63) {value value' : Value}
    (hvalue : streamColumn stream (rows.map (bindRow columns)) = .ok value)
    (hvalue' : streamColumn stream [] = .ok value') : value = value' ↔ projection.Unseen rows := by
  cases hstream with
  | representative => cases haggregate
  | countRows =>
    rw [streamColumn, foldColumn_countRows, List.length_map] at hvalue
    rw [← Except.ok.inj hvalue, ← Except.ok.inj hvalue']
    simp only [StreamProjection.result, AggregateState.result, Nat.zero_add, countValue_eq_zero hshort]
    exact iff_of_false (fun h ↦ hrows (List.length_eq_zero_iff.1 h)) id
  | @aggregate kind column expression hreads =>
    have hcolumn : (streamedResult kind (columnValues rows column)).toOption = some value := by
      rw [← streamColumn_eq kind hreads, hvalue]
      rfl
    have hcolumn' : (streamedResult kind []).toOption = some value' := by
      have hnil := streamColumn_eq kind hreads []
      rw [List.map_nil, hvalue'] at hnil
      exact hnil.symm
    rw [DirectProjection.Unseen]
    rcases eq_or_ne (columnValues rows column) [] with hempty | hne
    · rw [hempty, hcolumn'] at hcolumn
      exact iff_of_true (Option.some.inj hcolumn).symm (.inl hempty)
    -- Over values a count is not zero and any other aggregate but LONE-WOLF is not NULL.
    · have hnull : ∀ v ∈ columnValues rows column, v.isNull = false := fun v hv ↦ by
        simpa using (List.mem_filter.1 hv).2
      have hlength : (columnValues rows column).length < 2 ^ 63 := by
        refine lt_of_le_of_lt ((List.length_filter_le _ _).trans_eq ?_) hshort
        rw [List.length_map]
      rw [streamedResult_eq hne hnull, Except.toOption_eq_some] at hcolumn
      rw [streamedResult_nil, Option.some.injEq] at hcolumn'
      rw [← hcolumn', or_iff_right hne]
      rcases storedResult_cases hne hnull hcolumn with ⟨rfl, rfl⟩ | ⟨rfl, rfl⟩ | ⟨hcount, hwolf, hvalue⟩
      · rw [if_neg (by simp), if_pos rfl, countValue_eq_zero hlength]
        exact iff_of_false (fun h ↦ hne (List.length_eq_zero_iff.1 h)) (by simp)
      · have hle := countLoneWolves_le ((columnValues rows column).map Value.toFloat)
        rw [List.length_map] at hle
        rw [if_pos rfl, countValue_eq_zero (lt_of_le_of_lt hle hlength)]
        simp
      · rw [if_neg hwolf, if_neg hcount]
        exact iff_of_false hvalue fun h ↦ hwolf h.1

/-- Without GROUP BY, the output row is that of no rows exactly when no aggregate sees a row. -/
theorem scalar_eq_iff (h : Planned db statement plan projections) (hscalar : plan.groupColumns = [])
    (hrows : rows ≠ []) (hshort : rows.length < 2 ^ 63) {tuples tuples' : List Tuple}
    (htuples : plan.streamedFrom order statement projections rows = .ok tuples)
    (htuples' : plan.streamedFrom order statement projections [] = .ok tuples') :
    tuples'.Perm tuples ↔ ∀ projection ∈ plan.projections, projection.Unseen rows := by
  rw [← Except.toOption_eq_some, streamedFrom_scalar h hscalar, Option.map_eq_some_iff] at htuples htuples'
  obtain ⟨tuple, htuple, rfl⟩ := htuples
  obtain ⟨tuple', htuple', rfl⟩ := htuples'
  rw [List.perm_singleton, List.singleton_inj]
  rw [Except.toOption_eq_some, List.mapM_eq_ok_iff] at htuple htuple'
  have haggregates := h.scalar hscalar
  have hstreams := h.streams
  generalize plan.projections = planned at haggregates hstreams ⊢
  clear h
  induction hstreams generalizing tuple tuple' with
  | nil =>
    cases htuple
    cases htuple'
    exact iff_of_true rfl (List.forall_mem_nil _)
  | cons hstream _ ih =>
    obtain ⟨haggregate, haggregates⟩ := List.forall_mem_cons.1 haggregates
    cases htuple with
    | cons hvalue htuple =>
      cases htuple' with
      | cons hvalue' htuple' =>
        rw [List.cons.injEq, List.forall_mem_cons]
        exact and_congr (eq_comm.trans (unseen_iff hstream haggregate hrows hshort hvalue hvalue'))
          (ih _ htuple _ htuple' haggregates)

/-- With GROUP BY, there is a row for any rows at all. -/
theorem not_perm_of_grouped (h : Planned db statement plan projections) (hgrouped : plan.groupColumns ≠ [])
    (hrows : rows ≠ []) {tuples tuples' : List Tuple}
    (htuples : plan.streamedFrom order statement projections rows = .ok tuples)
    (htuples' : plan.streamedFrom order statement projections [] = .ok tuples') : ¬tuples'.Perm tuples := by
  have hgroupBy : statement.groupBy.isEmpty = false := by
    rw [← h.isEmpty_groupColumns]
    exact List.isEmpty_eq_false_iff.2 hgrouped
  have hempty : tuples' = [] := by
    rw [h.streamedFrom_nil, h.initialGroups_eq, initialGroups, hgroupBy] at htuples'
    exact (Except.ok.inj htuples').symm
  rw [hempty, List.nil_perm]
  rintro rfl
  rw [← Except.toOption_eq_some, DirectPlan.streamedFrom, streamed_toOption, Except.toOption_eq_some,
    streamedRows] at htuples
  obtain ⟨groups, hgroups, hmap⟩ := Except.bind_eq_ok.1 htuples
  obtain ⟨row, rest, rfl⟩ := List.exists_cons_of_ne_nil hrows
  rw [groupRows_eq_collect, initialGroups, hgroupBy, List.map_cons, KeyedGroups.collect_cons,
    DirectPlan.bound, groupKey_eq h.groups row, Except.ok_bind] at hgroups
  obtain ⟨stored, hstored, -⟩ := KeyedGroups.exists_prefix_collect (List.mem_singleton_self _) hgroups
  rw [← order.mem_entries, List.forall₂_nil_right_iff.1 (List.mapM_eq_ok_iff.1 hmap)] at hstored
  cases hstored

/-- The row ids of a table are those of a heap file, so there are not too many of them. -/
theorem length_stored_lt {name : Bytes}
    (hids : ∀ row ∈ db.stored name, row.id.page < 2 ^ 32 ∧ row.id.slot < 2 ^ 16) :
    (db.stored name).length < 2 ^ 63 := by
  have hnodup : ((db.stored name).map fun row ↦ row.id.page * 2 ^ 16 + row.id.slot).Nodup := by
    have hids' : ∀ id ∈ (db.stored name).map (·.id), id.slot < 2 ^ 16 := by
      intro id hid
      obtain ⟨row, hrow, rfl⟩ := List.mem_map.1 hid
      exact (hids row hrow).2
    have hmap := (db.nodup name).map_on (f := fun id ↦ id.page * 2 ^ 16 + id.slot) fun id hid id' hid' heq ↦ by
      have hslot := hids' id hid
      have hslot' := hids' id' hid'
      obtain ⟨page, slot⟩ := id
      obtain ⟨page', slot'⟩ := id'
      rw [RowId.mk.injEq]
      dsimp only at *
      omega
    rwa [List.map_map] at hmap
  have hsubset : ((db.stored name).map fun row ↦ row.id.page * 2 ^ 16 + row.id.slot) ⊆ List.range (2 ^ 48) := by
    intro n hn
    obtain ⟨row, hrow, rfl⟩ := List.mem_map.1 hn
    obtain ⟨hpage, hslot⟩ := hids row hrow
    rw [List.mem_range]
    omega
  have hle := (List.subperm_of_subset hnodup hsubset).length_le
  rw [List.length_map, List.length_range] at hle
  omega

/-! ### The answers -/

/-- The direct aggregate returns what its route gives. -/
theorem executeDirectAggregateSelect_eq_ok {result : NativeQueryResult}
    (hplan : directPlan db statement = .ok (some plan))
    (hroute : plan.route limit db statistics statement.fromTable = .ok (route, statistics'))
    (h : executeDirectAggregateSelect order limit db statistics statement = .ok (some result, statistics')) :
    ∃ tuples, plan.rows db statement.fromTable order route = .ok tuples ∧
      result = { columns := outputNames db.catalog statement none, rows := tuples } := by
  rw [executeDirectAggregateSelect, hplan, Except.ok_bind] at h
  dsimp only at h
  rw [hroute, Except.ok_bind] at h
  obtain ⟨tuples, htuples, h⟩ := Except.bind_eq_ok.1 h
  cases h
  exact ⟨tuples, htuples, rfl⟩

namespace Planned

variable (h : Planned db statement plan projections) {tuples : List Tuple}

include h

/-- Rows that the pipeline streams too are its answer, when what was pruned or counted is so in a scan. -/
theorem agrees_of_streamed (hstreamed : plan.streamedFrom order statement projections
      ((db.stored statement.fromTable).filter plan.satisfies) = .ok tuples)
    (hpruned : route = .pruned → (db.stored statement.fromTable).filter plan.satisfies = [])
    (hcounted : ∀ count, route = .counted count →
      ((db.stored statement.fromTable).filter plan.satisfies).length = count) :
    DirectAgrees order db statement route { columns := outputNames db.catalog statement none, rows := tuples } where
  result := ⟨_, by rw [h.scanSelect_eq, hstreamed]; rfl, rfl, .refl _⟩
  pruned hroute := ⟨_, scanTable_eq_ok h.table_eq, h.filterRows_eq.trans (by rw [hpruned hroute]; rfl)⟩
  counted count hroute := by
    refine ⟨_, _, scanTable_eq_ok h.table_eq, h.filterRows_eq, ?_⟩
    rw [List.length_map]
    exact hcounted count hroute

/-- When WHERE holds on no row, the pipeline answers what it answers for no rows. -/
theorem agrees_iff_of_none (hnone : (db.stored statement.fromTable).filter plan.satisfies = [])
    (hpruned : route ≠ .pruned) (hcounted : ∀ count, route ≠ .counted count) :
    DirectAgrees order db statement route { columns := outputNames db.catalog statement none, rows := tuples } ↔
      (plan.initialGroups.map fun group ↦ plan.makeOutput group.2).Perm tuples := by
  have hgeneric : scanSelect order db statement =
      .ok { columns := outputNames db.catalog statement none,
            rows := plan.initialGroups.map fun group ↦ plan.makeOutput group.2 } := by
    rw [h.scanSelect_eq, hnone, h.streamedFrom_nil]
    rfl
  refine ⟨fun hagrees ↦ ?_, fun hperm ↦ ⟨⟨_, hgeneric, rfl, hperm⟩, fun hroute ↦ absurd hroute hpruned,
    fun count hroute ↦ absurd hroute (hcounted count)⟩⟩
  obtain ⟨generic, hgeneric', -, hperm⟩ := hagrees.result
  rw [hgeneric] at hgeneric'
  obtain rfl := Except.ok.inj hgeneric'
  exact hperm

/-- An answer from misjudged rows, on none of which WHERE holds: it agrees when no aggregate sees them. -/
theorem agrees_iff_unseen (hshort : (db.stored statement.fromTable).length < 2 ^ 63)
    (hmisjudged : plan.misjudged (db.stored statement.fromTable) ≠ [])
    (hnone : (db.stored statement.fromTable).filter plan.satisfies = [])
    (hpruned : route ≠ .pruned) (hcounted : ∀ count, route ≠ .counted count)
    (htuples : plan.streamedFrom order statement projections (plan.misjudged (db.stored statement.fromTable)) =
      .ok tuples) :
    DirectAgrees order db statement route { columns := outputNames db.catalog statement none, rows := tuples } ↔
      plan.groupColumns = [] ∧ ∀ projection ∈ plan.projections,
        projection.Unseen (plan.misjudged (db.stored statement.fromTable)) := by
  rw [h.agrees_iff_of_none hnone hpruned hcounted]
  by_cases hscalar : plan.groupColumns = []
  · rw [scalar_eq_iff h hscalar hmisjudged (lt_of_le_of_lt (List.length_filter_le _ _) hshort) htuples
      h.streamedFrom_nil, and_iff_right hscalar]
  · exact iff_of_false (not_perm_of_grouped h hscalar hmisjudged htuples h.streamedFrom_nil)
      fun hboth ↦ hscalar hboth.1

end Planned

/-- Direct aggregation agrees with a scan exactly when no row is misjudged, or none of those shows in the
answer. -/
theorem directAggregate_agrees_iff {result : NativeQueryResult}
    (hreachable : ReachableStatistics limit (db, statistics)) (hnan : NaNFree db statement.fromTable)
    (hids : ∀ row ∈ db.stored statement.fromTable, row.id.page < 2 ^ 32 ∧ row.id.slot < 2 ^ 16)
    (hplan : directPlan db statement = .ok (some plan))
    (hroute : plan.route limit db statistics statement.fromTable = .ok (route, statistics'))
    (hdense : ∀ column minimum maximum, route ≠ .dense column minimum maximum)
    (hdirect : executeDirectAggregateSelect order limit db statistics statement = .ok (some result, statistics')) :
    DirectAgrees order db statement route result ↔ plan.Exact limit (db.stored statement.fromTable) := by
  obtain ⟨projections, h⟩ := exists_planned hplan
  obtain ⟨tuples, htuples, rfl⟩ := executeDirectAggregateSelect_eq_ok hplan hroute hdirect
  have hrows := h.rows_cases hreachable.current order hnan hroute hdense
  by_cases hnone : plan.misjudged (db.stored statement.fromTable) = []
  · -- Both tests take the same rows.
    refine iff_of_true ?_ (.inl hnone)
    have hfilter := h.filter_selects_eq hnan hnone
    rcases hrows with ⟨-, rfl, heq⟩ | ⟨hcounted, -, -, hpruned, heq⟩
    · exact h.agrees_of_streamed (heq.symm.trans htuples) nofun fun count hcount ↦ DirectRoute.counted.inj hcount
    · exact h.agrees_of_streamed (by rw [← hfilter, ← heq, htuples]) (fun hroute ↦ hfilter ▸ hpruned hroute)
        fun count hcount ↦ absurd hcount (hcounted count)
  · obtain ⟨predicate, hpredicate, ⟨hop, hselects, hsatisfies⟩ | ⟨hop, hsatisfies, hproves⟩⟩ :=
      h.misjudged_cases hnan limit hnone
    · -- An equation: the misjudged rows are those that the test by comparison takes.
      rcases hrows with ⟨hcounted, rfl, heq⟩ | ⟨hcount, -, huncounted, hpruned, heq⟩
      · exact iff_of_true (h.agrees_of_streamed (heq.symm.trans htuples) nofun
          fun count hcount ↦ DirectRoute.counted.inj hcount) (.inr (.inl hcounted))
      · have hnotPruned : route ≠ .pruned := fun hroute ↦ hnone (hselects ▸ hpruned hroute)
        rw [heq, hselects] at htuples
        rw [h.agrees_iff_unseen (length_stored_lt hids) hnone hsatisfies hnotPruned hcount htuples,
          DirectPlan.Exact, or_iff_right hnone, or_iff_right (huncounted hnotPruned)]
        exact (and_iff_right ⟨predicate, hpredicate, hop⟩).symm
    · -- An inequation: the range excludes every row, though WHERE holds on the misjudged ones.
      have huncounted : ¬plan.Counted limit (db.stored statement.fromTable) := by
        rintro ⟨predicate', argument, hpredicate', -, hasks, -⟩
        obtain rfl := Option.some.inj (hpredicate.symm.trans hpredicate')
        simp only [DirectPlan.asksValueCounts, Bool.and_eq_true, beq_iff_eq] at hasks
        rw [normalizeColumnPredicateOp_eq, hop] at hasks
        cases hasks.1.1
      rcases hrows with ⟨hcounted, -⟩ | ⟨-, hpruned, -⟩
      · exact absurd hcounted huncounted
      · refine iff_of_false (fun hagrees ↦ ?_) ?_
        · obtain ⟨rows, hrows, hkept⟩ := hagrees.pruned (hpruned.2 ⟨predicate, hpredicate, hproves⟩)
          obtain rfl := Except.ok.inj ((scanTable_eq_ok h.table_eq).symm.trans hrows)
          have hkept' := h.filterRows_eq.symm.trans hkept
          rw [hsatisfies] at hkept'
          exact hnone (List.map_eq_nil_iff.1 (Except.ok.inj hkept'))
        · rintro (hnone' | hcounted | ⟨⟨predicate', hpredicate', hop'⟩, -⟩)
          · exact hnone hnone'
          · exact huncounted hcounted
          · obtain rfl := Option.some.inj (hpredicate.symm.trans hpredicate')
            rw [hop] at hop'
            cases hop'

/-! ### An equation with a NaN -/

/-- A table `t` with the column `v REAL`. -/
def realTable : TableMeta where
  name := lit "t"
  columns := [{ name := lit "v", type := lit "REAL" }]

/-- The row `(1.0)`. -/
def oneRow : StoredRow where
  id := ⟨0, 0⟩
  values := [.real 0x3FF0000000000000]

/-- The table with one row. -/
def oneDatabase : Database :=
  .single realTable [oneRow] (List.nodup_singleton _) (by simp [oneRow, realTable]) (by decide)
    (by simpa using ⟨_, rfl, by decide⟩) (by decide)

/-- `slay goat(v) no-cap t only-if v = literal`. -/
def greatestWhere (literal : Literal) : SelectStmt where
  columns := [.function (lit "goat") [.column { column := lit "v" }] false []]
  fromTable := lit "t"
  where' := some (.binary .eq (.column { column := lit "v" }) (.literal literal) [])

/-- The plan for `greatestWhere`. -/
def greatestPlan (literal : Literal) : DirectPlan where
  table := realTable
  predicate := some ⟨0, .eq, literalValue literal, true⟩
  groupColumns := []
  projections := [.aggregate .max (some 0)]

theorem oneDatabase_NaNFree : NaNFree oneDatabase (lit "t") := by
  show ∀ row ∈ [oneRow], _
  decide

/-- With a NaN direct aggregation answers 1.0, though WHERE holds on no row. -/
theorem greatestWhere_NaN_differs :
    ReachableStatistics 4096 (oneDatabase, ∅) ∧ NaNFree oneDatabase (lit "t") ∧
    (∃ statistics, executeDirectAggregateSelect KeyedGroups.newestFirst 4096 oneDatabase ∅
        (greatestWhere (.float 0x7FF8000000000000)) =
      .ok (some { columns := [lit "goat"], rows := [[.real 0x3FF0000000000000]] }, statistics)) ∧
    scanSelect KeyedGroups.newestFirst oneDatabase (greatestWhere (.float 0x7FF8000000000000)) =
      .ok { columns := [lit "goat"], rows := [[.null]] } :=
  ⟨.opened _, oneDatabase_NaNFree, ⟨_, rfl⟩, rfl⟩

/-- With 1.0 it agrees with the scan. -/
theorem greatestWhere_one_agrees :
    DirectAgrees KeyedGroups.newestFirst oneDatabase (greatestWhere (.float 0x3FF0000000000000)) .hash
      { columns := [lit "goat"], rows := [[.real 0x3FF0000000000000]] } := by
  have hreachable : ReachableStatistics 4096 (oneDatabase, ∅) := .opened _
  have hplan : directPlan oneDatabase (greatestWhere (.float 0x3FF0000000000000)) =
    .ok (some (greatestPlan (.float 0x3FF0000000000000))) := rfl
  refine (directAggregate_agrees_iff hreachable oneDatabase_NaNFree ?_ hplan rfl (fun _ _ _ ↦ nofun) rfl).2
    (.inl rfl)
  show ∀ row ∈ [oneRow], _
  decide

end SkibidiQL
