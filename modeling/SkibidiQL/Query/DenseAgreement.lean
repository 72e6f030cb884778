import SkibidiQL.Query.DenseGroups

/-!
# The dense path and the hash-group scan

Both compute `groupTuple` of the rows of each group. The dense path groups by the integer, the hash-group scan
by `==` on values, which compares integers as doubles. So they agree when every row lies between the bounds and
no two integers are equal as doubles.
-/

namespace SkibidiQL

open Bytes

variable {db : Database} {statement : SelectStmt} {plan : DirectPlan} {projections : List StreamProjection}
  {columns : List BoundColumn} {row : StoredRow} {rows : List StoredRow} {column : Nat}
  {minimum maximum : Int64}

/-! ### One group -/

namespace DirectPlan

/-- The groups by index that are not empty. -/
def indexed (column : Nat) (minimum : Int64) (n : Nat) (rows : List StoredRow) :
    List (Nat × List StoredRow) :=
  ((List.range n).map fun i ↦ (i, rowsAt column minimum rows i)).filter fun group ↦ !group.2.isEmpty

/-- The length of the dense array. -/
def denseSize (minimum maximum : Int64) : Nat :=
  (maximum - minimum).toUInt64.toNat + 1

end DirectPlan

/-- The index of a key in the bounds lies in the table. -/
theorem denseIndex_lt {value : Int64} (hmin : minimum ≤ value) (hmax : value ≤ maximum)
    (hspan : maximum.toInt - minimum.toInt < 2 ^ 63) :
    DirectPlan.denseIndex minimum value < DirectPlan.denseSize minimum maximum := by
  have hindex := denseIndex_eq hmin hmax hspan
  have hsize : (DirectPlan.denseIndex minimum maximum : Int) = _ :=
    denseIndex_eq (Int64.le_trans hmin hmax) Int64.le_rfl hspan
  rw [Int64.le_iff_toInt_le] at hmin hmax
  rw [DirectPlan.denseIndex] at hsize
  rw [DirectPlan.denseSize]
  omega

/-- The dense array before the first row. -/
theorem denseInvariant_denseGroups :
    DenseInvariant plan column minimum (DirectPlan.denseSize minimum maximum) []
      (plan.denseGroups minimum maximum) := by
  refine ⟨by rw [DirectPlan.denseGroups, List.length_replicate, DirectPlan.denseSize], fun i group hi ↦ ?_⟩
  rw [DirectPlan.denseGroups] at hi
  obtain rfl := List.eq_of_mem_replicate (List.mem_of_getElem? hi)
  rfl

/-- A group is present when it has rows. -/
theorem denseGroupOf_present {group : DirectPlan.DenseGroup}
    (h : plan.denseGroupOf column rows = .ok group) : group.present = !rows.isEmpty := by
  obtain ⟨aggregates, -, h⟩ := Except.bind_eq_ok.1 h
  obtain rfl := Except.ok.inj h
  rfl

/-- The output of a dense group is that of the streaming lambda, when its key is the value of its first row. -/
theorem denseOutput_eq {planned : List DirectProjection} {first : StoredRow} {rest : List EvalRow}
    (hstreams : List.Forall₂ (Streams columns) planned projections)
    (hsupported : ∀ projection ∈ planned, DirectPlan.supportedDense column projection)
    (hnull : (first.field column).isNull = false) {states : List StreamColumnState}
    (hfold : List.Forall₂ (fun projection state ↦
      foldColumn projection {} (bindRow columns first :: rest) = .ok state) projections states) :
    planned.zipWith (fun projection state ↦
      match projection with
      | .representative _ => first.field column
      | .aggregate kind _ => state.result kind) (states.map (·.aggregate)) =
        streamResult projections states := by
  induction hstreams generalizing states with
  | nil => rfl
  | @cons projection stream planned projections hstream _ ih =>
    obtain ⟨hkind, hkinds⟩ := List.forall_mem_cons.1 hsupported
    cases hfold with
    | @cons _ state _ states hstate hstates =>
      rw [streamResult, List.map_cons, List.zipWith_cons_cons, List.zipWith_cons_cons, ih hkinds hstates,
        streamResult]
      refine congrArg (· :: _) ?_
      cases hstream with
      | @representative c expression hreads =>
        obtain rfl : c = column := by simpa [DirectPlan.supportedDense] using hkind
        rw [foldColumn_representative_cons (hreads first),
          foldColumn_representative_of_ne_null (by exact hnull)] at hstate
        obtain rfl := Except.ok.inj hstate
        rfl
      | countRows => rfl
      | aggregate kind _ => rfl

namespace Planned

variable (h : Planned db statement plan projections) (hdense : DensePlanned plan column minimum maximum)

include h

/-- A row is folded into its group. -/
theorem denseFold_eq (hdense : DensePlanned plan column minimum maximum)
    (hrow : row ∈ db.stored statement.fromTable) (states : List StreamColumnState) :
    plan.denseFold (states.map (·.aggregate)) row =
      streamStep projections states (bindRow (plan.bound statement) row) >>= fun states' ↦
        .ok (states'.map (·.aggregate)) :=
  denseStep_eq h.streams hdense.supported (fun projection hprojection c hc ↦
    h.fieldAt_eq hrow (DirectPlan.mem_required (h.projections_lt projection hprojection c hc)
      (.inr (.inr ⟨projection, hprojection, hc⟩)))) states

/-- All rows of a group are folded into it. -/
theorem foldlM_denseFold (hdense : DensePlanned plan column minimum maximum)
    (hrows : ∀ row ∈ rows, row ∈ db.stored statement.fromTable) (states : List StreamColumnState) :
    rows.foldlM plan.denseFold (states.map (·.aggregate)) =
      (rows.map (bindRow (plan.bound statement))).foldlM (streamStep projections) states >>= fun states' ↦
        .ok (states'.map (·.aggregate)) := by
  induction rows generalizing states with
  | nil => rfl
  | cons row rows ih =>
    obtain ⟨hrow, hrest⟩ := List.forall_mem_cons.1 hrows
    rw [List.foldlM_cons, h.denseFold_eq hdense hrow, List.map_cons, List.foldlM_cons, bind_assoc, bind_assoc]
    congr 1
    funext states'
    exact ih hrest states'

/-- A dense group of at least one row. -/
theorem denseGroupOf_toOption (hdense : DensePlanned plan column minimum maximum)
    (hrows : ∀ row ∈ rows, row ∈ db.stored statement.fromTable) (hne : rows ≠ []) :
    (plan.denseGroupOf column rows).toOption.map plan.denseOutput =
      (groupTuple projections (rows.map (bindRow (plan.bound statement)))).toOption := by
  have hinitial : (plan.projections.map fun _ ↦ ({} : AggregateState)) =
      (streamInitial projections).map (·.aggregate) := by
    simp only [streamInitial, List.map_const', List.map_replicate, h.streams.length_eq]
  rw [DirectPlan.denseGroupOf, hinitial, h.foldlM_denseFold hdense hrows]
  rcases hfold : (rows.map (bindRow (plan.bound statement))).foldlM (streamStep projections)
      (streamInitial projections) with e | states
  · rw [Except.error_bind, Except.error_bind, Except.toOption_error, Option.map_none, eq_comm,
      Except.toOption_eq_none]
    by_contra hok
    obtain ⟨values, hvalues⟩ := Except.not_fails_iff.1 hok
    obtain ⟨states, hstates, -⟩ := streamGroup_eq_ok_iff.2 hvalues
    cases hfold.symm.trans hstates
  · obtain ⟨first, rest, rfl⟩ := List.exists_cons_of_ne_nil hne
    have htuple : groupTuple projections ((first :: rest).map (bindRow (plan.bound statement))) =
        .ok (streamResult projections states) := streamGroup_eq_ok_iff.1 ⟨states, hfold, rfl⟩
    have hnull : (first.field column).isNull = false := by
      rw [hdense.field_eq h.table_eq (hrows first List.mem_cons_self)]
      rfl
    rw [htuple, Except.ok_bind, Except.ok_bind, Except.pure_eq_ok, Except.toOption_ok, Except.toOption_ok,
      Option.map_some, DirectPlan.denseOutput]
    exact congrArg some (denseOutput_eq h.streams hdense.supported hnull (foldlM_streamStep.1 hfold))

/-! ### All groups -/

/-- The step of the dense path on a row between the bounds. -/
theorem denseRow_eq (hdense : DensePlanned plan column minimum maximum)
    (hrow : row ∈ db.stored statement.fromTable)
    (hwithin : plan.selects row → minimum ≤ groupValue column row ∧ groupValue column row ≤ maximum)
    (groups : List DirectPlan.DenseGroup) :
    plan.denseRow column minimum maximum groups row =
      if plan.selects row then plan.denseTake column minimum groups row else .ok groups := by
  have hlt : column < plan.table.columns.length :=
    h.groupColumns_lt column (by rw [hdense.groupColumns_eq]; exact List.mem_singleton_self _)
  have hkey := h.fieldAt_eq hrow (DirectPlan.mem_required hlt
    (.inr (.inl (by rw [hdense.groupColumns_eq]; exact List.mem_singleton_self _))))
  rw [DirectPlan.denseRow, h.rawFields_eq hrow, Except.ok_bind, h.predicateMatches_eq hrow, Except.ok_bind]
  by_cases hselects : plan.selects row
  · obtain ⟨hmin, hmax⟩ := hwithin hselects
    rw [if_pos hselects, if_pos hselects, hkey, Except.ok_bind, DirectPlan.denseTake]
    have hfield := hdense.field_eq h.table_eq hrow
    rw [if_neg]
    · rfl
    · rw [← groupValue, hfield]
      simp [Value.isNull, Value.isNumeric, Value.type, hmin, hmax]
  · rw [if_neg hselects, if_neg hselects]
    rfl

/-- The rows are spread over the table. -/
theorem foldlM_denseRow (hdense : DensePlanned plan column minimum maximum)
    (hrows : ∀ row ∈ rows, row ∈ db.stored statement.fromTable)
    (hwithin : ∀ row ∈ rows, plan.selects row →
      minimum ≤ groupValue column row ∧ groupValue column row ≤ maximum)
    (groups : List DirectPlan.DenseGroup) :
    rows.foldlM (plan.denseRow column minimum maximum) groups =
      (rows.filter plan.selects).foldlM (plan.denseTake column minimum) groups := by
  induction rows generalizing groups with
  | nil => rfl
  | cons row rows ih =>
    obtain ⟨hrow, hrest⟩ := List.forall_mem_cons.1 hrows
    obtain ⟨hhead, htail⟩ := List.forall_mem_cons.1 hwithin
    rw [List.foldlM_cons, h.denseRow_eq hdense hrow hhead, List.filter_cons]
    split
    · rw [List.foldlM_cons]
      exact congrArg _ (funext (ih hrest htail))
    · exact ih hrest htail groups

/-- The dense path computes `groupTuple` of the rows at each index. -/
theorem denseRows_toOption (hdense : DensePlanned plan column minimum maximum)
    (hspan : maximum.toInt - minimum.toInt < 2 ^ 63)
    (hwithin : ∀ row ∈ db.stored statement.fromTable, plan.selects row →
      minimum ≤ groupValue column row ∧ groupValue column row ≤ maximum) :
    (plan.denseRows db statement.fromTable column minimum maximum).toOption =
      ((DirectPlan.indexed column minimum (DirectPlan.denseSize minimum maximum)
        ((db.stored statement.fromTable).filter plan.selects)).mapM fun group ↦
          groupTuple projections (group.2.map (bindRow (plan.bound statement)))).toOption := by
  have hselected : ∀ row ∈ (db.stored statement.fromTable).filter plan.selects,
      row ∈ db.stored statement.fromTable := fun row hrow ↦ (List.mem_filter.1 hrow).1
  have hmem {i : ℕ} : ∀ row ∈ DirectPlan.rowsAt column minimum
      ((db.stored statement.fromTable).filter plan.selects) i, row ∈ db.stored statement.fromTable :=
    fun row hrow ↦ hselected row (List.mem_filter.1 hrow).1
  rw [DirectPlan.denseRows, h.foldlM_denseRow hdense (fun _ ↦ id) hwithin]
  have hinitial : DenseInvariant plan column minimum (DirectPlan.denseSize minimum maximum) []
    (plan.denseGroups minimum maximum) := denseInvariant_denseGroups
  have hnull : ∀ row ∈ (db.stored statement.fromTable).filter plan.selects,
      (row.field column).isNull = false := by
    intro row hrow
    rw [hdense.field_eq h.table_eq (hselected row hrow)]
    rfl
  have hindex : ∀ row ∈ (db.stored statement.fromTable).filter plan.selects,
      DirectPlan.denseIndex minimum (groupValue column row) < DirectPlan.denseSize minimum maximum := by
    intro row hrow
    obtain ⟨hrow, hselects⟩ := List.mem_filter.1 hrow
    obtain ⟨hmin, hmax⟩ := hwithin row hrow hselects
    exact denseIndex_lt hmin hmax hspan
  have hfold := foldlM_denseTake hnull hindex hinitial
  -- The fold keeps the invariant to the end, or fails at the rows of some index.
  rcases hfold with ⟨groups, hgroups, hlength, hinvariant⟩ | ⟨hfails, i, hi, hgroup⟩
  · rw [hgroups, Except.ok_bind, Except.pure_eq_ok, Except.toOption_ok, eq_comm, Except.toOption_eq_some,
      List.mapM_eq_ok_iff, List.forall₂_map_right_iff, DirectPlan.indexed]
    -- The slots are compared before the empty ones are dropped, so both lists are indexed alike.
    have hall : List.Forall₂ (fun (entry : ℕ × List StoredRow) group ↦ (entry.2 ⊆ db.stored statement.fromTable) ∧
        plan.denseGroupOf column entry.2 = .ok group)
        ((List.range (DirectPlan.denseSize minimum maximum)).map fun i ↦ (i, DirectPlan.rowsAt column minimum
          ((db.stored statement.fromTable).filter plan.selects) i)) groups := by
      rw [List.forall₂_map_left_iff, List.forall₂_iff_get]
      refine ⟨by rw [List.length_range, hlength], fun i hi hi' ↦ ⟨fun row hrow ↦ hmem row hrow, ?_⟩⟩
      rw [List.get_eq_getElem, List.get_eq_getElem, List.getElem_range]
      exact hinvariant i _ (List.getElem?_eq_getElem hi')
    refine (hall.filter fun entry group hrel ↦ (denseGroupOf_present hrel.2).symm).imp ?_
    rintro entry group ⟨⟨hsubset, hgroup⟩, hne⟩
    rw [Bool.not_eq_true', List.isEmpty_eq_false_iff] at hne
    rw [← Except.toOption_eq_some, ← h.denseGroupOf_toOption hdense hsubset hne, hgroup]
    rfl
  · have hne : DirectPlan.rowsAt column minimum ((db.stored statement.fromTable).filter plan.selects) i ≠ [] := by
      intro hnil
      rw [hnil] at hgroup
      exact Except.not_fails_ok _ hgroup
    rw [Except.toOption_eq_none.2 (Except.fails_bind.2 (.inl hfails)), eq_comm, Except.toOption_eq_none,
      List.mapM_fails_iff]
    refine ⟨(i, _), List.mem_filter.2 ⟨List.mem_map.2 ⟨i, List.mem_range.2 hi, rfl⟩, ?_⟩, ?_⟩
    · rwa [Bool.not_eq_true', List.isEmpty_eq_false_iff]
    · rw [← Except.toOption_eq_none, ← h.denseGroupOf_toOption hdense hmem hne,
        Except.toOption_eq_none.2 hgroup]
      rfl

end Planned

end SkibidiQL
