import SkibidiQL.Query.DirectScan
import SkibidiQL.Storage.ValueOrder

/-!
# Dense groups

The dense path keeps its groups in an array that is indexed by the group value less the least one. Its bounds
come from the range of the column, which compares integers as doubles.
-/

namespace SkibidiQL

open Bytes

variable {db : Database} {statement : SelectStmt} {plan : DirectPlan} {limit : Nat}
  {statistics statistics' : Statistics} {projections : List StreamProjection} {columns : List BoundColumn}
  {row : StoredRow} {column : Nat} {minimum maximum : Int64}

/-! ### Offsets -/

/-- A difference that does not overflow. -/
theorem toInt_sub_eq {a b : Int64} (hle : a ≤ b) (hspan : b.toInt - a.toInt < 2 ^ 63) :
    (b - a).toInt = b.toInt - a.toInt := by
  rw [Int64.le_iff_toInt_le] at hle
  rw [Int64.toInt_sub, Int.bmod_eq_of_le]
  · omega
  · omega

/-- An integer that is not negative is the same unsigned. -/
theorem toNat_toUInt64 {a : Int64} (h : 0 ≤ a.toInt) : (a.toUInt64.toNat : Int) = a.toInt := by
  have hcond := BitVec.toInt_eq_toNat_cond a.toBitVec
  have hlt := a.toBitVec.isLt
  have htoInt : a.toInt = a.toBitVec.toInt := rfl
  have htoNat : a.toUInt64.toNat = a.toBitVec.toNat := rfl
  rw [htoInt] at h ⊢
  rw [htoNat]
  split at hcond <;> omega

/-- The index of a value between the bounds. -/
theorem denseIndex_eq {value : Int64} (hmin : minimum ≤ value) (hmax : value ≤ maximum)
    (hspan : maximum.toInt - minimum.toInt < 2 ^ 63) :
    (DirectPlan.denseIndex minimum value : Int) = value.toInt - minimum.toInt := by
  rw [Int64.le_iff_toInt_le] at hmax
  have hsub := toInt_sub_eq hmin (by omega)
  rw [Int64.le_iff_toInt_le] at hmin
  rw [DirectPlan.denseIndex, toNat_toUInt64 (by omega), hsub]

/-! ### Statements that reach the dense path -/

/-- What the choice of the dense path has checked. -/
structure DensePlanned (plan : DirectPlan) (column : Nat) (minimum maximum : Int64) : Prop where
  groupColumns_eq : plan.groupColumns = [column]
  metadata : ∃ metadata, plan.table.columns[column]? = some metadata ∧ metadata.notNull ∧
    declaredValueType metadata = .ok .integer
  supported : ∀ projection ∈ plan.projections, DirectPlan.supportedDense column projection
  le : minimum ≤ maximum
  span_lt : maximum - minimum < DirectPlan.denseGroupMaxDomainSpan

/-- No column is declared Boolean. -/
theorem declaredValueType_ne_boolean (metadata : ColumnMeta) : declaredValueType metadata ≠ .ok .boolean := by
  rw [declaredValueType]
  split
  · nofun
  · split
    · nofun
    · split
      · nofun
      · split <;> nofun

/-- A dense plan groups by one integer column without NULLs. -/
theorem denseColumn_eq_some (h : plan.denseColumn = .ok (some column)) :
    plan.groupColumns = [column] ∧
      (∃ metadata, plan.table.columns[column]? = some metadata ∧ metadata.notNull ∧
        declaredValueType metadata = .ok .integer) ∧
      ∀ projection ∈ plan.projections, DirectPlan.supportedDense column projection := by
  rw [DirectPlan.denseColumn.eq_def] at h
  split at h
  · rename_i column' hcolumns
    split at h
    · cases h
    · rename_i metadata hmetadata
      obtain ⟨type, htype, h⟩ := Except.bind_eq_ok.1 h
      rw [Except.pure_eq_ok, Except.ok.injEq] at h
      split at h
      · rename_i hcheck
        obtain rfl := Option.some.inj h
        simp only [Bool.and_eq_true, Bool.or_eq_true, beq_iff_eq, List.all_eq_true] at hcheck
        obtain ⟨⟨hnotNull, htype'⟩, hsupported⟩ := hcheck
        refine ⟨hcolumns, ⟨metadata, hmetadata, hnotNull, ?_⟩, hsupported⟩
        rcases htype' with rfl | rfl
        · exact htype
        · exact absurd htype (declaredValueType_ne_boolean metadata)
      · cases h
  · cases h

/-- Its bounds are in order and near one another. -/
theorem denseBounds_eq_some {range : ColumnRange}
    (h : DirectPlan.denseBounds range = .ok (some (minimum, maximum))) :
    minimum ≤ maximum ∧ maximum - minimum < DirectPlan.denseGroupMaxDomainSpan := by
  rw [DirectPlan.denseBounds] at h
  split at h
  · obtain ⟨low, -, h⟩ := Except.bind_eq_ok.1 h
    obtain ⟨high, -, h⟩ := Except.bind_eq_ok.1 h
    dsimp only at h
    rw [Except.pure_eq_ok, Except.ok.injEq] at h
    split at h
    · rename_i hcheck
      obtain ⟨rfl, rfl⟩ := Prod.mk.inj (Option.some.inj h)
      exact hcheck
    · cases h
  · cases h

/-- The dense path is chosen for statements that it supports. -/
theorem densePlanned_of_route {name : Bytes}
    (h : plan.route limit db statistics name = .ok (.dense column minimum maximum, statistics')) :
    DensePlanned plan column minimum maximum := by
  obtain ⟨⟨empty, statistics₁⟩, -, h⟩ := Except.bind_eq_ok.1 h
  dsimp only at h
  split at h
  · cases h
  · split at h
    · rw [DirectPlan.countRoute.eq_def] at h
      split at h
      · cases h
      · split at h
        · obtain ⟨⟨range, statistics₂⟩, -, h⟩ := Except.bind_eq_ok.1 h
          dsimp only at h
          split at h <;> cases h
        · cases h
    · obtain ⟨found, hcolumn, h⟩ := Except.bind_eq_ok.1 h
      cases found with
      | none => cases h
      | some found =>
        obtain ⟨⟨range, statistics₂⟩, -, h⟩ := Except.bind_eq_ok.1 h
        obtain ⟨bounds, hbounds, h⟩ := Except.bind_eq_ok.1 h
        cases bounds with
        | none => cases h
        | some bounds =>
          obtain ⟨low, high⟩ := bounds
          cases h
          obtain ⟨hgroup, hmetadata, hsupported⟩ := denseColumn_eq_some hcolumn
          obtain ⟨hle, hspan⟩ := denseBounds_eq_some hbounds
          exact ⟨hgroup, hmetadata, hsupported, hle, hspan⟩

/-- The integer by which a row is grouped. -/
def groupValue (column : Nat) (row : StoredRow) : Int64 :=
  DirectPlan.denseValue (row.field column)

/-- The group column holds integers only. -/
theorem DensePlanned.field_eq (hdense : DensePlanned plan column minimum maximum)
    (htable : db.catalog.tables[statement.fromTable]? = some plan.table)
    (hrow : row ∈ db.stored statement.fromTable) :
    row.field column = .integer (groupValue column row) := by
  obtain ⟨metadata, hmetadata, hnotNull, htype⟩ := hdense.metadata
  have hadmits := db.admits_field htable hrow hmetadata
  rw [ColumnMeta.Admits, hnotNull, htype] at hadmits
  rw [groupValue]
  cases hfield : row.field column with
  | integer n => rfl
  | null =>
    rw [hfield] at hadmits
    exact absurd hadmits nofun
  | _ =>
    rw [hfield] at hadmits
    exact absurd hadmits nofun

/-! ### Groups by index -/

namespace DirectPlan

/-- A row taken into the aggregates of its group. -/
def denseFold (plan : DirectPlan) (states : List AggregateState) (row : StoredRow) :
    Except Error (List AggregateState) :=
  denseStep (plan.fieldAt (HeapFile.project plan.required row.values)) plan.projections states

/-- The dense group of these rows. -/
def denseGroupOf (plan : DirectPlan) (column : Nat) (rows : List StoredRow) : Except Error DenseGroup := do
  let aggregates ← rows.foldlM plan.denseFold (plan.projections.map fun _ ↦ {})
  pure { present := !rows.isEmpty, key := (rows.head?.map (·.field column)).getD .null, aggregates }

/-- The rows with an index. -/
def rowsAt (column : Nat) (minimum : Int64) (rows : List StoredRow) (i : Nat) : List StoredRow :=
  rows.filter fun row ↦ decide (denseIndex minimum (groupValue column row) = i)

/-- A row that is taken into the group at its index. -/
def denseTake (plan : DirectPlan) (column : Nat) (minimum : Int64) (groups : List DenseGroup)
    (row : StoredRow) : Except Error (List DenseGroup) :=
  plan.denseInsert (HeapFile.project plan.required row.values) (row.field column)
    (denseIndex minimum (groupValue column row)) groups

end DirectPlan

/-- The dense array holds the groups of these rows. -/
def DenseInvariant (plan : DirectPlan) (column : Nat) (minimum : Int64) (n : Nat) (rows : List StoredRow)
    (groups : List DirectPlan.DenseGroup) : Prop :=
  groups.length = n ∧ ∀ i group, groups[i]? = some group →
    plan.denseGroupOf column (DirectPlan.rowsAt column minimum rows i) = .ok group

/-- The group of one row more. -/
theorem denseGroupOf_snoc {rows : List StoredRow} {group : DirectPlan.DenseGroup}
    (h : plan.denseGroupOf column rows = .ok group) (hrows : ∀ row ∈ rows, (row.field column).isNull = false)
    (row : StoredRow) :
    plan.denseGroupOf column (rows ++ [row]) = (do
      let aggregates ← plan.denseFold group.aggregates row
      pure { present := true, key := if group.key.isNull then row.field column else group.key, aggregates }) := by
  obtain ⟨aggregates, haggregates, h⟩ := Except.bind_eq_ok.1 h
  obtain rfl := Except.ok.inj h
  rw [DirectPlan.denseGroupOf, KeyedGroups.foldlM_snoc, haggregates, Except.ok_bind]
  cases rows with
  | nil => rfl
  | cons first rest =>
    have hnull := hrows first List.mem_cons_self
    simp only [List.head?_cons, Option.map_some, Option.getD_some, hnull, Bool.false_eq_true, if_false]
    rfl

/-- A group fails when it fails on the rows so far. -/
theorem denseGroupOf_fails_iff {rows : List StoredRow} : (plan.denseGroupOf column rows).Fails ↔
    (rows.foldlM plan.denseFold (plan.projections.map fun _ ↦ {})).Fails := by
  rw [DirectPlan.denseGroupOf, Except.fails_bind]
  exact or_iff_left fun ⟨_, _, hfails⟩ ↦ Except.not_fails_ok _ hfails

/-- One row more. -/
theorem DenseInvariant.take {n : Nat} {rows : List StoredRow} {groups : List DirectPlan.DenseGroup}
    (h : DenseInvariant plan column minimum n rows groups)
    (hrows : ∀ row ∈ rows, (row.field column).isNull = false)
    (hindex : DirectPlan.denseIndex minimum (groupValue column row) < n) :
    (∃ groups', plan.denseTake column minimum groups row = .ok groups' ∧
      DenseInvariant plan column minimum n (rows ++ [row]) groups') ∨
    ((plan.denseTake column minimum groups row).Fails ∧
      (plan.denseGroupOf column (DirectPlan.rowsAt column minimum (rows ++ [row])
        (DirectPlan.denseIndex minimum (groupValue column row)))).Fails) := by
  obtain ⟨hlength, hgroups⟩ := h
  obtain ⟨group, hgroup⟩ : ∃ group,
      groups[DirectPlan.denseIndex minimum (groupValue column row)]? = some group :=
    ⟨_, List.getElem?_eq_getElem (by omega)⟩
  have hat : DirectPlan.rowsAt column minimum (rows ++ [row])
      (DirectPlan.denseIndex minimum (groupValue column row)) =
        DirectPlan.rowsAt column minimum rows (DirectPlan.denseIndex minimum (groupValue column row)) ++ [row] := by
    rw [DirectPlan.rowsAt, List.filter_append, List.filter_cons_of_pos (by simp), List.filter_nil]
    rfl
  have hsnoc := denseGroupOf_snoc (hgroups _ _ hgroup)
    (fun r hr ↦ hrows r (List.mem_filter.1 hr).1) row
  rw [← hat] at hsnoc
  rw [DirectPlan.denseTake, DirectPlan.denseInsert, hgroup]
  dsimp only
  rw [← DirectPlan.denseFold.eq_def plan group.aggregates row]
  -- The fold fails exactly when the group of this row does.
  rcases hfold : plan.denseFold group.aggregates row with e | aggregates
  · rw [hfold] at hsnoc
    exact .inr ⟨⟨e, rfl⟩, ⟨e, hsnoc⟩⟩
  · rw [hfold] at hsnoc
    refine .inl ⟨_, rfl, by rwa [List.length_set], fun i group' hi ↦ ?_⟩
    rw [List.getElem?_set] at hi
    split at hi
    · rename_i heq
      rw [← heq, hsnoc]
      rw [if_pos (by omega)] at hi
      exact congrArg Except.ok (Option.some.inj hi)
    · rename_i hne
      -- The row belongs to no other group.
      have hother : DirectPlan.rowsAt column minimum (rows ++ [row]) i =
          DirectPlan.rowsAt column minimum rows i := by
        rw [DirectPlan.rowsAt, List.filter_append, List.filter_cons_of_neg (by simpa using hne),
          List.filter_nil, List.append_nil]
        rfl
      rw [hother]
      exact hgroups i group' hi

/-- All rows. -/
theorem foldlM_denseTake {n : Nat} {rows : List StoredRow}
    (hrows : ∀ row ∈ rows, (row.field column).isNull = false)
    (hindex : ∀ row ∈ rows, DirectPlan.denseIndex minimum (groupValue column row) < n)
    {initial : List DirectPlan.DenseGroup} (hinitial : DenseInvariant plan column minimum n [] initial) :
    (∃ groups, rows.foldlM (plan.denseTake column minimum) initial = .ok groups ∧
      DenseInvariant plan column minimum n rows groups) ∨
    ((rows.foldlM (plan.denseTake column minimum) initial).Fails ∧
      ∃ i < n, (plan.denseGroupOf column (DirectPlan.rowsAt column minimum rows i)).Fails) := by
  have hrun : ∀ (rest seen : List StoredRow) (groups : List DirectPlan.DenseGroup),
      (∀ row ∈ seen ++ rest, (row.field column).isNull = false) →
      (∀ row ∈ rest, DirectPlan.denseIndex minimum (groupValue column row) < n) →
      DenseInvariant plan column minimum n seen groups →
      (∃ groups', rest.foldlM (plan.denseTake column minimum) groups = .ok groups' ∧
        DenseInvariant plan column minimum n (seen ++ rest) groups') ∨
      ((rest.foldlM (plan.denseTake column minimum) groups).Fails ∧
        ∃ i < n, (plan.denseGroupOf column (DirectPlan.rowsAt column minimum (seen ++ rest) i)).Fails) := by
    intro rest
    induction rest with
    | nil => exact fun seen groups _ _ h ↦ .inl ⟨groups, rfl, by rwa [List.append_nil]⟩
    | cons row rest ih =>
      intro seen groups hrows hindex h
      obtain ⟨hrow, hrest⟩ := List.forall_mem_cons.1 hindex
      rw [List.foldlM_cons]
      rcases h.take (fun r hr ↦ hrows r (List.mem_append_left _ hr)) hrow with
        ⟨groups', hgroups', h'⟩ | ⟨hfails, hfails'⟩
      · rw [hgroups', Except.ok_bind]
        rw [List.append_cons] at hrows ⊢
        exact ih _ _ hrows hrest h'
      -- A group that fails on some of its rows fails on all of them too.
      · refine .inr ⟨Except.fails_bind.2 (.inl hfails), _, hrow, ?_⟩
        rw [denseGroupOf_fails_iff] at hfails' ⊢
        obtain ⟨e, he⟩ := hfails'
        refine ⟨e, KeyedGroups.foldlM_error_of_append ?_ he⟩
        rw [List.append_cons seen row rest]
        exact (List.prefix_append (seen ++ [row]) rest).filter _
  exact hrun rows [] initial hrows hindex hinitial

/-! ### The row of a group -/

/-- What the streaming lambda computes for a group of these rows. -/
def groupTuple (projections : List StreamProjection) (rows : List EvalRow) : Except Error Tuple :=
  projections.mapM (streamColumn · rows)

/-- The aggregates of the dense path are those of the streaming lambda. -/
theorem denseStep_eq {field : Nat → Except Error Value} {planned : List DirectProjection}
    (hstreams : List.Forall₂ (Streams columns) planned projections)
    (hsupported : ∀ projection ∈ planned, DirectPlan.supportedDense column projection)
    (hfield : ∀ projection ∈ planned, ∀ column ∈ projection.column?, field column = .ok (row.field column))
    (states : List StreamColumnState) :
    DirectPlan.denseStep field planned (states.map (·.aggregate)) =
      streamStep projections states (bindRow columns row) >>= fun states' ↦ .ok (states'.map (·.aggregate)) := by
  induction hstreams generalizing states with
  | nil => cases states <;> rfl
  | @cons projection stream planned projections hstream _ ih =>
    obtain ⟨hhead, htail⟩ := List.forall_mem_cons.1 hfield
    obtain ⟨hkind, hkinds⟩ := List.forall_mem_cons.1 hsupported
    cases states with
    | nil => rfl
    | cons state states =>
      have hrest := ih hkinds htail states
      rw [List.map_cons, streamStep]
      cases hstream with
      -- A representative is remembered by the streaming state only, which its aggregate does not show.
      | @representative _ expression h =>
        have hstep : ∃ representative, (StreamProjection.representative expression).step state
            (bindRow columns row) = .ok { state with representative } := by
          rw [StreamProjection.step, h row]
          split
          · exact ⟨_, rfl⟩
          · exact ⟨state.representative, rfl⟩
        obtain ⟨representative, hstep⟩ := hstep
        rw [hstep, DirectPlan.denseStep]
        simp only [Except.pure_eq_ok, Except.ok_bind, hrest]
        cases streamStep projections states (bindRow columns row) <;> rfl
      | countRows =>
        rw [DirectPlan.denseStep, StreamProjection.step]
        simp only [Except.pure_eq_ok, Except.ok_bind, hrest]
        cases streamStep projections states (bindRow columns row) <;> rfl
      | @aggregate kind c expression h =>
        -- The dense path has no code for MAX, MIN and LONE-WOLF, which the plan does not admit.
        have hadd (value : Value) : DirectPlan.denseAdd kind state.aggregate value =
            state.aggregate.add kind value := by
          rw [DirectPlan.denseAdd, AggregateState.add.eq_def]
          cases kind with
          | count | sum | average => rfl
          | max | min | loneWolf => exact absurd hkind (by simp [DirectPlan.supportedDense])
        rw [DirectPlan.denseStep, StreamProjection.step, h row]
        simp only [hhead c rfl, Except.pure_eq_ok, Except.ok_bind, hadd, hrest]
        cases state.aggregate.add kind (row.field c) with
        | error e => rfl
        | ok aggregate => cases streamStep projections states (bindRow columns row) <;> rfl

end SkibidiQL
