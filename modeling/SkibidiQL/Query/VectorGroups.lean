import SkibidiQL.Query.StreamingAgreement
import SkibidiQL.Query.VectorRows

/-!
# Groups of vectorized rows

The state that `executeVectorizedSelect` keeps for a group is that of the streaming lambda, taken apart into two
vectors (`VectorGroup.stream`), and a row of a batch changes both alike (`groupColumns_lockstep`).
-/

namespace SkibidiQL

open Bytes

variable {rows : List EvalRow} {row : EvalRow} {vector : TypedVector} {i : Nat} {value : Value} {name : Bytes}
  {expression : Expr} {projection : StreamProjection}

/-! ### Aggregates -/

/-- The state of the aggregate as the streaming lambda keeps it. -/
def VectorAggregate.stream (state : VectorAggregate) : AggregateState where
  count := state.count
  sum := state.sum
  allIntegers := state.allIntegers
  extremum := state.extremum

theorem mem_vectorAggregateNames (h : vectorAggregateNames.contains name) :
    name = lit "headcount" ∨ name = lit "stack" ∨ name = lit "mid" ∨ name = lit "goat" ∨ name = lit "L" := by
  simpa [vectorAggregateNames] using h

/-- Results that are the same up to the form of the state. -/
abbrev SameState (state : VectorAggregate) (stream : AggregateState) : Prop :=
  state.stream = stream

/-- A number taken in, or an exception. -/
theorem VectorAggregate.addNumber_lockstep {kind : AggregateKind} (hkind : kind ≠ .loneWolf) (state : VectorAggregate)
    (value : Value) :
    Except.Lockstep SameState
      (if value.isNumeric then pure (state.addNumber value (value.type == .integer))
        else throw (lit "Numeric aggregate on non-number") : Except Error VectorAggregate)
      (if value.isNumeric then pure (state.stream.addNumber kind value)
        else throw (lit "Numeric aggregate on non-number") : Except Error AggregateState) := by
  split
  · refine .ok ?_
    rw [SameState, AggregateState.addNumber, if_neg hkind]
    rfl
  · exact .error _ _

/-- A value that no shortcut takes. -/
theorem VectorAggregate.addValue_lockstep (hname : vectorAggregateNames.contains name) (state : VectorAggregate)
    (hnull : value.isNull = false) :
    Except.Lockstep SameState (state.addValue name value) (state.stream.add (.ofName name) value) := by
  rw [AggregateState.add.eq_def, hnull, if_neg Bool.false_ne_true]
  rcases mem_vectorAggregateNames hname with rfl | rfl | rfl | rfl | rfl
  · exact .ok rfl
  · exact addNumber_lockstep (show AggregateKind.sum ≠ .loneWolf by decide) state value
  · exact addNumber_lockstep (show AggregateKind.average ≠ .loneWolf by decide) state value
  · exact .ok rfl
  · exact .ok rfl

theorem isNumeric_eq (value : Value) :
    value.isNumeric = (value.type == .integer || value.type == .real || value.type == .boolean) := by
  cases value <;> rfl

/-- What only throws is in lockstep with what throws at once. -/
theorem lockstep_thrown {α β : Type} {R : α → β → Prop} {x : Except Error α} {y : Except Error β}
    (h : Except.Lockstep R x y) : Except.Lockstep R (thrown x) y := by
  cases h with
  | ok h => exact .ok h
  | error e e' => exact .error _ _

/-- The shortcut of sums and averages on vectors of numbers. -/
theorem VectorAggregate.shortcut_lockstep {kind : AggregateKind} (hkind : kind ≠ .loneWolf) (state : VectorAggregate)
    (hshows : vector.ShowsAt i value) (hnull : value.isNull = false) :
    Except.Lockstep SameState
      (if vector.type == .integer || vector.type == .real || vector.type == .boolean then do
          let element ← elementAt vector.storage.elements i
          pure (state.addNumber element (vector.type == .integer))
        else do
          let value ← vector.value i
          thrown (if value.isNumeric then pure (state.addNumber value (value.type == .integer))
            else throw (lit "Numeric aggregate on non-number")) : Except VectorError VectorAggregate)
      (if value.isNumeric then pure (state.stream.addNumber kind value)
        else throw (lit "Numeric aggregate on non-number") : Except Error AggregateState) := by
  obtain ⟨htype, helement⟩ := hshows.element hnull
  have hnumber := addNumber_lockstep hkind state value
  rw [htype, ← isNumeric_eq, helement, hshows.value_eq, Except.ok_bind, Except.ok_bind]
  cases hnumeric : value.isNumeric with
  | true =>
    rw [hnumeric, if_pos rfl, if_pos rfl] at hnumber
    exact lockstep_thrown hnumber
  | false =>
    rw [hnumeric] at hnumber
    exact lockstep_thrown hnumber

/-- The step of an aggregate without DISTINCT. -/
theorem VectorAggregate.step_lockstep (hname : vectorAggregateNames.contains name) (state : VectorAggregate)
    (hshows : vector.ShowsAt i value) :
    Except.Lockstep SameState (state.step name false vector i) (state.stream.add (.ofName name) value) := by
  rw [step, hshows.isNull_eq, Except.ok_bind]
  cases hnull : value.isNull with
  | true =>
    rw [AggregateState.add.eq_def, hnull]
    exact .ok rfl
  | false =>
    have hvalue := addValue_lockstep hname state hnull
    have hrest : (do let value ← vector.value i; thrown (addDistinct name false state value)) =
        thrown (addValue name state value) := by
      rw [hshows.value_eq]
      rfl
    rw [AggregateState.add.eq_def, hnull, if_neg Bool.false_ne_true] at hvalue ⊢
    rcases mem_vectorAggregateNames hname with rfl | rfl | rfl | rfl | rfl
    · exact .ok rfl
    · exact shortcut_lockstep (show AggregateKind.sum ≠ .loneWolf by decide) state hshows hnull
    · exact shortcut_lockstep (show AggregateKind.average ≠ .loneWolf by decide) state hshows hnull
    · exact hrest.symm ▸ lockstep_thrown hvalue
    · exact hrest.symm ▸ lockstep_thrown hvalue

/-- The result of a vector aggregate is the streamed one. -/
theorem VectorAggregate.result_eq (hname : vectorAggregateNames.contains name) (state : VectorAggregate) :
    state.result name = state.stream.result (.ofName name) := by
  rcases mem_vectorAggregateNames hname with rfl | rfl | rfl | rfl | rfl
  · rfl
  · rfl
  · rfl
  · rfl
  · rfl

/-! ### Groups -/

/-- The state of the group as the streaming lambda keeps it: one entry for each column. -/
def VectorGroup.stream (group : VectorGroup) : List StreamColumnState :=
  List.zipWith (fun representative aggregate ↦ ⟨representative, VectorAggregate.stream aggregate⟩)
    group.representatives group.aggregates

/-- The group has the states of the columns, and an entry in both vectors for each. -/
structure VectorGroup.Keeps (group : VectorGroup) (states : List StreamColumnState) : Prop where
  representatives : group.representatives.length = states.length
  aggregates : group.aggregates.length = states.length
  stream : group.stream = states

variable {group : VectorGroup} {states : List StreamColumnState} {state : StreamColumnState} {index : Nat}

/-- The entries of a column. -/
theorem VectorGroup.Keeps.entries (h : group.Keeps states) (hstate : states[index]? = some state) :
    group.representatives[index]? = some state.representative ∧
      ∃ aggregate, group.aggregates[index]? = some aggregate ∧ VectorAggregate.stream aggregate = state.aggregate := by
  have hlt := (List.getElem?_eq_some_iff.1 hstate).1
  obtain ⟨representative, hrepresentative⟩ : ∃ representative, group.representatives[index]? = some representative :=
    ⟨_, List.getElem?_eq_getElem (h.representatives ▸ hlt)⟩
  obtain ⟨aggregate, haggregate⟩ : ∃ aggregate, group.aggregates[index]? = some aggregate :=
    ⟨_, List.getElem?_eq_getElem (h.aggregates ▸ hlt)⟩
  rw [← h.stream, VectorGroup.stream, List.getElem?_zipWith, hrepresentative, haggregate] at hstate
  obtain rfl := Option.some.inj hstate
  exact ⟨hrepresentative, aggregate, haggregate, rfl⟩

/-- Setting an element on both sides. -/
theorem zipWith_set {α β γ : Type} (f : α → β → γ) (l : List α) (m : List β) (index : Nat) (a : α) (b : β) :
    List.zipWith f (l.set index a) (m.set index b) = (List.zipWith f l m).set index (f a b) := by
  induction l generalizing m index with
  | nil => rfl
  | cons x l ih =>
    cases m with
    | nil => cases index <;> rfl
    | cons y m =>
      cases index with
      | zero => rfl
      | succ index => exact congrArg _ (ih m index)

/-- A column whose entries change. -/
theorem VectorGroup.Keeps.set (h : group.Keeps states) (index : Nat) (representative : Value)
    (aggregate : VectorAggregate) :
    VectorGroup.Keeps ⟨group.representatives.set index representative, group.aggregates.set index aggregate⟩
      (states.set index ⟨representative, aggregate.stream⟩) where
  representatives := by rw [List.length_set, List.length_set, h.representatives]
  aggregates := by rw [List.length_set, List.length_set, h.aggregates]
  stream := by
    rw [← h.stream, VectorGroup.stream, VectorGroup.stream]
    exact zipWith_set ..

theorem set_of_getElem? {α : Type} {l : List α} {a : α} (h : l[index]? = some a) : l.set index a = l := by
  obtain ⟨hlt, rfl⟩ := List.getElem?_eq_some_iff.1 h
  exact List.set_getElem_self hlt

/-- A column whose aggregate changes. -/
theorem VectorGroup.Keeps.setAggregate (h : group.Keeps states) (hstate : states[index]? = some state)
    (aggregate : VectorAggregate) :
    VectorGroup.Keeps { group with aggregates := group.aggregates.set index aggregate }
      (states.set index { state with aggregate := aggregate.stream }) := by
  have hset := h.set index state.representative aggregate
  rwa [set_of_getElem? (h.entries hstate).1] at hset

/-- A column whose representative changes. -/
theorem VectorGroup.Keeps.setRepresentative (h : group.Keeps states) (hstate : states[index]? = some state)
    (representative : Value) :
    VectorGroup.Keeps { group with representatives := group.representatives.set index representative }
      (states.set index { state with representative }) := by
  obtain ⟨-, aggregate, haggregate, hstream⟩ := h.entries hstate
  have hset := h.set index representative aggregate
  rwa [set_of_getElem? haggregate, hstream] at hset

section Column

variable {projected : List (Option TypedVector)} {shown : Option TypedVector}
  (hprojected : projected[index]? = some shown) (hshown : ShowsColumn rows expression shown)
  (hrow : rows[i]? = some row) (hgroup : group.Keeps states) (hstate : states[index]? = some state)

include hprojected hshown hrow hgroup hstate

/-- A step of an aggregate of the select list. -/
theorem aggregateColumn_lockstep {args : List Expr} {alias' : Bytes} {argument : Option Expr}
    (hexpression : expression = .function name args false alias') (hsupported : supportedColumn expression)
    (hargument : streamArgument name args = some argument) :
    Except.Lockstep (fun group' state' ↦ VectorGroup.Keeps group' (states.set index state'))
      (groupColumn projected i expression index group)
      (StreamProjection.step state row (.aggregate (.ofName name) argument)) := by
  subst hexpression
  obtain ⟨-, aggregate, haggregate, hstream⟩ := hgroup.entries hstate
  obtain ⟨hname, hargs⟩ := Bool.and_eq_true_iff.1 hsupported
  rw [groupColumn, elementAt_of_getElem? haggregate, Except.ok_bind]
  rcases streamArgument_eq_some hargument with ⟨rfl, rfl, hcounts⟩ | ⟨a, rfl, rfl, hwildcard⟩
  · have hcount : countWildcard (lit "headcount") args = true := by
      rcases hcounts with rfl | ⟨wildcard, rest, rfl⟩ <;> rfl
    rw [hcount, if_pos rfl]
    have hset := hgroup.setAggregate hstate { aggregate with count := aggregate.count + 1 }
    refine .ok ?_
    rw [← hstream]
    exact hset
  · have hplain : a.isWildcard = false := by
      cases a with
      | wildcard wildcard => cases hwildcard (eq_of_beq hargs)
      | _ => rfl
    have hcount : countWildcard name [a] = false := by
      rw [countWildcard, List.head?_cons, Option.any_some, hplain, List.isEmpty_cons, Bool.or_self, Bool.and_false]
    have hscalar : vectorScalar (.function name [a] false alias') = some a := by
      rw [vectorScalar, hplain]
      rfl
    cases hshown with
    | none hnone =>
      rw [hscalar] at hnone
      cases hnone
    | some hsome hshows =>
      obtain rfl := Option.some.inj (hscalar.symm.trans hsome)
      obtain ⟨value, hvalue, hat⟩ := hshows.at hrow
      rw [hcount, if_neg Bool.false_ne_true, elementAt_of_getElem? hprojected, StreamProjection.step, hvalue,
        ← hstream]
      refine (aggregate.step_lockstep hname hat).bind fun aggregate' stream' hsame ↦ .ok ?_
      rw [← show aggregate'.stream = stream' from hsame]
      exact hgroup.setAggregate hstate aggregate'

/-- A step of another column of the select list. -/
theorem representativeColumn_lockstep
    (hfunction : ∀ name args distinct alias', expression ≠ .function name args distinct alias') :
    Except.Lockstep (fun group' state' ↦ VectorGroup.Keeps group' (states.set index state'))
      (groupColumn projected i expression index group)
      (StreamProjection.step state row (.representative expression)) := by
  obtain ⟨hrepresentative, -⟩ := hgroup.entries hstate
  have hcolumn : groupColumn projected i expression index group = (do
      let representative ← elementAt group.representatives index
      if representative.isNull then do
        let value ← (← dereference (← elementAt projected index)).value i
        pure { group with representatives := group.representatives.set index value }
      else pure group) := by
    cases expression with
    | function name args distinct alias' => exact absurd rfl (hfunction name args distinct alias')
    | _ => rfl
  rw [hcolumn, elementAt_of_getElem? hrepresentative, Except.ok_bind, StreamProjection.step,
    elementAt_of_getElem? hprojected, Except.ok_bind]
  -- The first value that is not NULL is remembered; from then on the column is not read.
  split
  · cases hshown with
    | none hnone =>
      have hwildcard : (eval expression row).Fails := by
        cases expression with
        | wildcard wildcard => exact ⟨_, rfl⟩
        | function name args distinct alias' => exact absurd rfl (hfunction name args distinct alias')
        | _ => cases hnone
      obtain ⟨e, he⟩ := hwildcard
      rw [he]
      exact .error _ _
    | some hsome hshows =>
      have hself : vectorScalar expression = some expression := by
        cases expression with
        | wildcard wildcard => cases hsome
        | function name args distinct alias' => exact absurd rfl (hfunction name args distinct alias')
        | _ => rfl
      obtain rfl := Option.some.inj (hself.symm.trans hsome)
      obtain ⟨value, hvalue, hat⟩ := hshows.at hrow
      rw [hvalue, dereference, Except.pure_eq_ok, Except.ok_bind, hat.value_eq]
      exact .ok (hgroup.setRepresentative hstate value)
  · refine .ok ?_
    rw [set_of_getElem? hstate]
    exact hgroup

end Column

/-- A step of a column of the select list. -/
theorem groupColumn_lockstep {projected : List (Option TypedVector)} {shown : Option TypedVector}
    (hplan : streamProjection expression = some projection) (hsupported : supportedColumn expression)
    (hprojected : projected[index]? = some shown) (hshown : ShowsColumn rows expression shown)
    (hrow : rows[i]? = some row) (hgroup : group.Keeps states) (hstate : states[index]? = some state) :
    Except.Lockstep (fun group' state' ↦ VectorGroup.Keeps group' (states.set index state'))
      (groupColumn projected i expression index group) (projection.step state row) := by
  rcases streamProjection_eq_some hplan with ⟨name, args, alias', argument, hexpression, -, hargument, rfl⟩ |
    ⟨hfunction, -, rfl⟩
  · exact aggregateColumn_lockstep hprojected hshown hrow hgroup hstate hexpression hsupported hargument
  · exact representativeColumn_lockstep hprojected hshown hrow hgroup hstate hfunction

/-- The steps of the columns from one on; `done` has the states of those before it. -/
theorem groupColumns_lockstep {columns : List Expr} {projections : List StreamProjection}
    {projected rest : List (Option TypedVector)} {done : List StreamColumnState}
    (hplan : List.Forall₂ (fun column projection ↦ streamProjection column = some projection) columns projections)
    (hsupported : ∀ column ∈ columns, supportedColumn column)
    (hshown : List.Forall₂ (ShowsColumn rows) columns rest) (hrest : projected.drop done.length = rest)
    (hrow : rows[i]? = some row) (hlength : states.length = columns.length)
    (hgroup : group.Keeps (done ++ states)) :
    Except.Lockstep (fun group' states' ↦ VectorGroup.Keeps group' (done ++ states') ∧ states'.length = columns.length)
      (groupColumns projected i columns done.length group) (streamStep projections states row) := by
  induction hplan generalizing rest done states group with
  | nil =>
    obtain rfl := List.eq_nil_of_length_eq_zero hlength
    exact .ok ⟨hgroup, rfl⟩
  | @cons column projection columns projections hcolumn _ ih =>
    obtain ⟨hsupportedColumn, hsupportedColumns⟩ := List.forall_mem_cons.1 hsupported
    cases states with
    | nil => cases hlength
    | cons state states =>
      cases hshown with
      | @cons _ shown _ rest hshownColumn hshownColumns =>
        have hprojected : projected[done.length]? = some shown := by
          rw [← List.head?_drop, hrest]
          rfl
        have hstate : (done ++ state :: states)[done.length]? = some state := by
          rw [List.getElem?_append_right (Nat.le_refl _), Nat.sub_self]
          rfl
        rw [groupColumns, streamStep]
        refine (groupColumn_lockstep hcolumn hsupportedColumn hprojected hshownColumn hrow hgroup hstate).bind
          fun group' state' hgroup' ↦ ?_
        -- The group keeps its columns in place, while the streaming lambda takes their states one by one.
        have hset : (done ++ state :: states).set done.length state' = (done ++ [state']) ++ states := by
          rw [List.set_append_right _ _ (Nat.le_refl _), Nat.sub_self, List.append_assoc]
          rfl
        rw [hset] at hgroup'
        have hdrop : projected.drop (done ++ [state']).length = rest := by
          rw [List.length_append, List.length_singleton, ← List.drop_drop, hrest]
          rfl
        have hnext := ih hsupportedColumns hshownColumns hdrop (Nat.succ.inj hlength) hgroup'
        rw [List.length_append, List.length_singleton] at hnext
        rw [← Except.bind_ok (groupColumns projected i columns (done.length + 1) group')]
        refine hnext.bind fun group'' states'' hgroup'' ↦ .ok ?_
        rw [List.append_assoc] at hgroup''
        exact ⟨hgroup''.1, congrArg Nat.succ hgroup''.2⟩

/-! ### Groups of a statement -/

variable {statement : SelectStmt} {projections : List StreamProjection}

/-- A group, which may be new, has the states of the columns. -/
def GroupKeeps (width : Nat) (group : VectorGroup) (states : List StreamColumnState) : Prop :=
  states.length = width ∧ (initializeGroup width group).Keeps states

/-- A group that is initialized keeps its states. -/
theorem initializeGroup_keeps {width : Nat} (h : group.Keeps states) (hwidth : states.length = width) :
    GroupKeeps width group states := by
  refine ⟨hwidth, ?_⟩
  rw [initializeGroup]
  split
  · exact h
  · next hempty =>
    obtain ⟨hrepresentatives, haggregates⟩ : group.representatives = [] ∧ group.aggregates = [] := by
      simpa using hempty
    obtain rfl : width = 0 := by rw [← hwidth, ← h.representatives, hrepresentatives]; rfl
    have hgroup : group = { representatives := List.replicate 0 .null, aggregates := List.replicate 0 {} } := by
      cases group
      exact congrArg₂ VectorGroup.mk hrepresentatives haggregates
    rwa [← hgroup]

/-- A new group. -/
theorem groupKeeps_new (hlength : projections.length = statement.columns.length) :
    GroupKeeps statement.columns.length {} (streamInitial projections) := by
  have hinitial : streamInitial projections = List.replicate statement.columns.length {} := by
    rw [streamInitial, List.map_const', hlength]
  rw [hinitial]
  refine ⟨List.length_replicate, ?_⟩
  refine ⟨?_, ?_, ?_⟩
  · show (List.replicate _ _).length = _
    rw [List.length_replicate, List.length_replicate]
  · show (List.replicate _ _).length = _
    rw [List.length_replicate, List.length_replicate]
  · exact List.zipWith_replicate'

/-- The output column of a group is the streamed one. -/
theorem groupOutputColumn_eq (hplan : streamProjection expression = some projection)
    (hsupported : supportedColumn expression) (hgroup : group.Keeps states) (hstate : states[index]? = some state) :
    groupOutputColumn group index expression = .ok (projection.result state) := by
  obtain ⟨hrepresentative, aggregate, haggregate, hstream⟩ := hgroup.entries hstate
  rcases streamProjection_eq_some hplan with ⟨name, args, alias', argument, rfl, -, -, rfl⟩ | ⟨hfunction, -, rfl⟩
  · obtain ⟨hname, -⟩ := Bool.and_eq_true_iff.1 hsupported
    rw [groupOutputColumn, elementAt_of_getElem? haggregate, Except.ok_bind, aggregate.result_eq hname, hstream]
    rfl
  · cases expression with
    | function name args distinct alias' => exact absurd rfl (hfunction name args distinct alias')
    | _ => exact elementAt_of_getElem? hrepresentative

/-- The output columns of a group are the streamed ones. -/
theorem groupOutputColumns_eq {columns : List Expr} {done : List StreamColumnState}
    (hplan : List.Forall₂ (fun column projection ↦ streamProjection column = some projection) columns projections)
    (hsupported : ∀ column ∈ columns, supportedColumn column) (hlength : states.length = columns.length)
    (hgroup : group.Keeps (done ++ states)) :
    (columns.zipIdx done.length).mapM (fun item ↦ groupOutputColumn group item.2 item.1) =
      .ok (streamResult projections states) := by
  induction hplan generalizing done states with
  | nil => rfl
  | @cons column projection columns projections hcolumn _ ih =>
    obtain ⟨hsupportedColumn, hsupportedColumns⟩ := List.forall_mem_cons.1 hsupported
    cases states with
    | nil => cases hlength
    | cons state states =>
      have hstate : (done ++ state :: states)[done.length]? = some state := by
        rw [List.getElem?_append_right (Nat.le_refl _), Nat.sub_self]
        rfl
      rw [List.append_cons] at hgroup
      have hnext := ih hsupportedColumns (Nat.succ.inj hlength) hgroup
      rw [List.length_append, List.length_singleton] at hnext
      rw [← List.append_cons] at hgroup
      rw [List.zipIdx_cons, List.mapM_cons, groupOutputColumn_eq hcolumn hsupportedColumn hgroup hstate, Except.ok_bind,
        hnext]
      rfl

/-- The output row of a group. -/
theorem groupOutput_eq (hplan : streamProjections statement = some projections)
    (hsupported : ∀ column ∈ statement.columns, supportedColumn column)
    (hgroup : GroupKeeps statement.columns.length group states) :
    groupOutput statement group = .ok (streamResult projections states) :=
  @groupOutputColumns_eq _ _ _ _ [] (forall₂_of_streamProjections hplan) hsupported hgroup.1 hgroup.2

end SkibidiQL
