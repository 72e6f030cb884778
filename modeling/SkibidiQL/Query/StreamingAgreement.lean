import SkibidiQL.Base.ListRules
import SkibidiQL.Query.StreamingColumns

/-!
# Streamed and stored groups

The streaming lambda of `executeSelect` and its branch over stored rows answer a grouped query with the
same multiset of rows exactly when every column of every group is aligned: a plain column that is NULL on
the first row of a group is NULL on all its rows, a count of lone wolves has a value to work on, and
without a row a plain column is NULL.
-/

namespace SkibidiQL

variable {rows : List EvalRow} {column : Expr} {projection : StreamProjection} {value : Value}

/-! ### One column of one group -/

/-- A count of lone wolves over no value. -/
def CountsNoWolves (rows : List EvalRow) (name : Bytes) (args : List Expr) : Prop :=
  isLoneWolfName name ∧ ∃ argument ∈ args.head?, nonNullValues argument rows = .ok []

/-- What makes the two branches agree on a column over the rows of a group. -/
def AlignedColumn (rows : List EvalRow) : Expr → Prop
  | .function name args _ _ => ¬CountsNoWolves rows name args
  | expression =>
    match rows with
    | [] => projectGroupedColumn [] expression = .ok .null
    | first :: rest => eval expression first = .ok .null → ∀ row ∈ rest, eval expression row = .ok .null

/-- What a streamed aggregate is over: rows, or the values of an argument. -/
theorem streamArgument_eq_some {name : Bytes} {args : List Expr} {argument : Option Expr}
    (h : streamArgument name args = some argument) :
    (argument = none ∧ name = lit "headcount" ∧
      (args = [] ∨ ∃ wildcard rest, args = .wildcard wildcard :: rest)) ∨
    (∃ a, argument = some a ∧ args = [a] ∧ (name = lit "headcount" → a.isWildcard = false)) := by
  rw [streamArgument.eq_def] at h
  split at h
  · split at h
    · exact .inl ⟨(Option.some.inj h).symm, ‹_›, .inl rfl⟩
    · exact absurd h nofun
  · split at h
    · exact .inl ⟨(Option.some.inj h).symm, ‹_›, .inr ⟨_, _, rfl⟩⟩
    · exact .inr ⟨_, (Option.some.inj h).symm, rfl, fun hname ↦ absurd hname ‹_›⟩
  · split at h
    · exact .inl ⟨(Option.some.inj h).symm, ‹_›, .inr ⟨_, _, rfl⟩⟩
    · exact absurd h nofun
  · rename_i argument' hwildcard
    refine .inr ⟨_, (Option.some.inj h).symm, rfl, fun _ ↦ ?_⟩
    cases argument' with
    | wildcard wildcard => exact absurd rfl (hwildcard wildcard)
    | _ => rfl
  · exact absurd h nofun

/-- The two ways of the streaming lambda to compute a column. -/
theorem streamProjection_eq_some (h : streamProjection column = some projection) :
    (∃ name args alias' argument, column = .function name args false alias' ∧
      isSimpleAggregateName name ∧ streamArgument name args = some argument ∧
      projection = .aggregate (AggregateKind.ofName name) argument) ∨
    ((∀ name args distinct alias', column ≠ .function name args distinct alias') ∧
      hasAggregate column = false ∧ projection = .representative column) := by
  rw [streamProjection.eq_def] at h
  split at h
  · rename_i name args distinct alias'
    split at h
    · exact absurd h nofun
    · rename_i hcond
      obtain ⟨hdistinct, hsimple⟩ : distinct = false ∧ isSimpleAggregateName name := by
        simpa using hcond
      obtain ⟨argument, hargument, rfl⟩ := Option.map_eq_some_iff.1 h
      rw [hdistinct]
      exact .inl ⟨name, args, alias', argument, rfl, hsimple, hargument, rfl⟩
  · rename_i hfunction
    split at h
    · exact absurd h nofun
    · rename_i haggregate
      exact .inr ⟨hfunction, Bool.eq_false_iff.2 haggregate, (Option.some.inj h).symm⟩

section Plain

variable (hfunction : ∀ name args distinct alias', column ≠ .function name args distinct alias')

include hfunction

/-- A column is aligned over no rows when it projects to NULL. -/
theorem alignedColumn_nil :
    AlignedColumn [] column ↔ projectGroupedColumn [] column = .ok .null := by
  cases column with
  | function name args distinct alias' => exact absurd rfl (hfunction _ _ _ _)
  | _ => rfl

/-- A column is aligned over some rows when a NULL in the first means NULL in all. -/
theorem alignedColumn_cons {first : EvalRow} {rest : List EvalRow} :
    AlignedColumn (first :: rest) column ↔
      (eval column first = .ok .null → ∀ row ∈ rest, eval column row = .ok .null) := by
  cases column with
  | function name args distinct alias' => exact absurd rfl (hfunction _ _ _ _)
  | _ => rfl

variable (haggregate : hasAggregate column = false)

include haggregate

/-- The value of a plain column over stored rows is that of the first row. -/
theorem eval_first_of_projectGroupedColumn {first : EvalRow} {rest : List EvalRow}
    (h : projectGroupedColumn (first :: rest) column = .ok value) : eval column first = .ok value := by
  have hwildcard : column.isWildcard = false := by
    cases column with
    | wildcard wildcard => exact absurd h nofun
    | _ => rfl
  rwa [projectGroupedColumn_cons haggregate hwildcard] at h

/-- A plain column: when the two branches agree. -/
theorem representative_agrees_iff (h : projectGroupedColumn rows column = .ok value) :
    streamColumn (.representative column) rows = .ok value ↔ AlignedColumn rows column := by
  rcases rows with _ | ⟨first, rest⟩
  · rw [alignedColumn_nil hfunction, h]
    exact eq_comm
  · have hfirst := eval_first_of_projectGroupedColumn hfunction haggregate h
    rw [alignedColumn_cons hfunction, hfirst, Except.ok.injEq]
    by_cases hnull : value = .null
    · rw [hnull, streamColumn_representative_eq_null, List.forall_mem_cons, hfirst, hnull]
      simp
    · have hisNull : value.isNull = false := by
        rw [← Bool.not_eq_true, Value.isNull_iff]
        exact hnull
      rw [streamColumn_representative_of_ne_null hfirst hisNull]
      simp [hnull]

/-- Where the two branches differ on a plain column, over at least one row, the stored value is NULL and
the streamed one is not. -/
theorem representative_null (hrows : rows ≠ []) (h : projectGroupedColumn rows column = .ok value)
    {value' : Value} (h' : streamColumn (.representative column) rows = .ok value') :
    value' = value ∨ value = .null ∧ value' ≠ .null := by
  obtain ⟨first, rest, rfl⟩ := List.exists_cons_of_ne_nil hrows
  have hfirst := eval_first_of_projectGroupedColumn hfunction haggregate h
  by_cases hnull : value = .null
  · by_cases hnull' : value' = .null
    · exact .inl (hnull'.trans hnull.symm)
    · exact .inr ⟨hnull, hnull'⟩
  · have hisNull : value.isNull = false := by
      rw [← Bool.not_eq_true, Value.isNull_iff]
      exact hnull
    rw [streamColumn_representative_of_ne_null hfirst hisNull] at h'
    exact .inl (Except.ok.inj h').symm

end Plain

section Aggregate

variable {name alias' : Bytes} {args : List Expr} {argument : Option Expr}
  (hsimple : isSimpleAggregateName name) (hargument : streamArgument name args = some argument)

include hsimple hargument

/-- An aggregate: the streamed value is the stored one, except that no lone wolves are counted as 0. -/
theorem streamColumn_function (h : projectGroupedColumn rows (.function name args false alias') = .ok value) :
    (¬CountsNoWolves rows name args →
      streamColumn (.aggregate (AggregateKind.ofName name) argument) rows = .ok value) ∧
    (CountsNoWolves rows name args → value = .null ∧
      streamColumn (.aggregate (AggregateKind.ofName name) argument) rows = .ok (countValue 0)) := by
  have haggregate : aggregate name args false rows = .ok value := by
    rw [projectGroupedColumn, evalGrouped.eq_def] at h
    · exact (if_pos (isAggregateName_of_simple hsimple)).symm.trans h
    · simp
  rcases streamArgument_eq_some hargument with ⟨rfl, rfl, hargs⟩ | ⟨a, rfl, rfl, hwildcard⟩
  · have hvalue : countValue rows.length = value := by
      rw [aggregate.eq_def, if_pos rfl] at haggregate
      rcases hargs with rfl | ⟨wildcard, rest, rfl⟩ <;> exact Except.ok.inj haggregate
    have hname : ¬isLoneWolfName (lit "headcount") := by decide
    refine ⟨fun _ ↦ ?_, fun h ↦ absurd h.1 hname⟩
    rw [streamColumn, foldColumn_countRows, ← hvalue]
    simp [StreamProjection.result, AggregateState.result, AggregateKind.ofName]
  · rw [aggregate_simple hsimple hwildcard] at haggregate
    obtain ⟨values, hvalues, hstored⟩ := Except.bind_eq_ok.1 haggregate
    have hstream : (streamColumn (.aggregate (AggregateKind.ofName name) (some a)) rows).toOption =
        (streamedResult (AggregateKind.ofName name) values).toOption := by
      rw [streamColumn_aggregate, hvalues]
      rfl
    have hwolves : CountsNoWolves rows name [a] ↔ isLoneWolfName name ∧ values = [] := by
      simp [CountsNoWolves, hvalues]
    simp only [hwolves, ← Except.toOption_eq_some, hstream]
    -- Over no values LONE-WOLF is streamed as 0 and stored as NULL; all else is the same.
    rcases eq_or_ne values [] with rfl | hne
    · have hkind := ofName_eq_loneWolf hsimple
      rw [storedResult_nil, Except.ok.injEq] at hstored
      rw [streamedResult_nil, ← hstored]
      refine ⟨fun h ↦ ?_, fun h ↦ ?_⟩
      · rw [if_neg fun h' ↦ h ⟨hkind.1 h', rfl⟩]
      · rw [hkind.2 h.1]
        exact ⟨rfl, rfl⟩
    · rw [streamedResult_eq hne (ne_null_of_nonNullValues hvalues), hstored]
      exact ⟨fun _ ↦ rfl, fun h ↦ absurd h.2 hne⟩

end Aggregate

/-- When the two branches agree on a column of a group. -/
theorem column_agrees_iff (hplan : streamProjection column = some projection)
    (h : projectGroupedColumn rows column = .ok value) :
    streamColumn projection rows = .ok value ↔ AlignedColumn rows column := by
  rcases streamProjection_eq_some hplan with
    ⟨name, args, alias', argument, rfl, hsimple, hargument, rfl⟩ | ⟨hfunction, haggregate, rfl⟩
  · obtain ⟨hsame, hwolves⟩ := streamColumn_function hsimple hargument h
    refine ⟨fun hstream hcond ↦ ?_, hsame⟩
    obtain ⟨rfl, hzero⟩ := hwolves hcond
    exact absurd (hzero.symm.trans hstream) nofun
  · exact representative_agrees_iff hfunction haggregate h

/-- Where they differ, over at least one row, the stored value is NULL and the streamed one is not. -/
theorem column_null (hplan : streamProjection column = some projection) (hrows : rows ≠ [])
    (h : projectGroupedColumn rows column = .ok value) {value' : Value}
    (h' : streamColumn projection rows = .ok value') : value' = value ∨ value = .null ∧ value' ≠ .null := by
  rcases streamProjection_eq_some hplan with
    ⟨name, args, alias', argument, rfl, hsimple, hargument, rfl⟩ | ⟨hfunction, haggregate, rfl⟩
  · obtain ⟨hsame, hwolves⟩ := streamColumn_function hsimple hargument h
    by_cases hcond : CountsNoWolves rows name args
    · obtain ⟨hnull, hzero⟩ := hwolves hcond
      rw [hzero] at h'
      obtain rfl := Except.ok.inj h'
      exact .inr ⟨hnull, nofun⟩
    · exact .inl (Except.ok.inj (h'.symm.trans (hsame hcond)))
  · exact representative_null hfunction haggregate hrows h h'

/-! ### All columns of one group -/

section Group

variable {projections : List StreamProjection} {states : List StreamColumnState}

/-- The first column is folded apart from the others. -/
theorem foldlM_streamStep_cons {state : StreamColumnState} {out : List StreamColumnState} :
    rows.foldlM (streamStep (projection :: projections)) (state :: states) = .ok out ↔
      ∃ state' states', foldColumn projection state rows = .ok state' ∧
        rows.foldlM (streamStep projections) states = .ok states' ∧ out = state' :: states' := by
  induction rows generalizing state states with
  | nil =>
    simp only [foldColumn, List.foldlM_nil, Except.pure_eq_ok, Except.ok.injEq]
    constructor
    · rintro rfl
      exact ⟨_, _, rfl, rfl, rfl⟩
    · rintro ⟨_, _, rfl, rfl, rfl⟩
      rfl
  | cons row rows ih =>
    rw [List.foldlM_cons, streamStep, bind_assoc, Except.bind_eq_ok, foldColumn, List.foldlM_cons,
      List.foldlM_cons]
    constructor
    · rintro ⟨state', hstate', h⟩
      rw [bind_assoc, Except.bind_eq_ok] at h
      obtain ⟨states', hstates', h⟩ := h
      obtain ⟨last, lasts, hlast, hlasts, rfl⟩ := ih.1 h
      exact ⟨last, lasts, Except.bind_eq_ok.2 ⟨_, hstate', hlast⟩,
        Except.bind_eq_ok.2 ⟨_, hstates', hlasts⟩, rfl⟩
    · rintro ⟨last, lasts, hlast, hlasts, rfl⟩
      obtain ⟨state', hstate', hlast⟩ := Except.bind_eq_ok.1 hlast
      obtain ⟨states', hstates', hlasts⟩ := Except.bind_eq_ok.1 hlasts
      refine ⟨state', hstate', ?_⟩
      rw [bind_assoc, Except.bind_eq_ok]
      exact ⟨states', hstates', ih.2 ⟨last, lasts, hlast, hlasts, rfl⟩⟩

/-- The columns are folded one by one. -/
theorem foldlM_streamStep {out : List StreamColumnState} :
    rows.foldlM (streamStep projections) (streamInitial projections) = .ok out ↔
      List.Forall₂ (fun projection state ↦ foldColumn projection {} rows = .ok state) projections out := by
  induction projections generalizing out with
  | nil =>
    have hnil : rows.foldlM (streamStep []) [] = .ok [] := by
      induction rows with
      | nil => rfl
      | cons row rows ih => exact ih
    rw [List.forall₂_nil_left_iff]
    exact ⟨fun h ↦ (Except.ok.inj (hnil.symm.trans h)).symm, fun h ↦ h ▸ hnil⟩
  | cons projection projections ih =>
    rw [streamInitial, List.map_cons, ← streamInitial, foldlM_streamStep_cons]
    constructor
    · rintro ⟨state, states, hstate, hstates, rfl⟩
      exact .cons hstate (ih.1 hstates)
    · rintro (_ | ⟨hstate, hstates⟩)
      exact ⟨_, _, hstate, ih.2 hstates, rfl⟩

/-- The output row of a streamed group, column by column. -/
theorem streamGroup_eq_ok_iff {values : Tuple} :
    (∃ states, rows.foldlM (streamStep projections) (streamInitial projections) = .ok states ∧
      streamResult projections states = values) ↔
      projections.mapM (streamColumn · rows) = .ok values := by
  rw [List.mapM_eq_ok_iff]
  simp only [foldlM_streamStep]
  constructor
  · rintro ⟨states, hstates, rfl⟩
    induction hstates with
    | nil => exact .nil
    | cons hstate _ ih =>
      refine .cons ?_ ih
      rw [streamColumn, hstate]
      rfl
  · intro h
    induction h with
    | nil => exact ⟨[], .nil, rfl⟩
    | @cons projection value projections values hvalue _ ih =>
      obtain ⟨state, hstate, hresult⟩ := Except.bind_eq_ok.1 hvalue
      obtain ⟨states, hstates, rfl⟩ := ih
      obtain rfl := Except.ok.inj hresult
      exact ⟨state :: states, .cons hstate hstates, rfl⟩

end Group

/-! ### All groups -/

section Groups

variable {groupBy : List Expr} {groups : List (Tuple × List EvalRow)}
  {projections : List StreamProjection}

/-- Without keys all rows fall into one group. -/
theorem collect_const (rows' : List EvalRow) :
    KeyedGroups.collect (groupKey []) [([], rows')] rows = .ok [([], rows' ++ rows)] := by
  induction rows generalizing rows' with
  | nil => rw [List.append_nil]; rfl
  | cons row rows ih =>
    rw [KeyedGroups.collect_cons, List.append_cons]
    exact ih _

/-- Grouping by nothing puts all rows into the one group there is. -/
theorem groupRows_eq_collect :
    groupRows groupBy rows = KeyedGroups.collect (groupKey groupBy) (initialGroups groupBy []) rows := by
  rw [groupRows, initialGroups]
  rcases groupBy with _ | ⟨expression, groupBy⟩
  · exact (collect_const []).symm
  · rfl

/-- What the streaming lambda computes, group by group. -/
def streamedRows (order : GroupOrder) (groupBy : List Expr) (projections : List StreamProjection) (rows : List EvalRow) :
    Except Error (List Tuple) := do
  (order.entries (← groupRows groupBy rows)).mapM fun group ↦ projections.mapM (streamColumn · group.2)

/-- The first states of the groups are those of no rows. -/
theorem folded_initialGroups :
    KeyedGroups.Folded (streamInitial projections) (streamStep projections) (initialGroups groupBy [])
      (initialGroups groupBy (streamInitial projections)) := by
  rw [initialGroups, initialGroups]
  split
  · exact .cons ⟨rfl, rfl⟩ .nil
  · exact .nil

/-- The lambda keeps accumulators, but its rows are those of the stored groups. -/
theorem streamed_toOption (order : GroupOrder) :
    (streamed order groupBy projections rows).toOption =
      (streamedRows order groupBy projections rows).toOption := by
  rw [streamed, streamedRows, groupRows_eq_collect]
  rcases KeyedGroups.accumulate_folded (groupKey groupBy) folded_initialGroups rows with
    ⟨states, groups, hstates, hgroups, hfolded⟩ | ⟨⟨e, he⟩, hfails⟩
  · rw [hstates, hgroups]
    refine (Except.toOption_eq_some.2 ?_).symm
    refine List.mapM_eq_ok_iff.2 ?_
    exact List.forall₂_map_right_iff.2
      ((order.entries_related hfolded).imp fun group state h ↦ streamGroup_eq_ok_iff.1 ⟨_, h.2, rfl⟩)
  · rw [he]
    refine (Except.toOption_eq_none.2 ?_).symm
    rw [Except.fails_bind]
    by_cases hcollect : (KeyedGroups.collect (groupKey groupBy) (initialGroups groupBy []) rows).Fails
    · exact .inl hcollect
    · obtain ⟨groups, hgroups⟩ := Except.not_fails_iff.1 hcollect
      obtain ⟨group, hgroup, e', he'⟩ := hfails groups hgroups
      refine .inr ⟨groups, hgroups, List.mapM_fails_iff.2 ⟨group, order.mem_entries.2 hgroup, ?_⟩⟩
      by_contra hok
      obtain ⟨values, hvalues⟩ := Except.not_fails_iff.1 hok
      obtain ⟨states, hstates, -⟩ := streamGroup_eq_ok_iff.2 hvalues
      exact absurd (he'.symm.trans hstates) nofun

end Groups

/-! ### Rows that differ by their NULLs -/

/-- The values agree but for NULLs on the left that are not NULL on the right. -/
def NullsOnly (values values' : Tuple) : Prop :=
  List.Forall₂ (fun value value' ↦ value' = value ∨ value = .null ∧ value' ≠ .null) values values'

/-- Whether a row has a NULL at a position. -/
def hasNullAt (i : ℕ) (values : Tuple) : Bool :=
  decide (values[i]? = some .null)

/-- What is NULL in the streamed row is NULL in the other. -/
theorem NullsOnly.hasNullAt {values values' : Tuple} (h : NullsOnly values values') (i : ℕ)
    (hnull : hasNullAt i values') : hasNullAt i values := by
  rw [SkibidiQL.hasNullAt, decide_eq_true_iff] at hnull ⊢
  obtain ⟨hi, -⟩ := List.getElem?_eq_some_iff.1 hnull
  have hi' : i < values.length := by rwa [h.length_eq]
  have hget := List.getElem?_eq_getElem hi'
  rcases List.Forall₂.getElem? h hget hnull with heq | ⟨-, hne⟩
  · rw [hget, ← heq]
  · exact absurd rfl hne

/-- Rows with the same NULLs agree. -/
theorem NullsOnly.eq {values values' : Tuple} (h : NullsOnly values values')
    (hnull : ∀ i, SkibidiQL.hasNullAt i values → SkibidiQL.hasNullAt i values') : values = values' := by
  have heq : List.Forall₂ (· = ·) values values' := by
    refine List.forall₂_of_getElem? h fun i value value' hvalue hvalue' hrel ↦ ?_
    rcases hrel with heq | ⟨rfl, hne⟩
    · exact heq.symm
    · have h' := hnull i (decide_eq_true hvalue)
      rw [SkibidiQL.hasNullAt, decide_eq_true_iff, hvalue'] at h'
      exact absurd (Option.some.inj h') hne
  rwa [List.forall₂_eq_eq_eq] at heq

/-- A permutation has as many NULLs at each position, so it cannot only lose some. -/
theorem eq_of_perm_of_nullsOnly {l m : List Tuple} (h : List.Forall₂ NullsOnly l m) (hperm : m.Perm l) :
    l = m := by
  have heq : List.Forall₂ (· = ·) l m := by
    refine List.forall₂_of_getElem? h fun j values values' hvalues hvalues' hrel ↦ hrel.eq fun i hnull ↦ ?_
    have hcount : l.countP (hasNullAt i) ≤ m.countP (hasNullAt i) := (hperm.countP_eq _).ge
    have hsame := h.imp_of_countP_le (fun _ _ hrel ↦ hrel.hasNullAt i) hcount
    exact (List.Forall₂.getElem? hsame hvalues hvalues').2 hnull
  rwa [List.forall₂_eq_eq_eq] at heq

/-! ### The two branches -/

/-- What the branch over stored rows computes without HAVING, group by group. -/
def storedRows (order : GroupOrder) (statement : SelectStmt) (rows : List EvalRow) : Except Error (List Tuple) := do
  (order.entries (← groupRows statement.groupBy rows)).mapM fun group ↦ projectGrouped statement group.2

/-- Every column of every group is one on which the two branches agree. -/
def Aligned (statement : SelectStmt) (rows : List EvalRow) : Prop :=
  ∀ groups, groupRows statement.groupBy rows = .ok groups →
    ∀ group ∈ groups, ∀ column ∈ statement.columns, AlignedColumn group.2 column

section Statement

variable {statement : SelectStmt} {projections : List StreamProjection}
  {groups : List (Tuple × List EvalRow)} {stored : List Tuple}

/-- Every column of a plan has its projection. -/
theorem forall₂_of_streamProjections (h : streamProjections statement = some projections) :
    List.Forall₂ (fun column projection ↦ streamProjection column = some projection)
      statement.columns projections := by
  rw [streamProjections] at h
  split at h
  · exact absurd h nofun
  · exact List.mapM_eq_some_iff.1 h

/-- Unless nothing is grouped by, a group has a row. -/
theorem group_ne_nil (h : groupRows statement.groupBy rows = .ok groups) (hrows : rows ≠ []) :
    ∀ group ∈ groups, group.2 ≠ [] := by
  rw [groupRows] at h
  split at h
  · obtain rfl := Except.ok.inj h
    simpa using hrows
  · have hsnoc : ∀ group, ∀ row ∈ rows, group ≠ [] → group ++ [row] ≠ [] := fun group row _ _ ↦ by simp
    exact KeyedGroups.forall_collect (P := (· ≠ [])) (fun row _ ↦ List.cons_ne_nil _ _) hsnoc
      (List.forall_mem_nil _) h

/-- The rows of one group agree when its columns are aligned. -/
theorem streamGroup_of_aligned {group : List EvalRow} {values : Tuple} {columns : List Expr}
    (hplan : List.Forall₂ (fun column projection ↦ streamProjection column = some projection)
      columns projections)
    (hvalues : columns.mapM (projectGroupedColumn group) = .ok values)
    (h : ∀ column ∈ columns, AlignedColumn group column) :
    projections.mapM (streamColumn · group) = .ok values := by
  rw [List.mapM_eq_ok_iff] at hvalues ⊢
  induction hplan generalizing values with
  | nil =>
    cases hvalues
    exact .nil
  | cons hcolumn _ ih =>
    obtain ⟨halign, haligns⟩ := List.forall_mem_cons.1 h
    cases hvalues with
    | cons hvalue hvalues => exact .cons ((column_agrees_iff hcolumn hvalue).2 halign) (ih hvalues haligns)

/-- A group that streams to its projection is aligned. -/
theorem aligned_of_streamGroup {group : List EvalRow} {values : Tuple} {columns : List Expr}
    (hplan : List.Forall₂ (fun column projection ↦ streamProjection column = some projection)
      columns projections)
    (hvalues : columns.mapM (projectGroupedColumn group) = .ok values)
    (h : projections.mapM (streamColumn · group) = .ok values) :
    ∀ column ∈ columns, AlignedColumn group column := by
  rw [List.mapM_eq_ok_iff] at hvalues h
  induction hplan generalizing values with
  | nil => exact List.forall_mem_nil _
  | cons hcolumn _ ih =>
    cases hvalues with
    | cons hvalue hvalues =>
      cases h with
      | cons hstream hstreams =>
        exact List.forall_mem_cons.2 ⟨(column_agrees_iff hcolumn hvalue).1 hstream, ih hvalues hstreams⟩

/-- Over at least one row, the streamed row has a NULL only where the stored row has one. -/
theorem streamGroup_null {group : List EvalRow} {values values' : Tuple} {columns : List Expr}
    (hplan : List.Forall₂ (fun column projection ↦ streamProjection column = some projection)
      columns projections)
    (hgroup : group ≠ []) (hvalues : columns.mapM (projectGroupedColumn group) = .ok values)
    (hvalues' : projections.mapM (streamColumn · group) = .ok values') :
    NullsOnly values values' := by
  rw [NullsOnly]
  rw [List.mapM_eq_ok_iff] at hvalues hvalues'
  induction hplan generalizing values values' with
  | nil =>
    cases hvalues
    cases hvalues'
    exact .nil
  | cons hcolumn _ ih =>
    cases hvalues with
    | cons hvalue hvalues =>
      cases hvalues' with
      | cons hvalue' hvalues' =>
        exact .cons (column_null hcolumn hgroup hvalue hvalue') (ih hvalues hvalues')

/-- Without a row there is at most one group. -/
theorem length_groups_le (h : groupRows statement.groupBy [] = .ok groups) : groups.length ≤ 1 := by
  rw [groupRows] at h
  split at h
  · obtain rfl := Except.ok.inj h
    exact Nat.le_refl 1
  · obtain rfl := Except.ok.inj h
    exact Nat.zero_le 1

/-- Streamed rows that are a permutation of the stored ones are the stored ones: a row that differs has
fewer NULLs, and the NULLs of each column are as many. -/
theorem eq_of_perm {order : GroupOrder} {streamedGroups : List Tuple}
    (hplan : streamProjections statement = some projections)
    (hgroups : groupRows statement.groupBy rows = .ok groups)
    (hstored : (order.entries groups).mapM (fun group ↦ projectGrouped statement group.2) = .ok stored)
    (hstreamed : (order.entries groups).mapM (fun group ↦ projections.mapM (streamColumn · group.2)) =
      .ok streamedGroups)
    (hperm : streamedGroups.Perm stored) : streamedGroups = stored := by
  rw [List.mapM_eq_ok_iff] at hstored hstreamed
  rcases eq_or_ne rows [] with rfl | hrows
  · have hlength : stored.length ≤ 1 := by
      rw [← hstored.length_eq, (order.entries_perm groups).length_eq]
      exact length_groups_le hgroups
    rcases stored with _ | ⟨values, _ | _⟩
    · exact hperm.eq_nil
    · exact List.perm_singleton.1 hperm
    · simp at hlength
  · have hnull : List.Forall₂ NullsOnly stored streamedGroups :=
      hstored.through hstreamed fun group hgroup values values' hvalues hvalues' ↦
        streamGroup_null (forall₂_of_streamProjections hplan) (group_ne_nil hgroups hrows group (order.mem_entries.1 hgroup))
          hvalues hvalues'
    exact (eq_of_perm_of_nullsOnly hnull hperm).symm

/-- The streaming lambda and the branch over stored rows give the same rows, in some order, exactly when
the columns are aligned. -/
theorem streamedRows_perm_iff {order : GroupOrder} (hplan : streamProjections statement = some projections)
    (hstored : storedRows order statement rows = .ok stored) :
    (∃ output, streamedRows order statement.groupBy projections rows = .ok output ∧ output.Perm stored) ↔
      Aligned statement rows := by
  obtain ⟨groups, hgroups, hmap⟩ := Except.bind_eq_ok.1 hstored
  rw [streamedRows, hgroups, Except.ok_bind]
  constructor
  · rintro ⟨output, houtput, hperm⟩ groups' hgroups'
    obtain rfl := Except.ok.inj (hgroups.symm.trans hgroups')
    obtain rfl := eq_of_perm hplan hgroups hmap houtput hperm
    rw [List.mapM_eq_ok_iff] at hmap houtput
    have halign := (hmap.mp (fun group values hvalues hstream ↦
      aligned_of_streamGroup (forall₂_of_streamProjections hplan) hvalues hstream) houtput).forall_left
    exact fun group hgroup ↦ halign group (order.mem_entries.2 hgroup)
  · intro haligned
    refine ⟨stored, List.mapM_ok_imp hmap fun group hgroup values hvalues ↦ ?_, .refl _⟩
    exact streamGroup_of_aligned (forall₂_of_streamProjections hplan) hvalues
      (haligned groups hgroups group (order.mem_entries.1 hgroup))

end Statement

end SkibidiQL
