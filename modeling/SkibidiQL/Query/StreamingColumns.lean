import SkibidiQL.Query.Select
import SkibidiQL.Storage.ValueOrder

/-!
# Columns of a group, streamed and stored

What the streaming lambda and the branch over stored rows compute for one column of one group. Over at
least one row they differ in two places only: the lambda takes the first value that is not null where the
other takes the value on the first row, and it counts no lone wolves where the other answers NULL.
-/

namespace SkibidiQL

variable {expression argument : Expr} {row : EvalRow} {rows : List EvalRow}

/-! ### Plain expressions -/

/-- Without aggregates, the rows of a group stand for the first of them. -/
theorem evalGrouped_cons (h : hasAggregate expression = false) :
    evalGrouped expression (row :: rows) = eval expression row := by
  induction expression using Expr.operatorInduction with
  | binary op left right alias' ihleft ihright =>
    rw [hasAggregate, Bool.or_eq_false_iff] at h
    rw [evalGrouped, eval, ihleft h.1, ihright h.2]
  | unary op operand alias' ih =>
    rw [hasAggregate] at h
    rw [evalGrouped, eval, ih h]
  | function name args distinct alias' =>
    rw [hasAggregate] at h
    rw [evalGrouped, if_neg (by rw [h]; exact Bool.false_ne_true)]
  | _ => rw [evalGrouped] <;> exact nofun

/-- A column without aggregates is projected from the first row of its group. -/
theorem projectGroupedColumn_cons (h : hasAggregate expression = false)
    (hwildcard : expression.isWildcard = false) :
    projectGroupedColumn (row :: rows) expression = eval expression row := by
  rw [projectGroupedColumn, evalGrouped_cons h]
  rintro wildcard rfl
  exact absurd hwildcard nofun

/-- The state of a plain column after these rows. -/
def foldColumn (projection : StreamProjection) (state : StreamColumnState) (rows : List EvalRow) :
    Except Error StreamColumnState :=
  rows.foldlM (fun state row ↦ projection.step state row) state

/-- A plain column keeps the first value that is not null. -/
theorem foldColumn_representative_of_ne_null {state : StreamColumnState}
    (h : state.representative.isNull = false) (rows : List EvalRow) :
    foldColumn (.representative expression) state rows = .ok state := by
  induction rows with
  | nil => rfl
  | cons row rows ih =>
    rw [foldColumn, List.foldlM_cons, StreamProjection.step, h]
    exact ih

/-- The first row fixes the representative. -/
theorem foldColumn_representative_cons {value : Value} (h : eval expression row = .ok value) :
    foldColumn (.representative expression) {} (row :: rows) =
      foldColumn (.representative expression) { representative := value } rows := by
  rw [foldColumn, List.foldlM_cons, StreamProjection.step, h]
  rfl

/-- A plain column is null in the end when it is null on all rows. -/
theorem foldColumn_representative_eq_null {state : StreamColumnState} :
    foldColumn (.representative expression) {} rows = .ok state ∧ state.representative = .null ↔
      state = {} ∧ ∀ row ∈ rows, eval expression row = .ok .null := by
  induction rows with
  | nil =>
    constructor
    · rintro ⟨h, -⟩
      exact ⟨(Except.ok.inj h).symm, by simp⟩
    · rintro ⟨rfl, -⟩
      exact ⟨rfl, rfl⟩
  | cons row rows ih =>
    rcases hvalue : eval expression row with e | value
    · rw [foldColumn, List.foldlM_cons, StreamProjection.step, hvalue]
      simp [hvalue, Value.isNull, Value.type]
    · rw [foldColumn_representative_cons hvalue, List.forall_mem_cons, hvalue, Except.ok.injEq]
      by_cases hnull : value = .null
      · rw [hnull, ih]
        simp
      · have hisNull : value.isNull = false := by
          rw [← Bool.not_eq_true, Value.isNull_iff]
          exact hnull
        rw [foldColumn_representative_of_ne_null hisNull, Except.ok.injEq]
        constructor
        · rintro ⟨rfl, h⟩
          exact absurd h hnull
        · rintro ⟨-, h, -⟩
          exact absurd h hnull

/-! ### Accumulators over the values that are not null -/

section Values

variable {kind : AggregateKind} {state : AggregateState} {values : List Value}

open AggregateState

/-- Nulls are skipped. -/
theorem foldlM_add_filter (kind : AggregateKind) (state : AggregateState) (values : List Value) :
    (values.filter fun value ↦ !value.isNull).foldlM (add kind) state = values.foldlM (add kind) state := by
  induction values generalizing state with
  | nil => rfl
  | cons value values ih =>
    by_cases hnull : value.isNull = true
    · have hadd : add kind state value = .ok state := by
        unfold add
        exact if_pos hnull
      rw [List.filter_cons_of_neg (by simpa using hnull), List.foldlM_cons, hadd]
      exact ih state
    · rw [List.filter_cons_of_pos (by simpa using hnull), List.foldlM_cons, List.foldlM_cons]
      congr 1
      funext state
      exact ih state

/-- A count counts the values. -/
theorem foldlM_add_count (h : ∀ value ∈ values, value.isNull = false) :
    values.foldlM (add .count) state = .ok { state with count := state.count + values.length } := by
  induction values generalizing state with
  | nil => rfl
  | cons value values ih =>
    obtain ⟨hvalue, hvalues⟩ := List.forall_mem_cons.1 h
    rw [List.foldlM_cons, add, hvalue]
    show values.foldlM (add .count) state.countRow = _
    rw [ih hvalues, List.length_cons, Nat.add_comm values.length, ← Nat.add_assoc]
    rfl

/-- The kinds that take numbers only. -/
def AggregateKind.isNumeric : AggregateKind → Bool
  | .sum | .average | .loneWolf => true
  | _ => false

/-- A numeric aggregate takes a number and fails on anything else. -/
theorem add_numeric (hkind : kind.isNumeric) {value : Value} (h : value.isNull = false) :
    add kind state value =
      if value.isNumeric then .ok (state.addNumber kind value)
      else .error (lit "Numeric aggregate on non-number") := by
  cases kind with
  | sum | average | loneWolf => rw [add, h]; rfl
  | _ => exact absurd hkind nofun

/-- Over several values it fails when one of them is no number. -/
theorem foldlM_add_numeric (hkind : kind.isNumeric) (h : ∀ value ∈ values, value.isNull = false) :
    (values.foldlM (add kind) state).toOption =
      if values.all Value.isNumeric then some (values.foldl (addNumber kind) state) else none := by
  induction values generalizing state with
  | nil => rfl
  | cons value values ih =>
    obtain ⟨hvalue, hvalues⟩ := List.forall_mem_cons.1 h
    rw [List.foldlM_cons, add_numeric hkind hvalue]
    by_cases hnumeric : value.isNumeric
    · rw [if_pos hnumeric, Except.ok_bind, ih hvalues, List.all_cons, hnumeric, Bool.true_and]
      rfl
    · rw [if_neg hnumeric, List.all_cons, Bool.eq_false_iff.2 hnumeric]
      rfl

/-- Numbers add up to their count and their sum. -/
theorem foldl_addNumber (kind : AggregateKind) (state : AggregateState) (values : List Value) :
    values.foldl (addNumber kind) state =
      { state with
        count := state.count + values.length
        sum := (values.map Value.toFloat).foldl (· + ·) state.sum
        allIntegers := state.allIntegers && values.all fun value ↦ value.type == .integer
        samples :=
          if kind = .loneWolf then state.samples ++ values.map Value.toFloat else state.samples } := by
  induction values generalizing state with
  | nil => simp
  | cons value values ih =>
    rw [List.foldl_cons, ih]
    by_cases hkind : kind = .loneWolf
    · simp [addNumber, hkind, Bool.and_assoc, Nat.add_comm, Nat.add_left_comm]
    · simp [addNumber, hkind, Bool.and_assoc, Nat.add_comm, Nat.add_left_comm]

/-- The values of a numeric aggregate are doubles, or one of them is no number. -/
theorem numericValues_toOption (message : Bytes) (values : List Value) :
    (numericValues message values).toOption =
      if values.all Value.isNumeric then some (values.map Value.toFloat) else none := by
  induction values with
  | nil => rfl
  | cons value values ih =>
    rw [numericValues, List.mapM_cons]
    by_cases hnumeric : value.isNumeric
    · rw [if_pos hnumeric, Except.pure_eq_ok, Except.ok_bind, Except.toOption_bind, ← numericValues, ih,
        List.all_cons, hnumeric, Bool.true_and]
      split <;> rfl
    · rw [if_neg hnumeric, List.all_cons, Bool.eq_false_iff.2 hnumeric]
      rfl

/-- The comparison that an extremum goes by. -/
def AggregateKind.better : AggregateKind → Ordering → Bool
  | .max => Ordering.isGT
  | .min => Ordering.isLT
  | _ => fun _ ↦ false

/-- An extremum takes every value. -/
theorem foldlM_add_extremum (hkind : kind = .max ∨ kind = .min)
    (h : ∀ value ∈ values, value.isNull = false) :
    values.foldlM (add kind) state = .ok (values.foldl (AggregateState.addCandidate kind) state) := by
  induction values generalizing state with
  | nil => rfl
  | cons value values ih =>
    obtain ⟨hvalue, hvalues⟩ := List.forall_mem_cons.1 h
    have hadd : add kind state value = .ok (state.addCandidate kind value) := by
      rcases hkind with rfl | rfl <;> simp [add, hvalue]
    rw [List.foldlM_cons, hadd]
    exact ih hvalues

/-- An extremum compares the values with the best so far. -/
theorem foldl_addCandidate_some (hkind : kind = .max ∨ kind = .min) {best : Value}
    (hbest : state.extremum = some best) (values : List Value) :
    values.foldl (AggregateState.addCandidate kind) state =
      { state with
        count := state.count + values.length
        extremum := some (extremum kind.better (best :: values)) } := by
  induction values generalizing state best with
  | nil => simp [extremum, ← hbest]
  | cons value values ih =>
    have hstep : (state.addCandidate kind value).extremum =
        some (if kind.better (value.compare best) then value else best) := by
      rcases hkind with rfl | rfl <;>
        simp only [AggregateState.addCandidate, hbest, AggregateKind.better, decide_true, Bool.true_and, Bool.or_false,
          reduceCtorEq, decide_false, Bool.false_and, Bool.false_or] <;>
        exact (apply_ite some _ _ _).symm
    rw [List.foldl_cons, ih hstep]
    simp [AggregateState.addCandidate, extremum, Nat.add_comm, Nat.add_left_comm]

/-! ### Aggregates over the rows of a group -/

/-- What `aggregate` makes of the values that are not null. -/
def storedResult (kind : AggregateKind) (values : List Value) : Except Error Value :=
  match kind with
  | .count => pure (countValue values.length)
  | kind =>
    if values.isEmpty then pure .null
    else match kind with
      | .sum => do
        let sum := (← numericValues (lit "Numeric aggregate on non-number") values).foldl (· + ·) 0
        -- Integers are added as doubles, and the sum is truncated.
        if values.all fun value ↦ value.type == .integer then pure (.integer (truncate sum))
        else pure (.ofFloat sum)
      | .average => do
        let sum := (← numericValues (lit "Numeric aggregate on non-number") values).foldl (· + ·) 0
        pure (.ofFloat (sum / floatOfNat values.length))
      | .loneWolf => do
        let samples ← numericValues (lit "LONE-WOLF requires numeric operands") values
        pure (countValue (countLoneWolves samples))
      | kind => pure (extremum kind.better values)

/-- What the accumulator makes of them. -/
def streamedResult (kind : AggregateKind) (values : List Value) : Except Error Value := do
  pure ((← values.foldlM (add kind) {}).result kind)

/-- The streamed result of a numeric aggregate. -/
theorem streamedResult_numeric (hkind : kind.isNumeric) (h : ∀ value ∈ values, value.isNull = false) :
    (streamedResult kind values).toOption =
      if values.all Value.isNumeric then some ((values.foldl (addNumber kind) {}).result kind)
      else none := by
  rw [streamedResult, Except.toOption_bind, foldlM_add_numeric hkind h]
  split <;> rfl

/-- Over at least one value that is not null, the two agree. -/
theorem streamedResult_eq (hne : values ≠ []) (h : ∀ value ∈ values, value.isNull = false) :
    (streamedResult kind values).toOption = (storedResult kind values).toOption := by
  have hempty : values.isEmpty = false := by rwa [List.isEmpty_eq_false_iff]
  have hlength : 0 + values.length ≠ 0 := by
    rw [Nat.zero_add]
    exact fun h ↦ hne (List.length_eq_zero_iff.1 h)
  cases kind with
  | count =>
    rw [streamedResult, foldlM_add_count h]
    simp [result, storedResult]
  | sum =>
    rw [streamedResult_numeric rfl h, foldl_addNumber, storedResult, hempty]
    simp only [Bool.false_eq_true, if_false, Except.toOption_bind, numericValues_toOption]
    split
    · simp only [result, if_neg hlength, Bool.true_and, Option.bind_some]
      split <;> rfl
    · rfl
  | average =>
    rw [streamedResult_numeric rfl h, foldl_addNumber, storedResult, hempty]
    simp only [Bool.false_eq_true, if_false, Except.toOption_bind, numericValues_toOption]
    split
    · simp only [result]
      rw [if_neg hlength, Nat.zero_add]
      rfl
    · rfl
  | loneWolf =>
    rw [streamedResult_numeric rfl h, foldl_addNumber, storedResult, hempty]
    simp only [Bool.false_eq_true, if_false, Except.toOption_bind, numericValues_toOption]
    split <;> rfl
  -- The first value stands in for the empty extremum, and the rest is the same fold.
  | max | min =>
    obtain ⟨first, rest, rfl⟩ := List.exists_cons_of_ne_nil hne
    rw [streamedResult, foldlM_add_extremum (by simp) h, List.foldl_cons,
      foldl_addCandidate_some (by simp) rfl]
    simp [result, storedResult, AggregateState.addCandidate]

/-- Over none, only LONE-WOLF differs. -/
theorem streamedResult_nil : (streamedResult kind []).toOption =
    some (if kind = .loneWolf then countValue 0 else if kind = .count then countValue 0 else .null) := by
  cases kind <;> rfl

theorem storedResult_nil : storedResult kind [] =
    .ok (if kind = .count then countValue 0 else .null) := by
  cases kind <;> rfl

end Values

/-- The names of the simple aggregates. -/
theorem simpleAggregateName_cases {name : Bytes} (h : isSimpleAggregateName name) :
    name = lit "headcount" ∨ name = lit "stack" ∨ name = lit "mid" ∨ name = lit "goat" ∨ name = lit "L" ∨
      name = lit "LONE-WOLF" ∨ name = lit "lone-wolf" := by
  simpa [isSimpleAggregateName, isLoneWolfName, or_assoc] using h

theorem isAggregateName_of_simple {name : Bytes} (h : isSimpleAggregateName name) :
    isAggregateName name := by
  rcases simpleAggregateName_cases h with rfl | rfl | rfl | rfl | rfl | rfl | rfl <;> decide

theorem ofName_eq_loneWolf {name : Bytes} (h : isSimpleAggregateName name) :
    AggregateKind.ofName name = .loneWolf ↔ isLoneWolfName name := by
  rcases simpleAggregateName_cases h with rfl | rfl | rfl | rfl | rfl | rfl | rfl <;> decide

/-- A simple aggregate is computed from the values that are not NULL. -/
theorem aggregate_simple {name : Bytes} (h : isSimpleAggregateName name)
    (hargument : name = lit "headcount" → argument.isWildcard = false) (rows : List EvalRow) :
    aggregate name [argument] false rows =
      nonNullValues argument rows >>= storedResult (AggregateKind.ofName name) := by
  rcases simpleAggregateName_cases h with rfl | rfl | rfl | rfl | rfl | rfl | rfl
  · cases argument with
    | wildcard wildcard => exact absurd (hargument rfl) nofun
    | _ => rfl
  · rfl
  · rfl
  · rfl
  · rfl
  · rfl
  · rfl

/-- These values are not NULL. -/
theorem ne_null_of_nonNullValues {values : List Value} (h : nonNullValues argument rows = .ok values) :
    ∀ value ∈ values, value.isNull = false := by
  obtain ⟨all, -, hall⟩ := Except.bind_eq_ok.1 h
  obtain rfl := Except.ok.inj hall
  intro value hvalue
  simpa using (List.mem_filter.1 hvalue).2

/-- The values of the argument, folded as they come. -/
theorem foldColumn_aggregate (kind : AggregateKind) (state : StreamColumnState) (rows : List EvalRow) :
    (foldColumn (.aggregate kind (some argument)) state rows).toOption =
      (rows.mapM (eval argument)).toOption.bind fun values ↦
        (values.foldlM (AggregateState.add kind) state.aggregate).toOption.map fun aggregate ↦
          { state with aggregate } := by
  induction rows generalizing state with
  | nil => rfl
  | cons row rows ih =>
    rw [foldColumn, List.foldlM_cons, List.mapM_cons, StreamProjection.step]
    rcases eval argument row with e | value
    · rfl
    · simp only [Except.ok_bind, Except.pure_eq_ok, Except.toOption_bind, Option.bind_assoc,
        Except.toOption_ok, Option.bind_some, List.foldlM_cons]
      rcases hadd : state.aggregate.add kind value with e | aggregate
      · simp
      · simp only [Except.toOption_ok, Option.bind_some]
        exact ih { state with aggregate }

/-- A count of rows counts them. -/
theorem foldColumn_countRows (kind : AggregateKind) (state : StreamColumnState) (rows : List EvalRow) :
    foldColumn (.aggregate kind none) state rows =
      .ok { state with
        aggregate := { state.aggregate with count := state.aggregate.count + rows.length } } := by
  induction rows generalizing state with
  | nil => rfl
  | cons row rows ih =>
    rw [foldColumn, List.foldlM_cons]
    refine (ih _).trans ?_
    rw [AggregateState.countRow, List.length_cons, Nat.add_comm rows.length, ← Nat.add_assoc]

/-- What the streaming lambda computes for a column over the rows of a group. -/
def streamColumn (projection : StreamProjection) (rows : List EvalRow) : Except Error Value := do
  pure (projection.result (← foldColumn projection {} rows))

/-- A streamed column is the streamed result of its values. -/
theorem streamColumn_aggregate (kind : AggregateKind) (rows : List EvalRow) :
    (streamColumn (.aggregate kind (some argument)) rows).toOption =
      (nonNullValues argument rows >>= streamedResult kind).toOption := by
  rw [streamColumn, Except.toOption_bind, foldColumn_aggregate, nonNullValues, Except.toOption_bind,
    Except.toOption_bind, Option.bind_assoc, Option.bind_assoc]
  congr 1
  funext values
  rw [← foldlM_add_filter, Except.pure_eq_ok, Except.toOption_ok, Option.bind_some, streamedResult,
    Except.toOption_bind]
  rcases List.foldlM (AggregateState.add kind) _ _ with e | aggregate <;> rfl

/-- A representative is the value of the first row when that is not NULL. -/
theorem streamColumn_representative_of_ne_null {value : Value} (hvalue : eval expression row = .ok value)
    (hnull : value.isNull = false) (rows : List EvalRow) :
    streamColumn (.representative expression) (row :: rows) = .ok value := by
  rw [streamColumn, foldColumn_representative_cons hvalue,
    foldColumn_representative_of_ne_null (by exact hnull)]
  rfl

/-- It is NULL only when every row has NULL there. -/
theorem streamColumn_representative_eq_null :
    streamColumn (.representative expression) rows = .ok .null ↔
      ∀ row ∈ rows, eval expression row = .ok .null := by
  rw [streamColumn, Except.bind_eq_ok]
  constructor
  · rintro ⟨state, hfold, hnull⟩
    exact (foldColumn_representative_eq_null.1 ⟨hfold, Except.ok.inj hnull⟩).2
  · intro h
    obtain ⟨hfold, -⟩ := foldColumn_representative_eq_null.2 ⟨rfl, h⟩
    exact ⟨_, hfold, rfl⟩

end SkibidiQL
