import Mathlib
import SkibidiQL.Base.ListRules
import SkibidiQL.Query.DirectExact
import SkibidiQL.Storage.IntegerValues

/-!
# Aggregates of integers

An integer column is summed in a double and compared through doubles, by every way to an aggregate. The sum is
the integer sum as long as a double holds each partial sum; the extremum is one as long as no other integer is
rounded to the same double.
-/

namespace Float

/-- The double is an integer of 64 bits, so that its conversion to one is defined. -/
def FitsInt64 (x : Float) : Prop :=
  ∃ a : ℤ, x.IsInteger a ∧ -2 ^ 63 ≤ a ∧ a < 2 ^ 63

/-- The part before the point of a double that is an integer is all of it. -/
theorem IsInteger.integerPart {x : Float} {a : ℤ} (h : x.IsInteger a) : SkibidiQL.integerPart x = some a := by
  have hunpacked : x.toModel.unpack.IsInteger a := h
  rw [SkibidiQL.integerPart]
  generalize x.toModel.unpack = u at hunpacked
  rcases u with s | _ | s | ⟨s, m, e, _⟩
  · exact hunpacked.elim
  · exact hunpacked.elim
  · exact congrArg some (show a = 0 from hunpacked).symm
  · obtain ⟨-, -, k, -, rfl, hvalue⟩ := hunpacked
    have habs : a.natAbs * 2 ^ 52 = m * 2 ^ k := by
      cases s <;> simp only [Model.UnpackedFloat.Sign.apply] at hvalue <;> omega
    have hpart : m * 2 ^ ((k : ℤ) - 52).toNat / 2 ^ (-((k : ℤ) - 52)).toNat = a.natAbs := by
      refine Nat.div_eq_of_eq_mul_left (Nat.two_pow_pos _) (Nat.eq_of_mul_eq_mul_right (Nat.two_pow_pos 52) ?_)
      have hexponents : ((k : ℤ) - 52).toNat + 52 = k + (-((k : ℤ) - 52)).toNat := by omega
      rw [Nat.mul_assoc, ← pow_add, hexponents, pow_add, ← Nat.mul_assoc, ← habs]
      ring
    -- the mantissa is not negative: the sign is applied to what is left of the shift
    dsimp only
    rw [hpart]
    cases s <;> simp only [Model.UnpackedFloat.Sign.apply] at hvalue ⊢ <;> congr 1 <;> omega

theorem IsInteger.unique {x : Float} {a b : ℤ} (ha : x.IsInteger a) (hb : x.IsInteger b) : a = b :=
  (ha.beq_iff hb).1 ((ha.beq_iff ha).2 rfl)

theorem IsInteger.fits {x : Float} {a : ℤ} (h : x.IsInteger a) : SkibidiQL.FitsDouble a :=
  Model.UnpackedFloat.IsInteger.fits h

end Float

namespace SkibidiQL

open Bytes

variable {db : Database} {statement : SelectStmt} {plan : DirectPlan} {limit : Nat} {statistics : Statistics}
  {numbers chosen : List Int64} {values visited : List Value} {argument : Expr} {rows : List EvalRow}

/-! ### The integers of a column -/

/-- The integers among the values. -/
def integers (values : List Value) : List Int64 :=
  values.filterMap fun
    | .integer n => some n
    | _ => none

/-- The values of an integer column. -/
def IntegerColumn (values : List Value) : Prop :=
  ∀ value ∈ values, value = .null ∨ ∃ n, value = .integer n

theorem integers_map (numbers : List Int64) : integers (numbers.map .integer) = numbers := by
  rw [integers, List.filterMap_map]
  exact List.filterMap_some

/-- What is not NULL in an integer column are its integers. -/
theorem IntegerColumn.filter_eq (h : IntegerColumn values) :
    (values.filter fun value ↦ !value.isNull) = (integers values).map .integer := by
  induction values with
  | nil => rfl
  | cons value values ih =>
    obtain ⟨hvalue, hvalues⟩ := List.forall_mem_cons.1 h
    rcases hvalue with rfl | ⟨n, rfl⟩
    · exact ih hvalues
    · exact congrArg (Value.integer n :: ·) (ih hvalues)

/-- The integer sum. -/
def integerSum (numbers : List Int64) : ℤ :=
  (numbers.map Int64.toInt).sum

/-- Whatever values are taken in whatever order, the partial sum is a 64-bit integer. -/
def PartialSumsFit (numbers : List Int64) : Prop :=
  ∀ chosen, chosen.Subperm numbers → -2 ^ 63 ≤ integerSum chosen ∧ integerSum chosen < 2 ^ 63

/-- Whatever values are taken in whatever order, a double holds the partial sum. -/
def PartialSumsExact (numbers : List Int64) : Prop :=
  ∀ chosen, chosen.Subperm numbers → FitsDouble (integerSum chosen)

theorem integerSum_concat (numbers : List Int64) (n : Int64) :
    integerSum (numbers ++ [n]) = integerSum numbers + n.toInt := by
  simp [integerSum]

/-- No other integer is rounded to the same double. -/
def RoundsAlone (numbers : List Int64) (n : Int64) : Prop :=
  ∀ m ∈ numbers, nearestDouble m.toInt = nearestDouble n.toInt → m = n

/-! ### What is asked of an aggregate -/

/-- The aggregates of integers that are integers. -/
inductive IntegerAggregate where
  | stack
  | goat
  | L

namespace IntegerAggregate

/-- The name in a query. -/
def name : IntegerAggregate → Bytes
  | stack => lit "stack"
  | goat => lit "goat"
  | L => lit "L"

/-- The kind of its accumulator. -/
def kind : IntegerAggregate → AggregateKind
  | stack => .sum
  | goat => .max
  | L => .min

/-- The integer that the aggregate stands for. -/
def Exact (f : IntegerAggregate) (numbers : List Int64) (n : Int64) : Prop :=
  match f with
  | stack => n.toInt = integerSum numbers
  | goat => IsGreatest {a | a ∈ numbers} n
  | L => IsLeast {a | a ∈ numbers} n

/-- The exact answer over the values: null when there are no integers. -/
def Answer (f : IntegerAggregate) (visited : List Value) (value : Value) : Prop :=
  if integers visited = [] then value = .null
  else ∃ n, value = .integer n ∧ f.Exact (integers visited) n

end IntegerAggregate

/-- The sum as it is accumulated. -/
def doubleSum (numbers : List Int64) : Float :=
  (numbers.map fun n ↦ (Value.integer n).toFloat).foldl (· + ·) 0

/-- The aggregate of an expression with these values, visited in this order, is exact: over the rows of a group, and
over a whole table, by the generic pipeline and by direct aggregation. -/
structure IntegerAggregate.ExactOver (f : IntegerAggregate) (visited : List Value) : Prop where
  /-- The conversion of the accumulated sum is defined. -/
  defined : f = .stack → (doubleSum (integers visited)).FitsInt64
  grouped : ∀ {argument : Expr} {rows : List EvalRow}, rows.mapM (eval argument) = .ok visited →
    ∃ value, f.Answer visited value ∧ aggregate f.name [argument] false rows = .ok value
  whole : ∀ {order : GroupOrder} {limit : Nat} {db : Database} {statistics : Statistics} {statement : SelectStmt} {plan : DirectPlan}
    {column : Nat}, directPlan db statement = .ok (some plan) → plan.predicate = none → plan.groupColumns = [] →
    plan.projections = [.aggregate f.kind (some column)] →
    (db.stored statement.fromTable).map (·.field column) = visited →
    ∃ value, f.Answer visited value ∧
      scanSelect order db statement =
        .ok { columns := outputNames db.catalog statement none, rows := [[value]] } ∧
      ∃ statistics', executeDirectAggregateSelect order limit db statistics statement =
        .ok (some { columns := outputNames db.catalog statement none, rows := [[value]] }, statistics')

/-! ### What each way answers -/

/-- A fold that keeps the better integer finds the first of the greatest key. -/
theorem extremum_integers {κ : Type} [LinearOrder κ] {key : Int64 → κ} {better : Ordering → Bool}
    (hbetter : ∀ m n, better ((Value.integer m).compare (.integer n)) = decide (key n < key m))
    (numbers : List Int64) :
    extremum better (numbers.map .integer) = (numbers.argmax key).elim .null .integer := by
  have hfold : ∀ (rest : List Int64) (best : Int64),
      (rest.map Value.integer).foldl (fun result value ↦ if better (value.compare result) then value else result)
          (.integer best) =
        (rest.foldl (List.argAux fun m n ↦ key n < key m) (some best)).elim .null .integer := by
    intro rest
    induction rest with
    | nil => exact fun best ↦ rfl
    | cons n rest ih =>
      intro best
      rw [List.map_cons, List.foldl_cons, List.foldl_cons, hbetter, ← apply_ite Value.integer, ih, List.argAux]
      simp only [decide_eq_true_eq]
      split <;> rfl
  cases numbers with
  | nil => rfl
  | cons first rest => exact hfold rest first

namespace IntegerAggregate

variable {f : IntegerAggregate}

/-- The answer over these integers. -/
noncomputable def result : IntegerAggregate → List Int64 → Value
  | stack, numbers => if numbers = [] then .null else .integer (truncate (doubleSum numbers))
  | goat, numbers => (numbers.argmax fun n ↦ nearestDouble n.toInt).elim .null .integer
  | L, numbers => (numbers.argmax fun n ↦ OrderDual.toDual (nearestDouble n.toInt)).elim .null .integer

/-- The result read from statistics is that of the integers. -/
theorem storedResult_eq (f : IntegerAggregate) (numbers : List Int64) :
    storedResult f.kind (numbers.map .integer) = .ok (f.result numbers) := by
  rcases eq_or_ne numbers [] with rfl | hne
  · cases f <;> rfl
  have hempty : (numbers.map Value.integer).isEmpty = false := by
    rwa [List.isEmpty_eq_false_iff, Ne, List.map_eq_nil_iff]
  cases f with
  | stack =>
    have hnumeric : numericValues (lit "Numeric aggregate on non-number") (numbers.map .integer) =
        .ok (numbers.map fun n ↦ (Value.integer n).toFloat) := by
      rw [numericValues, List.mapM_map]
      exact List.mapM_eq_ok fun n _ ↦ rfl
    have htypes : ((numbers.map Value.integer).all fun value ↦ value.type == .integer) = true := by
      rw [List.all_map]
      exact List.all_eq_true.2 fun n _ ↦ rfl
    rw [kind, storedResult, hempty, if_neg Bool.false_ne_true, hnumeric, Except.ok_bind]
    dsimp only
    rw [if_pos htypes, result, if_neg hne]
    rfl
  -- The comparison goes through doubles, so the extremum is that of the nearest doubles.
  | goat =>
    have hbetter (m n : Int64) : Ordering.isGT ((Value.integer m).compare (.integer n)) =
        decide (nearestDouble n.toInt < nearestDouble m.toInt) := by
      rw [Value.compare_integer, Bool.eq_iff_iff, Ordering.isGT_iff_eq_gt, compare_gt_iff_gt, decide_eq_true_eq]
    show (if (numbers.map Value.integer).isEmpty then _ else
      Except.ok (extremum Ordering.isGT (numbers.map .integer))) = _
    rw [hempty, if_neg Bool.false_ne_true, extremum_integers hbetter numbers]
    rfl
  | L =>
    have hbetter (m n : Int64) : Ordering.isLT ((Value.integer m).compare (.integer n)) =
        decide (OrderDual.toDual (nearestDouble n.toInt) < OrderDual.toDual (nearestDouble m.toInt)) := by
      rw [Value.compare_integer, Bool.eq_iff_iff, Ordering.isLT_iff_eq_lt, compare_lt_iff_lt, decide_eq_true_eq]
      rfl
    show (if (numbers.map Value.integer).isEmpty then _ else
      Except.ok (extremum Ordering.isLT (numbers.map .integer))) = _
    rw [hempty, if_neg Bool.false_ne_true, extremum_integers hbetter numbers]
    rfl

theorem ofName_name (f : IntegerAggregate) : AggregateKind.ofName f.name = f.kind := by
  cases f <;> decide

theorem isSimple_name (f : IntegerAggregate) : isSimpleAggregateName f.name := by
  cases f <;> decide

/-- The accumulator answers what is stored, also over no values. -/
theorem streamedResult_eq (f : IntegerAggregate) (numbers : List Int64) :
    (streamedResult f.kind (numbers.map .integer)).toOption = some (f.result numbers) := by
  rcases eq_or_ne numbers [] with rfl | hne
  · cases f <;> rfl
  · have hnull : ∀ value ∈ numbers.map Value.integer, value.isNull = false := by
      rw [List.forall_mem_map]
      exact fun n _ ↦ rfl
    rw [SkibidiQL.streamedResult_eq (fun h ↦ hne (List.map_eq_nil_iff.1 h)) hnull, storedResult_eq]
    rfl

/-- Over the rows of a group. -/
theorem aggregate_eq (hcolumn : IntegerColumn visited) (hvalues : rows.mapM (eval argument) = .ok visited) :
    aggregate f.name [argument] false rows = .ok (f.result (integers visited)) := by
  have hname : f.name ≠ lit "headcount" := by cases f <;> decide
  rw [aggregate_simple f.isSimple_name (fun heq ↦ absurd heq hname), ofName_name, nonNullValues, hvalues]
  exact (congrArg (storedResult f.kind) hcolumn.filter_eq).trans (f.storedResult_eq _)

end IntegerAggregate

/-! ### The ways agree -/

/-- An aggregate over a column reads the column. -/
theorem Streams.of_column {columns : List BoundColumn} {kind : AggregateKind} {column : Nat}
    {stream : StreamProjection} (h : Streams columns (.aggregate kind (some column)) stream) :
    ∃ expression, stream = .aggregate kind (some expression) ∧ Reads columns expression column := by
  cases h with
  | aggregate _ hreads => exact ⟨_, rfl, hreads⟩

/-- The one output row of the rows of a table. -/
theorem streamedFrom_column (order : GroupOrder) {projections : List StreamProjection}
    (h : Planned db statement plan projections)
    {f : IntegerAggregate} {column : Nat} (hscalar : plan.groupColumns = [])
    (hprojections : plan.projections = [.aggregate f.kind (some column)])
    (hcolumn : IntegerColumn ((db.stored statement.fromTable).map (·.field column))) :
    plan.streamedFrom order statement projections (db.stored statement.fromTable) =
      .ok [[f.result (integers ((db.stored statement.fromTable).map (·.field column)))]] := by
  have hstreams := h.streams
  rw [hprojections] at hstreams
  rw [← Except.toOption_eq_some, streamedFrom_scalar h hscalar]
  cases hstreams with
  | @cons _ stream _ _ hstream hrest =>
    cases hrest
    obtain ⟨expression, rfl, hreads⟩ := hstream.of_column
    have hvalue := streamColumn_eq f.kind hreads (db.stored statement.fromTable)
    rw [columnValues, hcolumn.filter_eq, f.streamedResult_eq, Except.toOption_eq_some] at hvalue
    rw [List.mapM_cons, DirectPlan.bound, hvalue]
    rfl

/-- Without a predicate every row is selected. -/
theorem all_selected (hpredicate : plan.predicate = none) (rows : List StoredRow) :
    rows.filter plan.selects = rows ∧ rows.filter plan.satisfies = rows := by
  constructor
  · refine List.filter_eq_self.2 fun row _ ↦ ?_
    rw [DirectPlan.selects, hpredicate]
    rfl
  · refine List.filter_eq_self.2 fun row _ ↦ ?_
    rw [DirectPlan.satisfies, hpredicate]
    rfl

/-- Without WHERE and GROUP BY an aggregate other than a count is answered by hash. -/
theorem route_eq_hash {f : IntegerAggregate} {column : Nat} (hpredicate : plan.predicate = none)
    (hscalar : plan.groupColumns = []) (hprojections : plan.projections = [.aggregate f.kind (some column)])
    (limit : Nat) (db : Database) (statistics : Statistics) (name : Bytes) :
    plan.route limit db statistics name = .ok (.hash, statistics) := by
  have hsingle : plan.singleCount = none := by
    rw [DirectPlan.singleCount, hscalar, hprojections]
    cases f <;> rfl
  have hempty : plan.provesEmpty limit db statistics name = .ok (false, statistics) := by
    rw [DirectPlan.provesEmpty, hpredicate]
    rfl
  have hdense : plan.denseColumn = .ok none := by
    rw [DirectPlan.denseColumn, hscalar]
    rfl
  rw [DirectPlan.route, hempty, Except.ok_bind]
  dsimp only
  rw [if_neg Bool.false_ne_true, hsingle]
  dsimp only
  rw [DirectPlan.groupRoute, hdense]
  rfl

namespace IntegerAggregate

variable {f : IntegerAggregate}

/-- A row of one column. -/
def rowOf (value : Value) : EvalRow where
  columns := some [{ table := [], alias' := [], name := lit "c" }]
  values := [value]

/-- Every way is exact when the one answer is. -/
theorem exactOver_iff (hcolumn : IntegerColumn visited) :
    f.ExactOver visited ↔ (f = .stack → (doubleSum (integers visited)).FitsInt64) ∧
      f.Answer visited (f.result (integers visited)) := by
  constructor
  · intro h
    refine ⟨h.defined, ?_⟩
    -- a group of rows with these values
    have hvalues : (visited.map rowOf).mapM (eval (.column { column := lit "c" })) = .ok visited := by
      have hall := List.mapM_eq_ok (l := visited) (f := eval (.column { column := lit "c" }) ∘ rowOf) (g := id)
        fun value _ ↦ rfl
      rwa [List.map_id, ← List.mapM_map] at hall
    obtain ⟨value, hanswer, hvalue⟩ := h.grouped hvalues
    rw [aggregate_eq hcolumn hvalues] at hvalue
    rwa [Except.ok.inj hvalue]
  · rintro ⟨hdefined, hanswer⟩
    refine ⟨hdefined, fun hvalues ↦ ⟨_, hanswer, aggregate_eq hcolumn hvalues⟩, ?_⟩
    intro order limit db statistics statement plan column hplan hpredicate hscalar hprojections hvisited
    obtain ⟨projections, h⟩ := exists_planned hplan
    obtain ⟨hselects, hsatisfies⟩ := all_selected hpredicate (db.stored statement.fromTable)
    have hstreamed := streamedFrom_column order h hscalar hprojections (hvisited ▸ hcolumn)
    rw [hvisited] at hstreamed
    refine ⟨_, hanswer, ?_, statistics, ?_⟩
    · rw [h.scanSelect_eq, hsatisfies, hstreamed]
      rfl
    · rw [executeDirectAggregateSelect, hplan, Except.ok_bind]
      dsimp only
      rw [route_eq_hash hpredicate hscalar hprojections, Except.ok_bind]
      dsimp only
      rw [DirectPlan.rows, h.hashRows_eq, hselects, hstreamed]
      rfl

end IntegerAggregate

/-! ### Selections of a column -/

theorem integers_append (values values' : List Value) :
    integers (values ++ values') = integers values ++ integers values' :=
  List.filterMap_append

theorem IntegerColumn.of_subperm (h : IntegerColumn values) (hsub : visited.Subperm values) :
    IntegerColumn visited :=
  fun value hvalue ↦ h value (hsub.subset hvalue)

theorem integers_subperm (h : visited.Subperm values) : (integers visited).Subperm (integers values) := by
  obtain ⟨l, hperm, hsub⟩ := h
  exact ⟨integers l, hperm.filterMap _, hsub.filterMap _⟩

/-- Some integers of a column stand in the column. -/
theorem IntegerColumn.map_subperm (h : IntegerColumn values) (hsub : chosen.Subperm (integers values)) :
    (chosen.map Value.integer).Subperm values := by
  obtain ⟨l, hperm, hsub⟩ := hsub
  refine ⟨l.map Value.integer, hperm.map _, (hsub.map _).trans ?_⟩
  rw [← h.filter_eq]
  exact List.filter_sublist

/-- An order of the integers comes from an order of the values. -/
theorem IntegerColumn.exists_perm (h : IntegerColumn values) (hperm : chosen.Perm (integers values)) :
    ∃ visited, visited.Perm values ∧ integers visited = chosen := by
  refine ⟨chosen.map Value.integer ++ values.filter fun value ↦ !!value.isNull, ?_, ?_⟩
  · refine .trans ?_ (List.filter_append_perm (fun value ↦ !value.isNull) values)
    rw [h.filter_eq]
    exact (hperm.map _).append_right _
  · have hnulls : integers (values.filter fun value ↦ !!value.isNull) = [] := by
      refine List.filterMap_eq_nil_iff.2 fun value hvalue ↦ ?_
      have hnull := (List.mem_filter.1 hvalue).2
      rw [Bool.not_not, Value.isNull_iff] at hnull
      rw [hnull]
    rw [integers_append, integers_map, hnulls, List.append_nil]

/-! ### The sum -/

theorem doubleSum_concat (numbers : List Int64) (n : Int64) :
    doubleSum (numbers ++ [n]) = doubleSum numbers + (Value.integer n).toFloat := by
  simp [doubleSum]

/-- A further integer is rounded, and so is the sum with it. -/
theorem doubleSum_concat_isInteger (h : (doubleSum numbers).IsInteger (integerSum numbers)) {n : Int64}
    (hn : FitsDouble n.toInt) (hsmall : (integerSum numbers + n.toInt).natAbs < 2 ^ 100) :
    (doubleSum (numbers ++ [n])).IsInteger (nearestDouble (integerSum (numbers ++ [n]))) := by
  have hvalue := Value.toFloat_integer n
  rw [nearestDouble_eq_self hn] at hvalue
  rw [doubleSum_concat, integerSum_concat]
  exact h.add hvalue hsmall

/-- The double nearest to a 64-bit integer is far below the largest double. -/
theorem natAbs_nearestDouble_lt (n : Int64) : (nearestDouble n.toInt).natAbs < 2 ^ 100 := by
  have hlow : nearestDouble (-2 ^ 63) ≤ nearestDouble n.toInt := nearestDouble_mono n.le_toInt
  have hhigh : nearestDouble n.toInt ≤ nearestDouble (2 ^ 63) := nearestDouble_mono n.toInt_lt.le
  have hbound : FitsDouble (2 ^ 63) := ⟨1, by decide, 63, by decide⟩
  rw [nearestDouble_neg] at hlow
  rw [nearestDouble_eq_self hbound] at hlow hhigh
  omega

theorem integerSum_singleton (n : Int64) : integerSum [n] = n.toInt := by
  simp [integerSum]

theorem PartialSumsFit.of_subperm (h : PartialSumsFit numbers) (hsub : chosen.Subperm numbers) :
    PartialSumsFit chosen :=
  fun _ hchosen ↦ h _ (hchosen.trans hsub)

theorem PartialSumsFit.small (h : PartialSumsFit numbers) : (integerSum numbers).natAbs < 2 ^ 100 := by
  have hsum := h numbers (List.Subperm.refl _)
  omega

/-- Both the first numbers and the last are some of the numbers. -/
theorem subperm_concat (numbers : List Int64) (n : Int64) :
    numbers.Subperm (numbers ++ [n]) ∧ [n].Subperm (numbers ++ [n]) :=
  ⟨(List.sublist_append_left _ _).subperm, (List.sublist_append_right _ _).subperm⟩

/-- When a double holds every partial sum, it is the sum that is accumulated. -/
theorem doubleSum_isInteger (hfits : PartialSumsFit numbers) (hexact : PartialSumsExact numbers) :
    (doubleSum numbers).IsInteger (integerSum numbers) := by
  induction numbers using List.reverseRecOn with
  | nil => exact Float.isInteger_zero
  | append_singleton numbers n ih =>
    obtain ⟨hinit, hlast⟩ := subperm_concat numbers n
    have hn := hexact [n] hlast
    rw [integerSum_singleton] at hn
    have hsmall := hfits.small
    rw [integerSum_concat] at hsmall
    have hsum := doubleSum_concat_isInteger
      (ih (hfits.of_subperm hinit) fun chosen hchosen ↦ hexact chosen (hchosen.trans hinit)) hn hsmall
    rwa [nearestDouble_eq_self (hexact _ (List.Subperm.refl _))] at hsum

/-- A defined conversion of the accumulated sum. -/
theorem truncate_doubleSum {a : ℤ} (h : (doubleSum numbers).IsInteger a)
    (hdefined : (doubleSum numbers).FitsInt64) : (truncate (doubleSum numbers)).toInt = a := by
  obtain ⟨b, hb, hlow, hhigh⟩ := hdefined
  obtain rfl := h.unique hb
  rw [truncate, h.integerPart]
  dsimp only
  rw [if_pos ⟨hlow, hhigh⟩, Int64.toInt_ofInt_of_le hlow hhigh]

namespace IntegerAggregate

/-- The sum of an integer column is exact. -/
theorem stack_exactOver_iff (hcolumn : IntegerColumn visited) (hne : integers visited ≠ []) :
    stack.ExactOver visited ↔ (doubleSum (integers visited)).FitsInt64 ∧
      (truncate (doubleSum (integers visited))).toInt = integerSum (integers visited) := by
  rw [exactOver_iff hcolumn, Answer, if_neg hne, result, if_neg hne]
  refine and_congr ⟨fun h ↦ h rfl, fun h _ ↦ h⟩ ⟨?_, fun h ↦ ⟨_, rfl, h⟩⟩
  rintro ⟨n, hn, hexact⟩
  rw [Value.integer.inj hn]
  exact hexact

/-- An exact sum is the double that was accumulated. -/
theorem eq_of_stack_exactOver (hcolumn : IntegerColumn visited) (hne : integers visited ≠ [])
    (h : stack.ExactOver visited) {a : ℤ} (ha : (doubleSum (integers visited)).IsInteger a) :
    a = integerSum (integers visited) := by
  obtain ⟨hdefined, hsum⟩ := (stack_exactOver_iff hcolumn hne).1 h
  rw [← hsum, truncate_doubleSum ha hdefined]

/-- The sum is exact where the partial sums fit and are exact. -/
theorem stack_exactOver (hcolumn : IntegerColumn visited) (hfits : PartialSumsFit (integers visited))
    (hexact : PartialSumsExact (integers visited)) : stack.ExactOver visited := by
  have hinteger := doubleSum_isInteger hfits hexact
  obtain ⟨hlow, hhigh⟩ := hfits _ (List.Subperm.refl _)
  have hdefined : (doubleSum (integers visited)).FitsInt64 := ⟨_, hinteger, hlow, hhigh⟩
  rcases eq_or_ne (integers visited) [] with hempty | hne
  · rw [exactOver_iff hcolumn, Answer, if_pos hempty, result, if_pos hempty]
    exact ⟨fun _ ↦ hdefined, rfl⟩
  · exact (stack_exactOver_iff hcolumn hne).2 ⟨hdefined, truncate_doubleSum hinteger hdefined⟩

/-- When all partial sums are exact, a double holds them. -/
theorem doubleSum_isInteger_of_exactOver (hcolumn : IntegerColumn values)
    (hfits : PartialSumsFit (integers values))
    (h : ∀ visited, visited.Subperm values → stack.ExactOver visited) {chosen : List Int64}
    (hchosen : chosen.Subperm (integers values)) : (doubleSum chosen).IsInteger (integerSum chosen) := by
  have hsame {numbers : List Int64} (hsub : numbers.Subperm (integers values)) (hne : numbers ≠ []) {a : ℤ}
      (ha : (doubleSum numbers).IsInteger a) : a = integerSum numbers := by
    have hvisited := hcolumn.map_subperm hsub
    have hintegers := integers_map numbers
    have heq := eq_of_stack_exactOver (hcolumn.of_subperm hvisited) (by rwa [hintegers]) (h _ hvisited)
      (a := a) (by rwa [hintegers])
    rwa [hintegers] at heq
  induction chosen using List.reverseRecOn with
  | nil => exact Float.isInteger_zero
  | append_singleton chosen n ih =>
    obtain ⟨hinit, hlast⟩ := subperm_concat chosen n
    -- the integer alone is summed with 0, and is exact
    have hzero : (doubleSum [n]).IsInteger (nearestDouble (0 + nearestDouble n.toInt)) :=
      Float.isInteger_zero.add (Value.toFloat_integer n) (by rw [zero_add]; exact natAbs_nearestDouble_lt n)
    have hn : FitsDouble n.toInt := by
      have heq := hsame (hlast.trans hchosen) (List.cons_ne_nil _ _) hzero
      rw [integerSum_singleton] at heq
      exact heq ▸ hzero.fits
    have hsmall := (hfits.of_subperm hchosen).small
    rw [integerSum_concat] at hsmall
    have hsum := doubleSum_concat_isInteger (ih (hinit.trans hchosen)) hn hsmall
    rwa [hsame hchosen (List.append_ne_nil_of_right_ne_nil _ (List.cons_ne_nil _ _)) hsum] at hsum

/-! ### The extrema -/

/-- The extremum by a key of the doubles is the one of the integers. -/
theorem extremum_answer_iff {f : IntegerAggregate} {κ : Type} [LinearOrder κ] {key value : Int64 → κ}
    (hresult : ∀ numbers, f.result numbers = (numbers.argmax key).elim .null .integer)
    (hexact : ∀ numbers n, f.Exact numbers n ↔ n ∈ numbers ∧ ∀ a ∈ numbers, value a ≤ value n) :
    f.Answer visited (f.result (integers visited)) ↔
      ∀ best ∈ List.argmax key (integers visited), ∀ a ∈ integers visited, value a ≤ value best := by
  rw [Answer, hresult]
  cases hbest : List.argmax key (integers visited) with
  | none =>
    rw [if_pos (List.argmax_eq_none.1 hbest)]
    exact iff_of_true rfl nofun
  | some best =>
    have hmem := List.argmax_mem hbest
    rw [if_neg (List.ne_nil_of_mem hmem)]
    constructor
    · rintro ⟨n, hn, h⟩ _ ⟨⟩
      rw [Value.integer.inj hn]
      exact ((hexact _ _).1 h).2
    · exact fun h ↦ ⟨best, rfl, (hexact _ _).2 ⟨hmem, h best rfl⟩⟩

/-- In every order the extremum is exact, unless another integer is rounded to the same double. -/
theorem extremum_exactOver_iff {f : IntegerAggregate} (hstack : f ≠ .stack) {κ : Type} [LinearOrder κ]
    {key : Int64 → κ} (value : Int64 → κ) (hcolumn : IntegerColumn values)
    (hresult : ∀ numbers, f.result numbers = (numbers.argmax key).elim .null .integer)
    (hexact : ∀ numbers n, f.Exact numbers n ↔ n ∈ numbers ∧ ∀ a ∈ numbers, value a ≤ value n)
    (hmono : ∀ a b, value a ≤ value b → key a ≤ key b) (hinjective : Function.Injective value)
    (hkey : ∀ a b, key a = key b ↔ nearestDouble a.toInt = nearestDouble b.toInt) :
    (∀ visited, visited.Perm values → f.ExactOver visited) ↔
      ∀ n, f.Exact (integers values) n → RoundsAlone (integers values) n := by
  have horders : (∀ visited, visited.Perm values → f.ExactOver visited) ↔
      ∀ order, order.Perm (integers values) → ∀ best ∈ List.argmax key order, ∀ a ∈ integers values,
        value a ≤ value best := by
    constructor
    · intro h order horder best hbest a ha
      obtain ⟨visited, hperm, rfl⟩ := hcolumn.exists_perm horder
      have hanswer := ((exactOver_iff (hcolumn.of_subperm hperm.subperm)).1 (h visited hperm)).2
      exact (extremum_answer_iff hresult hexact).1 hanswer best hbest a (horder.mem_iff.2 ha)
    · intro h visited hperm
      have hintegers : (integers visited).Perm (integers values) := hperm.filterMap _
      refine (exactOver_iff (hcolumn.of_subperm hperm.subperm)).2 ⟨fun heq ↦ absurd heq hstack, ?_⟩
      exact (extremum_answer_iff hresult hexact).2 fun best hbest a ha ↦
        h _ hintegers best hbest a (hintegers.mem_iff.1 ha)
  rw [horders, List.forall_perm_argmax_iff hmono hinjective]
  constructor
  · intro h n hn m hm hround
    obtain ⟨hmem, hgreatest⟩ := (hexact _ _).1 hn
    exact h m hm n hmem hgreatest ((hkey m n).2 hround)
  · exact fun h m hm n hn hgreatest hround ↦ h n ((hexact _ _).2 ⟨hn, hgreatest⟩) m hm ((hkey m n).1 hround)

end IntegerAggregate

open IntegerAggregate in
/-- The sum of an integer column is exact after every row in every order exactly when a double holds all partial
sums, and an extremum in every order exactly when no other integer is rounded to the same double. -/
theorem integerAggregates_exact_iff (hcolumn : IntegerColumn values) (hfits : PartialSumsFit (integers values)) :
    ((∀ visited, visited.Subperm values → stack.ExactOver visited) ↔ PartialSumsExact (integers values)) ∧
    ((∀ visited, visited.Perm values → goat.ExactOver visited) ↔
      ∀ n, IsGreatest {a | a ∈ integers values} n → RoundsAlone (integers values) n) ∧
    ((∀ visited, visited.Perm values → L.ExactOver visited) ↔
      ∀ n, IsLeast {a | a ∈ integers values} n → RoundsAlone (integers values) n) := by
  refine ⟨⟨fun h chosen hchosen ↦ ?_, fun h visited hsub ↦ ?_⟩, ?_, ?_⟩
  · exact (doubleSum_isInteger_of_exactOver hcolumn hfits h hchosen).fits
  · have hintegers := integers_subperm hsub
    exact stack_exactOver (hcolumn.of_subperm hsub) (hfits.of_subperm hintegers) fun chosen hchosen ↦
      h chosen (hchosen.trans hintegers)
  · refine extremum_exactOver_iff (f := goat) nofun Int64.toInt hcolumn (fun _ ↦ rfl) ?_ ?_ ?_ ?_
    · intro numbers n
      simp only [Exact, IsGreatest, upperBounds, Set.mem_ofPred_eq, Int64.le_iff_toInt_le]
    · exact fun a b h ↦ nearestDouble_mono h
    · exact fun a b h ↦ Int64.toInt_inj.1 h
    · exact fun a b ↦ Iff.rfl
  · refine extremum_exactOver_iff (f := L) nofun (fun n ↦ OrderDual.toDual n.toInt) hcolumn (fun _ ↦ rfl) ?_ ?_
      ?_ ?_
    · intro numbers n
      simp only [Exact, IsLeast, lowerBounds, Set.mem_ofPred_eq, Int64.le_iff_toInt_le]
      rfl
    · exact fun a b h ↦ nearestDouble_mono h
    · exact fun a b h ↦ Int64.toInt_inj.1 h
    · exact fun a b ↦ Iff.rfl

/-! ### Columns of small and of large integers -/

/-- A sum is bounded by the sum of the magnitudes. -/
theorem natAbs_integerSum_le (numbers : List Int64) :
    (integerSum numbers).natAbs ≤ (numbers.map fun n ↦ n.toInt.natAbs).sum := by
  induction numbers with
  | nil => exact Nat.le_refl _
  | cons n numbers ih =>
    rw [List.map_cons, List.sum_cons]
    exact (Int.natAbs_add_le n.toInt (integerSum numbers)).trans (Nat.add_le_add_left ih _)

/-- Partial sums fit where the magnitudes add up to less than `2 ^ 63`. -/
theorem PartialSumsFit.of_natAbs (h : (numbers.map fun n ↦ n.toInt.natAbs).sum < 2 ^ 63) :
    PartialSumsFit numbers := by
  rintro chosen ⟨l, hperm, hsub⟩
  have hle : (l.map fun n ↦ n.toInt.natAbs).sum ≤ (numbers.map fun n ↦ n.toInt.natAbs).sum :=
    (hsub.map _).sum_le_sum fun _ _ ↦ Nat.zero_le _
  have hsum : integerSum chosen = integerSum l := (hperm.symm.map Int64.toInt).sum_eq
  have hnatAbs := natAbs_integerSum_le l
  omega

/-- Whether a column is one of integers can be tested. -/
theorem integerColumn_of_all
    (h : values.all fun value ↦ value.isNull || value.type == .integer) : IntegerColumn values := by
  intro value hvalue
  have hkind := List.all_eq_true.1 h value hvalue
  cases value with
  | null => exact .inl rfl
  | integer n => exact .inr ⟨n, rfl⟩
  | _ => cases hkind

/-- The aggregates of 3, NULL and 5. -/
theorem integerAggregates_exact_iff_small :
    ((∀ visited, visited.Subperm [.integer 3, .null, .integer 5] → IntegerAggregate.stack.ExactOver visited) ↔
      PartialSumsExact [3, 5]) ∧
    ((∀ visited, visited.Perm [.integer 3, .null, .integer 5] → IntegerAggregate.goat.ExactOver visited) ↔
      ∀ n, IsGreatest {a | a ∈ ([3, 5] : List Int64)} n → RoundsAlone [3, 5] n) ∧
    ((∀ visited, visited.Perm [.integer 3, .null, .integer 5] → IntegerAggregate.L.ExactOver visited) ↔
      ∀ n, IsLeast {a | a ∈ ([3, 5] : List Int64)} n → RoundsAlone [3, 5] n) :=
  integerAggregates_exact_iff (integerColumn_of_all rfl) (.of_natAbs (by decide))

/-- The sum of 9007199254740992 and 1 loses the 1, and the greater of 9007199254740992 and 9007199254740993 is
not found behind the less. -/
theorem integerAggregates_not_exact :
    (¬∀ values, IntegerColumn values → PartialSumsFit (integers values) →
      ∀ visited, visited.Perm values → IntegerAggregate.stack.ExactOver visited) ∧
    ¬∀ values, IntegerColumn values → PartialSumsFit (integers values) →
      ∀ visited, visited.Perm values → IntegerAggregate.goat.ExactOver visited := by
  constructor
  · intro h
    have hcolumn : IntegerColumn [.integer 9007199254740992, .integer 1] := integerColumn_of_all rfl
    have hexact := h _ hcolumn (.of_natAbs (by decide)) _ (List.Perm.refl _)
    have hsum := ((IntegerAggregate.stack_exactOver_iff hcolumn (List.cons_ne_nil _ _)).1 hexact).2
    revert hsum
    decide +kernel
  · intro h
    have hcolumn : IntegerColumn [.integer 9007199254740992, .integer 9007199254740993] :=
      integerColumn_of_all rfl
    have hexact := h _ hcolumn (.of_natAbs (by decide)) _ (List.Perm.refl _)
    obtain ⟨-, n, hn, -, hgreatest⟩ := (IntegerAggregate.exactOver_iff hcolumn).1 hexact
    have hfirst : n = 9007199254740992 := by
      have hresult : IntegerAggregate.goat.result [9007199254740992, 9007199254740993] =
          .integer 9007199254740992 := by decide +kernel
      exact Value.integer.inj (hn.symm.trans hresult)
    have hle : (9007199254740993 : Int64) ≤ n := hgreatest (List.mem_cons_of_mem _ List.mem_cons_self)
    rw [hfirst] at hle
    revert hle
    decide

end SkibidiQL
