import SkibidiQL.Query.DirectPlanning

/-!
# Predicates by comparison

Direct aggregation tests its predicate with `Value::compare` alone, where WHERE tests equations with
`Value::operator==`. The two differ on an equation or an inequation with a NaN, on the rows with a number in the
column. The range of the column rules out what the test by comparison rules out.
-/

namespace SkibidiQL

variable {predicate : PredicatePlan} {field : Value}

namespace PredicatePlan

/-- Whether WHERE holds on the value of the column. -/
def holds (plan : PredicatePlan) (field : Value) : Bool :=
  if field.isNull || plan.literal.isNull then false
  else match plan.op with
    | .eq => field == plan.literal
    | .ne => field != plan.literal
    | op => op.holds (if plan.columnOnLeft then field.compare plan.literal else plan.literal.compare field)

/-- The predicate is an equation or an inequation with a NaN. -/
def comparesNaN (plan : PredicatePlan) : Bool :=
  plan.literal.isNaN && (plan.op == .eq || plan.op == .ne)

end PredicatePlan

/-- The operators of a predicate. -/
theorem comparisonOperator_cases {op : BinaryOperator} (h : comparisonOperator op) :
    op = .eq ∨ op = .ne ∨ op = .lt ∨ op = .gt ∨ op = .le ∨ op = .ge := by
  cases op <;> simp [comparisonOperator] at h ⊢

/-- The value of WHERE says whether it holds. -/
theorem apply_eq_ok (hop : comparisonOperator predicate.op) (field : Value) :
    ∃ value, predicate.apply field = .ok value ∧ value.asBoolean = predicate.holds field := by
  obtain ⟨column, op, literal, columnOnLeft⟩ := predicate
  dsimp only at hop
  rw [PredicatePlan.apply, PredicatePlan.holds]
  dsimp only
  by_cases hnull : field.isNull || literal.isNull
  · refine ⟨.null, ?_, by rw [if_pos hnull]; rfl⟩
    have hnull' : literal.isNull || field.isNull := by rwa [Bool.or_comm]
    rcases comparisonOperator_cases hop with rfl | rfl | rfl | rfl | rfl | rfl <;> cases columnOnLeft <;>
      simp [applyBinary, hnull, hnull']
  · have hnull' : ¬(literal.isNull || field.isNull) := by rwa [Bool.or_comm]
    rw [if_neg hnull]
    rcases comparisonOperator_cases hop with rfl | rfl | rfl | rfl | rfl | rfl <;> cases columnOnLeft <;>
      simp only [applyBinary, hnull, hnull', if_false, if_true, Bool.false_eq_true, Except.pure_eq_ok] <;>
      refine ⟨_, rfl, ?_⟩ <;>
      first | rfl | exact Value.beq_comm _ _ | exact congrArg not (Value.beq_comm _ _)

theorem isNull_of_isNaN {value : Value} (h : value.isNaN) : value.isNull = false :=
  Value.not_isNull_of_isNumeric (Value.isNumeric_of_isNaN h)

/-- A value that is no NaN compares as equal with the literal when it is equal to it, unless both are numbers
and the literal is a NaN. -/
theorem compare_literal_eq_iff {literal : Value} (hnan : field.isNaN = false)
    (h : ¬(literal.isNaN ∧ field.isNumeric)) : field.compare literal = .eq ↔ field == literal := by
  by_cases hliteral : literal.isNaN
  · have hnumeric : field.isNumeric = false := Bool.eq_false_iff.2 fun hn ↦ h ⟨hliteral, hn⟩
    refine iff_of_false (fun heq ↦ ?_) (Value.not_beq_isNaN (.inr hliteral))
    obtain rfl := Value.eq_of_compare_eq (.inl hnumeric) heq
    rw [hnan] at hliteral
    cases hliteral
  · exact Value.compare_eq_iff hnan (Bool.eq_false_iff.2 hliteral)

theorem isEq_swap (order : Ordering) : order.swap.isEq = order.isEq := by
  cases order <;> rfl

theorem normalizeColumnPredicateOp_eq {op : BinaryOperator} {columnOnLeft : Bool} :
    normalizeColumnPredicateOp op columnOnLeft = .eq ↔ op = .eq := by
  cases columnOnLeft <;> cases op <;> simp [normalizeColumnPredicateOp]

/-- A predicate compares the value with the literal, by its operator the other way round when the literal
comes first. -/
theorem accepts_normalized (hop : comparisonOperator predicate.op) :
    predicate.accepts field = (!(field.isNull || predicate.literal.isNull) &&
      (normalizeColumnPredicateOp predicate.op predicate.columnOnLeft).holds
        (field.compare predicate.literal)) := by
  obtain ⟨column, op, literal, columnOnLeft⟩ := predicate
  rw [PredicatePlan.accepts]
  dsimp only at hop ⊢
  split
  · rename_i hnull
    rw [hnull]
    rfl
  · rename_i hnull
    rw [Bool.eq_false_iff.2 hnull]
    cases columnOnLeft
    · rcases comparisonOperator_cases hop with rfl | rfl | rfl | rfl | rfl | rfl <;>
        cases field.compare literal <;> rfl
    · rfl

/-- The test by comparison is WHERE, but for an equation or an inequation of a number with a NaN. -/
theorem accepts_eq_holds (hop : comparisonOperator predicate.op) (hnan : field.isNaN = false)
    (h : ¬(predicate.comparesNaN ∧ field.isNumeric)) : predicate.accepts field = predicate.holds field := by
  obtain ⟨column, op, literal, columnOnLeft⟩ := predicate
  rw [PredicatePlan.accepts, PredicatePlan.holds]
  dsimp only at hop ⊢
  have heq (hcompares : op = .eq ∨ op = .ne) : (field.compare literal).isEq = (field == literal) := by
    rw [Bool.eq_iff_iff, Ordering.isEq_iff_eq_eq]
    refine compare_literal_eq_iff hnan fun hboth ↦ h ⟨?_, hboth.2⟩
    rw [PredicatePlan.comparesNaN, hboth.1]
    rcases hcompares with rfl | rfl <;> rfl
  have hswap (hcompares : op = .eq ∨ op = .ne) : (literal.compare field).isEq = (field == literal) := by
    rw [Value.compare_swap, isEq_swap, heq hcompares]
  have hne (order : Ordering) : order.isNe = !order.isEq := by cases order <;> rfl
  split
  · rfl
  · rcases comparisonOperator_cases hop with rfl | rfl | rfl | rfl | rfl | rfl <;> cases columnOnLeft <;>
      simp [BinaryOperator.holds, heq, hswap, hne, bne, ← Value.compare_swap]

/-- A NaN compares as equal with the numbers. -/
theorem compare_isNaN_isEq {literal : Value} (hnan : literal.isNaN) (field : Value) :
    (field.compare literal).isEq = field.isNumeric := by
  have hliteral := Value.isNumeric_of_isNaN hnan
  by_cases hnumeric : field.isNumeric
  · rw [Value.compare_isNaN hnumeric hliteral (.inr hnan), hnumeric]
    rfl
  · rw [Bool.eq_false_iff.2 hnumeric, Bool.eq_false_iff]
    intro heq
    rw [Ordering.isEq_iff_eq_eq] at heq
    obtain rfl := Value.eq_of_compare_eq (.inl (Bool.eq_false_iff.2 hnumeric)) heq
    exact hnumeric hliteral

/-- An equation with a NaN accepts the numbers, and holds of nothing. -/
theorem accepts_eq_isNaN (hnan : predicate.literal.isNaN) (hop : predicate.op = .eq) (field : Value) :
    predicate.accepts field = field.isNumeric ∧ predicate.holds field = false := by
  have hliteral := isNull_of_isNaN hnan
  have hbeq : (field == predicate.literal) = false := Bool.eq_false_iff.2 (Value.not_beq_isNaN (.inr hnan))
  have hnormal : normalizeColumnPredicateOp predicate.op predicate.columnOnLeft = .eq := by
    rw [hop]
    cases predicate.columnOnLeft <;> rfl
  constructor
  · rw [accepts_normalized (by rw [hop]; rfl), hnormal, BinaryOperator.holds, compare_isNaN_isEq hnan, hliteral,
      Bool.or_false]
    cases hnumeric : field.isNumeric
    · exact Bool.and_false _
    · rw [Value.not_isNull_of_isNumeric hnumeric]
      rfl
  · simp [PredicatePlan.holds, hop, hbeq]

/-- An inequation with a NaN accepts what is no number, and holds of anything but NULL. -/
theorem accepts_ne_isNaN (hnan : predicate.literal.isNaN) (hop : predicate.op = .ne) (field : Value) :
    predicate.accepts field = (!field.isNull && !field.isNumeric) ∧ predicate.holds field = !field.isNull := by
  have hliteral := isNull_of_isNaN hnan
  have hbeq : (field == predicate.literal) = false := Bool.eq_false_iff.2 (Value.not_beq_isNaN (.inr hnan))
  have hnormal : normalizeColumnPredicateOp predicate.op predicate.columnOnLeft = .ne := by
    rw [hop]
    cases predicate.columnOnLeft <;> rfl
  have hne (order : Ordering) : order.isNe = !order.isEq := by cases order <;> rfl
  constructor
  · rw [accepts_normalized (by rw [hop]; rfl), hnormal, BinaryOperator.holds, hne, compare_isNaN_isEq hnan,
      hliteral, Bool.or_false]
  · simp [PredicatePlan.holds, hop, bne, hbeq, hliteral]

/-! ### Pruning -/

section Prune

variable {range : ColumnRange} {values : List Value} (type : ValueType)
  (hcovers : range.Covers values) (htype : ∀ v ∈ values, v.type = type)
  (hnan : ∀ v ∈ values, v.isNaN = false)

include hcovers htype hnan

/-- Whatever a value of the range is to the literal, one of the bounds is too. -/
theorem Covers.compare_bounds (hpresent : range.present) (literal : Value) {v : Value} (hv : v ∈ values) :
    (v.compare literal = .lt → range.min.compare literal = .lt) ∧
      (v.compare literal = .gt → range.max.compare literal = .gt) ∧
      (v.compare literal ≠ .gt → range.min.compare literal ≠ .gt) ∧
      (v.compare literal ≠ .lt → range.max.compare literal ≠ .lt) := by
  have hmin := hcovers.min_mem hpresent
  have hmax := hcovers.max_mem hpresent
  by_cases hliteral : literal.isNaN
  · -- all values of one type are the same to a NaN
    have hsame : ∀ u ∈ values, u.compare literal = v.compare literal := by
      intro u hu
      have huv : u.type = v.type := (htype u hu).trans (htype v hv).symm
      by_cases hnumeric : u.isNumeric
      · have hnumeric' : v.isNumeric := by rwa [Value.isNumeric, ← huv]
        have hn := Value.isNumeric_of_isNaN hliteral
        rw [Value.compare_isNaN hnumeric hn (.inr hliteral), Value.compare_isNaN hnumeric' hn (.inr hliteral)]
      · refine Value.compare_const huv (.inl (Bool.eq_false_iff.2 hnumeric)) fun heq ↦ hnumeric ?_
        rw [Value.isNumeric, heq]
        exact Value.isNumeric_of_isNaN hliteral
    rw [hsame _ hmin, hsame _ hmax]
    exact ⟨id, id, id, id⟩
  · have hliteral' := Bool.eq_false_iff.2 hliteral
    have hminType := (htype _ hmin).trans (htype v hv).symm
    have hmaxType := (htype v hv).trans (htype _ hmax).symm
    have hle := hcovers.min_le v hv
    have hge := hcovers.le_max v hv
    -- NaN apart the order is transitive, so the bounds go along with the value between them.
    have hup (h : literal.compare v = .lt) : literal.compare range.max = .lt :=
      Value.compare_trans' hmaxType hliteral' (hnan v hv) (hnan _ hmax) h hge
    have hdown (h : v.compare literal = .lt) : range.min.compare literal = .lt :=
      Value.compare_trans hminType (hnan _ hmin) (hnan v hv) hliteral' hle h
    refine ⟨hdown, fun h ↦ ?_, fun h hgt ↦ h ?_, fun h hlt ↦ h ?_⟩
    · rw [Value.compare_swap, hup (Value.compare_lt_of_gt h)]
      rfl
    · rw [Value.compare_swap, Value.compare_trans' hminType hliteral' (hnan _ hmin) (hnan v hv)
        (Value.compare_lt_of_gt hgt) hle]
      rfl
    · exact Value.compare_trans hmaxType (hnan v hv) (hnan _ hmax) hliteral' hge hlt

/-- What the range excludes, no value satisfies by comparison. -/
theorem Covers.accepts_of_minMaxProvesEmpty (hop : comparisonOperator predicate.op)
    (h : minMaxProvesEmpty predicate range) : ∀ v ∈ values, predicate.accepts v = false := by
  intro v hv
  by_contra haccepts
  rw [Bool.not_eq_false, accepts_normalized hop, Bool.and_eq_true, Bool.not_eq_true', Bool.or_eq_false_iff] at haccepts
  obtain ⟨⟨-, hliteral⟩, hholds⟩ := haccepts
  have hpresent : range.present := hcovers.present_iff.2 (List.ne_nil_of_mem hv)
  obtain ⟨hlt, hgt, hle, hge⟩ := Covers.compare_bounds type hcovers htype hnan hpresent predicate.literal hv
  have hop' : comparisonOperator (normalizeColumnPredicateOp predicate.op predicate.columnOnLeft) := by
    rcases comparisonOperator_cases hop with hop | hop | hop | hop | hop | hop <;> rw [hop] <;>
      cases predicate.columnOnLeft <;> rfl
  rw [minMaxProvesEmpty, hliteral, hpresent, Bool.not_true, Bool.or_false, if_neg Bool.false_ne_true,
    Value.compare_swap range.min, Value.compare_swap range.max] at h
  revert h hholds
  rcases comparisonOperator_cases hop' with heq | heq | heq | heq | heq | heq <;> rw [heq] <;>
    cases hcompare : v.compare predicate.literal <;>
    cases hminCompare : range.min.compare predicate.literal <;>
    cases hmaxCompare : range.max.compare predicate.literal <;> simp_all [BinaryOperator.holds]

end Prune

end SkibidiQL
