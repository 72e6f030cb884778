import SkibidiQL.Base.ExceptRules
import SkibidiQL.Query.Eval
import SkibidiQL.Query.Select
import SkibidiQL.Storage.ValueOrder

/-!
# Constant folding

The first pass of the optimizer evaluates the operators whose operands are literals, with an arithmetic of
its own. Away from NaN it computes what the evaluator of expressions would have computed, and it leaves
alone what the evaluator rejects.
-/

namespace SkibidiQL

open Bytes

/-! ### The pass -/

/-- The number that a numeric literal is converted to: `lv` and `rv` of `tryFoldExpr`. -/
def Literal.number? : Literal → Option Float
  | .int value => some (Float.ofModel (.ofInt64 value))
  | .float bits => some (Float.ofBits bits)
  | _ => none

/-- `Literal::makeInt` when both literals are integers, and `Literal::makeFloat` otherwise. -/
def foldArithmetic (onIntegers : Int64 → Int64 → Int64) (onReals : Float → Float → Float)
    (lv rv : Float) : Literal → Literal → Literal
  | .int m, .int n => .int (onIntegers m n)
  | _, _ => .float (onReals lv rv).toBits

/-- The branch `op == "/"`, with a divisor other than zero. -/
def foldDivision (lv rv : Float) : Literal → Literal → Literal
  | .int m, .int n => if n ≠ 0 then .int (m / n) else .float (lv / rv).toBits
  | _, _ => .float (lv / rv).toBits

/-- The part of `tryFoldExpr` for two numbers. -/
def foldNumbers (op : BinaryOperator) (left right : Literal) (lv rv : Float) : Option Literal :=
  match op with
  | .add => some (foldArithmetic (· + ·) (· + ·) lv rv left right)
  | .sub => some (foldArithmetic (· - ·) (· - ·) lv rv left right)
  | .mul => some (foldArithmetic (· * ·) (· * ·) lv rv left right)
  -- A division by zero is left to be evaluated, to NULL.
  | .div => if rv != 0 then some (foldDivision lv rv left right) else none
  | .eq => some (.bool (lv == rv))
  | .ne => some (.bool (lv != rv))
  | .lt => some (.bool (lv < rv))
  | .gt => some (.bool (lv > rv))
  | .le => some (.bool (lv ≤ rv))
  | .ge => some (.bool (lv ≥ rv))
  | _ => none

/-- The part of `tryFoldExpr` for strings and booleans. -/
def foldTexts (op : BinaryOperator) (left right : Literal) : Option Literal :=
  match op, left, right with
  | .concat, .string s, .string t => some (.string (s ++ t))
  | .and, .bool a, .bool b => some (.bool (a && b))
  | .or, .bool a, .bool b => some (.bool (a || b))
  | _, _, _ => none

/-- `tryFoldExpr`, on an operator with two literals. -/
def foldLiterals (op : BinaryOperator) (left right : Literal) : Option Literal :=
  match left.number?, right.number? with
  | some lv, some rv => (foldNumbers op left right lv rv).or (foldTexts op left right)
  | _, _ => foldTexts op left right

/-- `tryFoldExpr`. -/
def tryFoldExpr (op : BinaryOperator) : Expr → Expr → Option Expr
  | .literal left, .literal right => (foldLiterals op left right).map .literal
  | _, _ => none

/-- The folding of a unary operator in `foldConstants`. -/
def tryFoldUnary (op : UnaryOperator) : Expr → Option Expr
  | .literal (.int value) => if op = .neg then some (.literal (.int (-value))) else none
  | .literal (.float bits) =>
    if op = .neg then some (.literal (.float (-Float.ofBits bits).toBits)) else none
  | .literal (.bool value) => if op = .not then some (.literal (.bool !value)) else none
  | _ => none

mutual

/-- `foldConstants` on an expression. -/
def foldConstants : Expr → Expr
  | .binary op left right alias' =>
    let left := foldConstants left
    let right := foldConstants right
    (tryFoldExpr op left right).getD (.binary op left right alias')
  | .unary op operand alias' =>
    let operand := foldConstants operand
    (tryFoldUnary op operand).getD (.unary op operand alias')
  | .function name args distinct alias' => .function name (foldArguments args) distinct alias'
  | expression => expression

/-- `foldConstants` on the arguments of a call. -/
def foldArguments : List Expr → List Expr
  | [] => []
  | argument :: args => foldConstants argument :: foldArguments args

end

/-- `foldConstants` on a SELECT. -/
def foldSelect (statement : SelectStmt) : SelectStmt :=
  { statement with
    columns := statement.columns.map foldConstants
    where' := statement.where'.map foldConstants
    having := statement.having.map foldConstants
    limit := statement.limit.map foldConstants
    offset := statement.offset.map foldConstants }

/-! ### What is folded -/

variable {op : BinaryOperator} {left right result : Literal} {lv rv : Float} {row : EvalRow}

/-- A numeric literal evaluates to a number. -/
theorem literalValue_number (h : left.number? = some lv) :
    (literalValue left).isNumeric ∧ (literalValue left).toFloat = lv := by
  cases left <;> cases h <;> exact ⟨rfl, rfl⟩

/-- A folded sum, difference or product has the value of the operation. -/
theorem literalValue_foldArithmetic (onIntegers : Int64 → Int64 → Int64)
    (onReals : Float → Float → Float) (hl : left.number? = some lv) (hr : right.number? = some rv) :
    literalValue (foldArithmetic onIntegers onReals lv rv left right) =
      applyArithmetic onIntegers onReals (literalValue left) (literalValue right) := by
  cases left <;> cases hl <;> cases right <;> cases hr <;> rfl

/-- A folded quotient has the value of the operation. -/
theorem literalValue_foldDivision (hl : left.number? = some lv) (hr : right.number? = some rv)
    (hzero : (rv == 0) = false) : literalValue (foldDivision lv rv left right) =
      applyArithmetic (· / ·) (· / ·) (literalValue left) (literalValue right) := by
  cases left <;> cases hl <;> cases right <;> cases hr <;> try rfl
  rw [foldDivision, if_pos]
  · rfl
  · rintro rfl
    exact absurd hzero (by decide)

/-- The comparisons of the optimizer are those of the evaluator. -/
theorem holds_compareFloat (hl : lv.isNaN = false) (hr : rv.isNaN = false) :
    BinaryOperator.lt.holds (Value.compareFloat lv rv) = decide (lv < rv) ∧
      BinaryOperator.gt.holds (Value.compareFloat lv rv) = decide (lv > rv) ∧
      BinaryOperator.le.holds (Value.compareFloat lv rv) = decide (lv ≤ rv) ∧
      BinaryOperator.ge.holds (Value.compareFloat lv rv) = decide (lv ≥ rv) := by
  have hle : decide (lv ≤ rv) = !decide (rv < lv) := by
    rw [← decide_not, decide_eq_decide]
    exact Float.le_iff_not_lt hl hr
  have hge : decide (lv ≥ rv) = !decide (lv < rv) := by
    rw [← decide_not, decide_eq_decide]
    exact Float.le_iff_not_lt hr hl
  have hasymm (h : lv < rv) : ¬rv < lv := by
    rw [Float.lt_iff_rank hr hl]
    exact not_lt_of_gt ((Float.lt_iff_rank hl hr).1 h)
  rw [hle, hge, Value.compareFloat]
  change _ ∧ _ = decide (rv < lv) ∧ _
  split
  · next h => simp [BinaryOperator.holds, h, hasymm h]
  · next h =>
    split
    · next h' => simp [BinaryOperator.holds, h, h']
    · next h' => simp [BinaryOperator.holds, h, h']

/-- The operators that compute a number. -/
def BinaryOperator.isArithmetic : BinaryOperator → Bool
  | .add | .sub | .mul | .div => true
  | _ => false

/-- Folding arithmetic is evaluating it. -/
theorem foldArithmetic_sound (hl : left.number? = some lv) (hr : right.number? = some rv)
    (hop : op.isArithmetic) (h : foldNumbers op left right lv rv = some result) :
    applyBinary op (literalValue left) (literalValue right) = .ok (literalValue result) := by
  obtain ⟨hnuml, -⟩ := literalValue_number hl
  obtain ⟨hnumr, htor⟩ := literalValue_number hr
  have hnull : ((literalValue left).isNull || (literalValue right).isNull) = false := by
    rw [Value.not_isNull_of_isNumeric hnuml, Value.not_isNull_of_isNumeric hnumr]
    rfl
  have hnumeric : ((literalValue left).isNumeric && (literalValue right).isNumeric) = true := by
    rw [hnuml, hnumr]
    rfl
  cases op with
  | add | sub | mul =>
    cases h
    rw [literalValue_foldArithmetic _ _ hl hr]
    simp only [applyBinary, hnull, hnumeric]
    rfl
  | div =>
    have h : (if rv != 0 then some (foldDivision lv rv left right) else none) = some result := h
    split at h
    · next hne =>
      have hzero : (rv == 0) = false := (Bool.not_eq_true' _).mp hne
      cases h
      rw [literalValue_foldDivision hl hr hzero]
      simp only [applyBinary, applyNumeric, hnull, hnumeric, htor, hzero]
      rfl
    · exact nomatch h
  | _ => exact nomatch hop

/-- Folding numbers is evaluating the operation, NaN apart. -/
theorem foldNumbers_sound (hl : left.number? = some lv) (hr : right.number? = some rv)
    (hnanl : lv.isNaN = false) (hnanr : rv.isNaN = false)
    (h : foldNumbers op left right lv rv = some result) :
    applyBinary op (literalValue left) (literalValue right) = .ok (literalValue result) := by
  obtain ⟨hnuml, htol⟩ := literalValue_number hl
  obtain ⟨hnumr, htor⟩ := literalValue_number hr
  have hnull : ((literalValue left).isNull || (literalValue right).isNull) = false := by
    rw [Value.not_isNull_of_isNumeric hnuml, Value.not_isNull_of_isNumeric hnumr]
    rfl
  have hbeq := Value.beq_numeric hnuml hnumr
  have hcompare := Value.compare_numeric hnuml hnumr
  rw [htol, htor] at hbeq hcompare
  obtain ⟨hlt, hgt, hle, hge⟩ := holds_compareFloat hnanl hnanr
  -- Arithmetic is folded apart; a comparison folds to what `compare` says without NaNs.
  cases op with
  | and | or | concat | other => exact nomatch h
  | add | sub | mul | div => exact foldArithmetic_sound hl hr rfl h
  | eq =>
    cases h
    simp only [applyBinary, hnull, hbeq]
    rfl
  | ne =>
    cases h
    simp only [applyBinary, hnull, bne, hbeq]
    rfl
  | lt =>
    cases h
    simp only [applyBinary, hnull, hcompare, hlt]
    rfl
  | gt =>
    cases h
    simp only [applyBinary, hnull, hcompare, hgt]
    rfl
  | le =>
    cases h
    simp only [applyBinary, hnull, hcompare, hle]
    rfl
  | ge =>
    cases h
    simp only [applyBinary, hnull, hcompare, hge]
    rfl

/-- Folding texts is evaluating the operation. -/
theorem foldTexts_sound (h : foldTexts op left right = some result) :
    applyBinary op (literalValue left) (literalValue right) = .ok (literalValue result) := by
  unfold foldTexts at h
  split at h
  · cases h
    rfl
  · cases h
    rfl
  · cases h
    rfl
  · exact nomatch h

/-- A literal is no NaN. -/
def Literal.NotNaN (value : Literal) : Prop :=
  (literalValue value).isNaN = false

/-- A literal that is not NaN is a number that is not. -/
theorem number?_not_isNaN (h : left.number? = some lv) (hnan : left.NotNaN) : lv.isNaN = false := by
  obtain ⟨hnumeric, hto⟩ := literalValue_number h
  exact hto ▸ Value.toFloat_isNaN hnumeric hnan

/-- What two literals are folded to is what they evaluate to. -/
theorem foldLiterals_sound (hl : left.NotNaN) (hr : right.NotNaN)
    (h : foldLiterals op left right = some result) :
    applyBinary op (literalValue left) (literalValue right) = .ok (literalValue result) := by
  unfold foldLiterals at h
  split at h
  · next lv rv hleft hright =>
    rcases Option.or_eq_some_iff.1 h with h | ⟨-, h⟩
    · exact foldNumbers_sound hleft hright (number?_not_isNaN hleft hl) (number?_not_isNaN hright hr) h
    · exact foldTexts_sound h
  · exact foldTexts_sound h

/-- A binary expression is folded to the literal of its operands. -/
theorem tryFoldExpr_eq_some {leftExpr rightExpr folded : Expr}
    (h : tryFoldExpr op leftExpr rightExpr = some folded) : ∃ left right result,
      leftExpr = .literal left ∧ rightExpr = .literal right ∧ folded = .literal result ∧
        foldLiterals op left right = some result := by
  unfold tryFoldExpr at h
  split at h
  · next left right =>
    obtain ⟨result, hresult, rfl⟩ := Option.map_eq_some_iff.1 h
    exact ⟨left, right, result, rfl, rfl, rfl, hresult⟩
  · exact nomatch h

/-- Folding a unary expression is evaluating it. -/
theorem tryFoldUnary_sound {op : UnaryOperator} {operand folded : Expr}
    (h : tryFoldUnary op operand = some folded) : ∃ value result, operand = .literal value ∧
      folded = .literal result ∧ applyUnary op (literalValue value) = .ok (literalValue result) := by
  unfold tryFoldUnary at h
  split at h
  · split at h
    · next hop =>
      cases h
      exact ⟨_, _, rfl, rfl, hop ▸ rfl⟩
    · exact nomatch h
  · split at h
    · next hop =>
      cases h
      exact ⟨_, _, rfl, rfl, hop ▸ rfl⟩
    · exact nomatch h
  · split at h
    · next hop =>
      cases h
      exact ⟨_, _, rfl, rfl, hop ▸ rfl⟩
    · exact nomatch h
  · exact nomatch h

/-! ### Whole expressions -/

/-- No value that is computed on the way to the value of the expression is a NaN. -/
def NaNFreeEval (row : EvalRow) : Expr → Prop
  | .binary op left right alias' =>
    NaNFreeEval row left ∧ NaNFreeEval row right ∧
      ∀ v, eval (.binary op left right alias') row = .ok v → v.isNaN = false
  | .unary op operand alias' =>
    NaNFreeEval row operand ∧ ∀ v, eval (.unary op operand alias') row = .ok v → v.isNaN = false
  | expression => ∀ v, eval expression row = .ok v → v.isNaN = false

/-- An evaluation without NaN gives none. -/
theorem NaNFreeEval.value {expression : Expr} (h : NaNFreeEval row expression) {v : Value}
    (hv : eval expression row = .ok v) : v.isNaN = false := by
  cases expression with
  | binary => exact h.2.2 v hv
  | unary => exact h.2 v hv
  | _ => exact h v hv

/-- Folding changes neither the value of an expression nor its error. -/
theorem eval_foldConstants_eq (expression : Expr) (h : NaNFreeEval row expression) :
    eval (foldConstants expression) row = eval expression row := by
  induction expression using Expr.operatorInduction with
  | binary op left right alias' ihl ihr =>
    rw [foldConstants]
    cases hfold : tryFoldExpr op (foldConstants left) (foldConstants right) with
    | none =>
      show eval (.binary op (foldConstants left) (foldConstants right) alias') row = _
      rw [eval, eval, ihl h.1, ihr h.2.1]
    -- The sides folded to literals, so by induction they evaluate to these on every row.
    | some folded =>
      obtain ⟨l, r, result, hleft, hright, rfl, hresult⟩ := tryFoldExpr_eq_some hfold
      have hl : eval left row = .ok (literalValue l) := by
        rw [← ihl h.1, hleft, eval]
        rfl
      have hr : eval right row = .ok (literalValue r) := by
        rw [← ihr h.2.1, hright, eval]
        rfl
      show eval (.literal result) row = _
      rw [eval, eval, hl, hr]
      exact (foldLiterals_sound (h.1.value hl) (h.2.1.value hr) hresult).symm
  | unary op operand alias' ih =>
    rw [foldConstants]
    cases hfold : tryFoldUnary op (foldConstants operand) with
    | none =>
      show eval (.unary op (foldConstants operand) alias') row = _
      rw [eval, eval, ih h.1]
    | some folded =>
      obtain ⟨value, result, hvalue, rfl, happly⟩ := tryFoldUnary_sound hfold
      have hoperand : eval operand row = .ok (literalValue value) := by
        rw [← ih h.1, hvalue, eval]
        rfl
      show eval (.literal result) row = _
      rw [eval, eval, hoperand]
      exact happly.symm
  | function name args distinct alias' => rw [foldConstants, eval, eval]
  | _ => rw [foldConstants] <;> nofun

/-- Constant folding preserves meaning: for every expression and every row, away from NaN, a value stays
the same value of the same type, and an error stays an error. -/
theorem eval_foldConstants (expression : Expr) (row : EvalRow) (h : NaNFreeEval row expression) :
    (∀ v, eval expression row = .ok v → eval (foldConstants expression) row = .ok v) ∧
      ((∃ e, eval expression row = .error e) → ∃ e, eval (foldConstants expression) row = .error e) := by
  rw [eval_foldConstants_eq expression h]
  exact ⟨fun _ ↦ id, id⟩

/-- The sum of two integers, folded. -/
theorem eval_foldConstants_sum :
    eval (foldConstants (.binary .add (.literal (.int 1)) (.literal (.int 2)) [])) {} =
      .ok (.integer 3) := by
  have hfree : NaNFreeEval {} (.binary .add (.literal (.int 1)) (.literal (.int 2)) []) := by
    refine ⟨fun v hv ↦ ?_, fun v hv ↦ ?_, fun v hv ↦ ?_⟩
    all_goals
      cases hv
      exact Value.isNaN_integer _
  exact (eval_foldConstants _ {} hfree).1 _ rfl

end SkibidiQL
