import SkibidiQL.Base.ListRules
import SkibidiQL.Optimizer.MetadataRewrites

/-!
# Names of the output columns

The optimizer keeps the names of the output columns except where constant folding replaces an operator by
a literal: a literal has no alias, and its column is named by its position. `constantKind` says which
expressions are replaced.
-/

namespace SkibidiQL

open Bytes

/-! ### Expressions that become literals -/

/-- `enum class LiteralKind`. -/
inductive LiteralKind where
  | int | float | string | nul | bool
deriving DecidableEq

/-- `Literal::kind`. -/
def Literal.kind : Literal → LiteralKind
  | .int _ => .int
  | .float _ => .float
  | .string _ => .string
  | .nul => .nul
  | .bool _ => .bool

namespace LiteralKind

/-- The kinds of numbers. -/
def isNumber (kind : LiteralKind) : Bool :=
  kind == .int || kind == .float

/-- The kind of the result of an arithmetic operation. -/
def arithmetic (left right : LiteralKind) : LiteralKind :=
  if left = .int ∧ right = .int then .int else .float

/-- The kind of literal that an operator makes of two literals, if it makes one. -/
def binary (op : BinaryOperator) (left right : LiteralKind) (zeroDivisor : Bool) : Option LiteralKind :=
  match op with
  | .add | .sub | .mul => if left.isNumber && right.isNumber then some (arithmetic left right) else none
  | .div =>
    if left.isNumber && right.isNumber && !zeroDivisor then some (arithmetic left right) else none
  | .eq | .ne | .lt | .gt | .le | .ge =>
    if left.isNumber && right.isNumber then some .bool else none
  | .concat => if left = .string ∧ right = .string then some .string else none
  | .and | .or => if left = .bool ∧ right = .bool then some .bool else none
  | .other _ => none

/-- The kind of literal that an operator makes of a literal, if it makes one. -/
def unary (op : UnaryOperator) (operand : LiteralKind) : Option LiteralKind :=
  match op with
  | .neg => if operand.isNumber then some operand else none
  | .not => if operand = .bool then some .bool else none
  | .other _ => none

end LiteralKind

/-- Whether the expression, which reads no column, evaluates to zero. -/
def evaluatesToZero (expression : Expr) : Bool :=
  match eval expression {} with
  | .ok value => value.toFloat == 0
  | .error _ => false

/-- The kind of a constant: of a literal, or of an operator on constants of fitting kinds that does not
divide by zero. -/
def constantKind : Expr → Option LiteralKind
  | .literal value => some value.kind
  | .binary op left right _ => do
    LiteralKind.binary op (← constantKind left) (← constantKind right) (evaluatesToZero right)
  | .unary op operand _ => do LiteralKind.unary op (← constantKind operand)
  | _ => none

/-- The literal that an expression is. -/
def Expr.literal? : Expr → Option Literal
  | .literal value => some value
  | _ => none

variable {op : BinaryOperator} {left right result value : Literal} {lv rv : Float} {row : EvalRow}

theorem isNumber_kind : left.kind.isNumber = left.number?.isSome := by
  cases left <;> rfl

/-- The kind of a folded sum, difference or product. -/
theorem kind_foldArithmetic (onIntegers : Int64 → Int64 → Int64) (onReals : Float → Float → Float)
    (hl : left.number? = some lv) (hr : right.number? = some rv) :
    (foldArithmetic onIntegers onReals lv rv left right).kind =
      LiteralKind.arithmetic left.kind right.kind := by
  cases left <;> cases hl <;> cases right <;> cases hr <;> rfl

/-- The kind of a folded quotient. -/
theorem kind_foldDivision (hl : left.number? = some lv) (hr : right.number? = some rv)
    (hzero : (rv == 0) = false) :
    (foldDivision lv rv left right).kind = LiteralKind.arithmetic left.kind right.kind := by
  cases left <;> cases hl <;> cases right <;> cases hr <;> try rfl
  rw [foldDivision, if_pos]
  · rfl
  · rintro rfl
    exact absurd hzero (by decide)

theorem foldTexts_of_number (h : left.number? = some lv) : foldTexts op left right = none := by
  cases left <;> cases h <;> cases op <;> rfl

/-- The kind of what is folded as texts. -/
theorem kind_foldTexts {zeroDivisor : Bool} (h : (left.kind.isNumber && right.kind.isNumber) = false) :
    (foldTexts op left right).map Literal.kind =
      LiteralKind.binary op left.kind right.kind zeroDivisor := by
  cases op with
  | concat | and | or => cases left <;> cases right <;> rfl
  | other => rfl
  | div =>
    unfold LiteralKind.binary
    rw [h]
    rfl
  | _ =>
    unfold LiteralKind.binary
    rw [h]
    rfl

/-- The kind of a quotient, when it is folded. -/
theorem kind_foldNumbers_div (hl : left.number? = some lv) (hr : right.number? = some rv)
    (hnumbers : (left.kind.isNumber && right.kind.isNumber) = true) :
    (foldNumbers .div left right lv rv).map Literal.kind =
      LiteralKind.binary .div left.kind right.kind (rv == 0) := by
  have hdivision := kind_foldDivision hl hr
  unfold foldNumbers LiteralKind.binary bne
  rw [hnumbers, Bool.true_and]
  generalize (rv == 0) = zero at hdivision ⊢
  cases zero with
  | true => rfl
  | false => exact congrArg some (hdivision rfl)

/-- The kind of the literal that two literals are folded to. -/
theorem kind_foldLiterals : (foldLiterals op left right).map Literal.kind =
    LiteralKind.binary op left.kind right.kind ((literalValue right).toFloat == 0) := by
  cases hl : left.number? with
  | none =>
    rw [foldLiterals, hl]
    exact kind_foldTexts (by rw [isNumber_kind, hl]; rfl)
  | some lv =>
    cases hr : right.number? with
    | none =>
      rw [foldLiterals, hl, hr]
      exact kind_foldTexts (by rw [isNumber_kind, isNumber_kind, hl, hr]; rfl)
    | some rv =>
      have hnumbers : (left.kind.isNumber && right.kind.isNumber) = true := by
        rw [isNumber_kind, isNumber_kind, hl, hr]
        rfl
      simp only [foldLiterals, hl, hr, foldTexts_of_number hl, Option.or_none,
        (literalValue_number hr).2]
      cases op with
      | add | sub | mul =>
        simp only [foldNumbers, LiteralKind.binary, hnumbers, Option.map_some,
          kind_foldArithmetic _ _ hl hr, if_true]
      | div => exact kind_foldNumbers_div hl hr hnumbers
      | eq | ne | lt | gt | le | ge =>
        unfold LiteralKind.binary
        rw [hnumbers]
        rfl
      | concat | and | or => cases left <;> cases hl <;> rfl
      | other => rfl

/-- A number that constant folding computes is what the evaluator computes, NaN or not. -/
theorem foldLiterals_number (h : foldLiterals op left right = some result)
    (hnumber : result.kind.isNumber) :
    applyBinary op (literalValue left) (literalValue right) = .ok (literalValue result) := by
  unfold foldLiterals at h
  split at h
  · next lv rv hl hr =>
    rw [foldTexts_of_number hl, Option.or_none] at h
    by_cases hop : op.isArithmetic
    · exact foldArithmetic_sound hl hr hop h
    · cases op with
      | add | sub | mul | div => exact absurd rfl hop
      | eq | ne | lt | gt | le | ge =>
        cases h
        exact nomatch hnumber
      | _ => exact nomatch h
  · exact foldTexts_sound h

/-- A divisor that is no number is not asked whether it is zero. -/
theorem binary_of_not_number {a b : LiteralKind} (hb : b.isNumber = false) (z z' : Bool) :
    LiteralKind.binary op a b z = LiteralKind.binary op a b z' := by
  cases op with
  | div =>
    unfold LiteralKind.binary
    rw [hb, Bool.and_false]
    rfl
  | _ => rfl

/-- A number is computed from numbers. -/
theorem isNumber_of_binary {a b k : LiteralKind} {z : Bool} (h : LiteralKind.binary op a b z = some k)
    (hk : k.isNumber) : a.isNumber ∧ b.isNumber := by
  cases op with
  | add | sub | mul =>
    obtain ⟨hab, -⟩ := Option.ite_none_right_eq_some.1 h
    exact Bool.and_eq_true_iff.1 hab
  | div =>
    obtain ⟨hab, -⟩ := Option.ite_none_right_eq_some.1 h
    exact Bool.and_eq_true_iff.1 (Bool.and_eq_true_iff.1 hab).1
  | other => exact nomatch h
  | _ =>
    obtain ⟨-, heq⟩ := Option.ite_none_right_eq_some.1 h
    cases heq
    exact nomatch hk

/-- A binary expression is folded to a literal when its operands are literals that fold. -/
theorem literal?_tryFoldExpr (op : BinaryOperator) (leftExpr rightExpr : Expr) (alias' : Bytes) :
    ((tryFoldExpr op leftExpr rightExpr).getD (.binary op leftExpr rightExpr alias')).literal? =
      (do foldLiterals op (← leftExpr.literal?) (← rightExpr.literal?)) := by
  cases leftExpr <;> cases rightExpr <;> try rfl
  next l r =>
    show (((foldLiterals op l r).map Expr.literal).getD _).literal? = foldLiterals op l r
    cases foldLiterals op l r <;> rfl

/-- The kind of a folded unary expression. -/
theorem kind_tryFoldUnary (op : UnaryOperator) (operand : Expr) (alias' : Bytes) :
    ((tryFoldUnary op operand).getD (.unary op operand alias')).literal?.map Literal.kind =
      operand.literal?.map Literal.kind >>= LiteralKind.unary op := by
  cases operand with
  | literal value => cases value <;> cases op <;> rfl
  | _ => rfl

/-- A number is computed from a number. -/
theorem isNumber_of_unary {op : UnaryOperator} {a k : LiteralKind}
    (h : LiteralKind.unary op a = some k) (hk : k.isNumber) : a.isNumber := by
  cases op with
  | neg => exact (Option.ite_none_right_eq_some.1 h).1
  | not =>
    obtain ⟨-, heq⟩ := Option.ite_none_right_eq_some.1 h
    cases heq
    exact nomatch hk
  | other => exact nomatch h

theorem eq_literal_of_literal? {expression : Expr} (h : expression.literal? = some value) :
    expression = .literal value := by
  cases expression <;> cases h
  rfl

/-- Folding makes a literal of an expression exactly when the expression is a constant, of that kind; and
a number is the value of the expression. -/
theorem literal?_foldConstants (expression : Expr) :
    (foldConstants expression).literal?.map Literal.kind = constantKind expression ∧
      ∀ row value, foldConstants expression = .literal value → value.kind.isNumber →
        eval expression row = .ok (literalValue value) := by
  induction expression using Expr.operatorInduction with
  | literal value =>
    rw [foldConstants, constantKind]
    · refine ⟨rfl, ?_⟩
      rintro row value ⟨⟩ -
      rfl
    all_goals simp
  | binary op left right alias' ihl ihr =>
    obtain ⟨hkindl, hvaluel⟩ := ihl
    obtain ⟨hkindr, hvaluer⟩ := ihr
    have hliteral := literal?_tryFoldExpr op (foldConstants left) (foldConstants right) alias'
    rw [foldConstants, constantKind, ← hkindl, ← hkindr]
    constructor
    · refine (congrArg _ hliteral).trans ?_
      cases (foldConstants left).literal? with
      | none => rfl
      | some l =>
        cases hr : (foldConstants right).literal? with
        | none => rfl
        | some r =>
          refine kind_foldLiterals.trans ?_
          -- Only a number on the right can be the zero that stops a division from folding.
          cases hnumber : r.kind.isNumber with
          | false => exact binary_of_not_number hnumber _ _
          | true =>
            have hvalue := hvaluer {} r (eq_literal_of_literal? hr) hnumber
            have hzero : evaluatesToZero right = ((literalValue r).toFloat == 0) := by
              rw [evaluatesToZero, hvalue]
            rw [← hzero]
            rfl
    -- What was folded to a number came from two literals, and folding these is evaluating them.
    · intro row value heq hnumber
      rw [heq] at hliteral
      obtain ⟨l, hl, hliteral⟩ := Option.bind_eq_some_iff.1 hliteral.symm
      obtain ⟨r, hr, hfold⟩ := Option.bind_eq_some_iff.1 hliteral
      have hkind := (congrArg (Option.map Literal.kind) hfold).symm.trans kind_foldLiterals
      obtain ⟨hnumberl, hnumberr⟩ := isNumber_of_binary hkind.symm hnumber
      rw [eval, hvaluel row l (eq_literal_of_literal? hl) hnumberl,
        hvaluer row r (eq_literal_of_literal? hr) hnumberr]
      exact foldLiterals_number hfold hnumber
  | unary op operand alias' ih =>
    obtain ⟨hkind, hvalue⟩ := ih
    have hunary := kind_tryFoldUnary op (foldConstants operand) alias'
    rw [foldConstants, constantKind, ← hkind]
    refine ⟨hunary, fun row value heq hnumber ↦ ?_⟩
    rw [heq] at hunary
    cases hfold : tryFoldUnary op (foldConstants operand) with
    | none =>
      rw [hfold] at heq
      cases heq
    | some folded =>
      rw [hfold] at heq
      cases heq
      obtain ⟨v, _, hoperand, ⟨⟩, happly⟩ := tryFoldUnary_sound hfold
      rw [hoperand] at hunary
      have hnumberv : v.kind.isNumber := isNumber_of_unary hunary.symm hnumber
      rw [eval, hvalue row v hoperand hnumberv]
      exact happly
  | function name args distinct alias' =>
    rw [foldConstants, constantKind]
    · exact ⟨rfl, fun _ _ h ↦ by cases h⟩
    all_goals simp
  | _ =>
    rw [foldConstants, constantKind]
    · exact ⟨rfl, fun _ _ h ↦ by cases h⟩
    all_goals simp

/-! ### Names -/

/-- The alias of an operator. -/
def Expr.operatorAlias : Expr → Bytes
  | .binary _ _ _ alias' => alias'
  | .unary _ _ alias' => alias'
  | _ => []

/-- The name of a column without an alias. -/
def unnamedColumn (index : Nat) : Bytes :=
  lit "expr" ++ ofNat (index + 1)

/-- A column that is folded either becomes a literal or keeps its name. -/
theorem expressionAlias_of_literal?_eq_none {expression : Expr} {index : Nat}
    (h : (foldConstants expression).literal? = none) :
    expressionAlias (foldConstants expression) index = expressionAlias expression index := by
  cases expression with
  | binary op left right alias' =>
    rw [foldConstants] at h ⊢
    cases hfold : tryFoldExpr op (foldConstants left) (foldConstants right) with
    | none => rfl
    | some folded =>
      obtain ⟨_, _, value, _, _, rfl, _⟩ := tryFoldExpr_eq_some hfold
      rw [hfold] at h
      cases h
  | unary op operand alias' =>
    rw [foldConstants] at h ⊢
    cases hfold : tryFoldUnary op (foldConstants operand) with
    | none => rfl
    | some folded =>
      obtain ⟨_, value, _, rfl, _⟩ := tryFoldUnary_sound hfold
      rw [hfold] at h
      cases h
  | function name args distinct alias' => rw [foldConstants]; rfl
  | _ => rw [foldConstants] <;> simp

/-- The name of a literal is its position. -/
theorem expressionAlias_of_literal? {expression : Expr} {index : Nat}
    (h : expression.literal?.isSome) : expressionAlias expression index = unnamedColumn index := by
  cases expression <;> first | rfl | exact nomatch h

/-- The name of a constant is its position or its alias. -/
theorem expressionAlias_of_constantKind {expression : Expr} {index : Nat}
    (h : (constantKind expression).isSome) : expressionAlias expression index =
      if expression.operatorAlias.isEmpty then unnamedColumn index else expression.operatorAlias := by
  cases expression with
  | literal | binary | unary => rfl
  | _ => exact nomatch h

/-- Folding keeps the name of a column that is no constant operator under an alias. -/
theorem expressionAlias_foldConstants_iff (expression : Expr) (index : Nat) :
    expressionAlias (foldConstants expression) index = expressionAlias expression index ↔
      ((constantKind expression).isSome →
        expression.operatorAlias = [] ∨ expression.operatorAlias = unnamedColumn index) := by
  have hkind := (literal?_foldConstants expression).1
  cases hconstant : (constantKind expression).isSome with
  | false =>
    rw [← hkind, Option.isSome_map, Option.isSome_eq_false_iff, Option.isNone_iff_eq_none] at hconstant
    exact iff_of_true (expressionAlias_of_literal?_eq_none hconstant) nofun
  | true =>
    have hliteral : (foldConstants expression).literal?.isSome := by
      rw [← Option.isSome_map, hkind, hconstant]
    rw [expressionAlias_of_literal? hliteral, expressionAlias_of_constantKind hconstant]
    refine Iff.trans ?_ (forall_prop_of_true rfl).symm
    cases expression.operatorAlias with
    | nil => exact iff_of_true rfl (.inl rfl)
    | cons c cs =>
      rw [or_iff_right (List.cons_ne_nil _ _)]
      exact eq_comm

/-- The names that a column of the select list contributes. -/
def columnNames (catalog : Catalog) (statement : SelectStmt) (sample : Option (List BoundColumn))
    (item : Expr × Nat) : List Bytes :=
  match item.1, sample with
  | .wildcard wildcard, some columns =>
    (columns.filter fun column ↦ wildcard.covers column.table column.alias').map (·.name)
  | .wildcard wildcard, none => wildcardNames catalog statement wildcard
  | expression, _ => [expressionAlias expression item.2]

/-- The names of the output are those of its columns. -/
theorem outputNames_eq (catalog : Catalog) (statement : SelectStmt)
    (sample : Option (List BoundColumn)) :
    outputNames catalog statement sample =
      statement.columns.zipIdx.flatMap (columnNames catalog statement sample) := rfl

/-- A column that is no wildcard has one name. -/
theorem columnNames_of_not_wildcard {catalog : Catalog} {statement : SelectStmt}
    {sample : Option (List BoundColumn)} {expression : Expr} {index : Nat}
    (h : expression.isWildcard = false) :
    columnNames catalog statement sample (expression, index) = [expressionAlias expression index] := by
  cases expression <;> first | rfl | exact nomatch h

/-! ### The statement after all passes -/

variable {catalog engine : Catalog} {statement : SelectStmt}

/-- What a pass keeps of a column of the select list for the names of the output. -/
structure KeepsName (pass : Expr → Expr) : Prop where
  wildcard (wildcard : Wildcard) : pass (.wildcard wildcard) = .wildcard wildcard
  isWildcard (expression : Expr) : (pass expression).isWildcard = expression.isWildcard
  expressionAlias (expression : Expr) (index : Nat) :
    expressionAlias (pass expression) index = expressionAlias expression index

theorem keepsName_id : KeepsName id where
  wildcard _ := rfl
  isWildcard _ := rfl
  expressionAlias _ _ := rfl

/-- The rewriting of counts keeps the alias of every node it rebuilds. -/
theorem keepsName_rewriteNonNullCounts (catalog : Catalog) (statement : SelectStmt) :
    KeepsName (rewriteNonNullCounts catalog statement) where
  wildcard _ := by rw [rewriteNonNullCounts] <;> nofun
  isWildcard expression := by
    cases expression with
    | function name args distinct alias' =>
      rw [rewriteNonNullCounts]
      split <;> rfl
    | _ => rw [rewriteNonNullCounts] <;> first | rfl | nofun
  expressionAlias expression index := by
    cases expression with
    | function name args distinct alias' =>
      rw [rewriteNonNullCounts]
      split <;> rfl
    | _ => rw [rewriteNonNullCounts] <;> first | rfl | nofun

/-- A pass over the select list that keeps names keeps those of the output. -/
theorem outputNames_of_keepsName {pass : Expr → Expr} {optimized : SelectStmt} (hpass : KeepsName pass)
    (hcolumns : optimized.columns = statement.columns.map pass)
    (htable : optimized.fromTable = statement.fromTable)
    (halias : optimized.fromAlias = statement.fromAlias) (hjoins : optimized.joins = statement.joins)
    (sample : Option (List BoundColumn)) :
    outputNames catalog optimized sample = outputNames catalog statement sample := by
  rw [outputNames_eq, outputNames_eq, hcolumns, List.zipIdx_map, List.flatMap_map]
  congr 1
  funext item
  obtain ⟨expression, index⟩ := item
  show columnNames catalog optimized sample (pass expression, index) = _
  cases hwildcard : expression.isWildcard with
  | true =>
    cases expression with
    | wildcard wildcard =>
      rw [hpass.wildcard]
      unfold columnNames wildcardNames
      rw [htable, halias, hjoins]
    | _ => exact nomatch hwildcard
  | false =>
    rw [columnNames_of_not_wildcard hwildcard,
      columnNames_of_not_wildcard ((hpass.isWildcard _).trans hwildcard), hpass.expressionAlias]

theorem foldConstants_wildcard (wildcard : Wildcard) :
    foldConstants (.wildcard wildcard) = .wildcard wildcard := by
  rw [foldConstants] <;> simp

/-- Folding makes and removes no wildcard. -/
theorem isWildcard_foldConstants (expression : Expr) :
    (foldConstants expression).isWildcard = expression.isWildcard := by
  cases expression with
  | binary op left right alias' =>
    rw [foldConstants]
    cases hfold : tryFoldExpr op (foldConstants left) (foldConstants right) with
    | none => rfl
    | some folded =>
      obtain ⟨_, _, value, _, _, rfl, _⟩ := tryFoldExpr_eq_some hfold
      rfl
  | unary op operand alias' =>
    rw [foldConstants]
    cases hfold : tryFoldUnary op (foldConstants operand) with
    | none => rfl
    | some folded =>
      obtain ⟨_, value, _, rfl, _⟩ := tryFoldUnary_sound hfold
      rfl
  | function name args distinct alias' => rw [foldConstants]; rfl
  | _ => rw [foldConstants] <;> simp

/-- After folding, the passes work on the select list column by column, keep its names and leave the
tables of the statement alone. -/
theorem optimizeSelect_output (engine : Option Catalog) (statement : SelectStmt) :
    ∃ pass, KeepsName pass ∧
      (optimizeSelect engine statement).columns =
        statement.columns.map (fun column ↦ pass (foldConstants column)) ∧
      (optimizeSelect engine statement).fromTable = statement.fromTable ∧
      (optimizeSelect engine statement).fromAlias = statement.fromAlias ∧
      (optimizeSelect engine statement).joins = statement.joins := by
  unfold optimizeSelect applyMetadataOptimizations
  cases engine with
  | none => exact ⟨id, keepsName_id, rfl, rfl, rfl, rfl⟩
  | some engine =>
    simp only
    split
    · exact ⟨id, keepsName_id, rfl, rfl, rfl, rfl⟩
    · refine ⟨_, keepsName_rewriteNonNullCounts engine (foldSelect statement), ?_⟩
      unfold limitLookup dropDistinct
      split <;> split <;> exact ⟨List.map_map, rfl, rfl, rfl⟩

/-- The names of the optimized statement are those of the statement, and what a reference of ORDER BY
resolves to among the names it resolves to after the passes. -/
structure KeepsOutput (catalog : Catalog) (sample : Option (List BoundColumn))
    (optimized statement : SelectStmt) : Prop where
  names : outputNames catalog optimized sample = outputNames catalog statement sample
  references : ∀ order ∈ statement.orderBy, ∀ column index, order.expr = .column column →
    (outputNames catalog statement sample).findIdx? (· == column.column) = some index →
      (outputNames catalog optimized sample).findIdx? (· == column.column) = some index

/-- An optimized statement keeps the output when it keeps the names. -/
theorem keepsOutput_iff {sample : Option (List BoundColumn)} {optimized : SelectStmt} :
    KeepsOutput catalog sample optimized statement ↔
      outputNames catalog optimized sample = outputNames catalog statement sample := by
  refine ⟨KeepsOutput.names, fun h ↦ ⟨h, ?_⟩⟩
  intro order _ column index _ hindex
  rw [h, hindex]

/-- The names that a folded column contributes are those of the column exactly when it is no constant
operator under an alias. -/
theorem columnNames_foldConstants_iff (catalog : Catalog) (sample : Option (List BoundColumn))
    {optimized : SelectStmt} {pass : Expr → Expr} (hpass : KeepsName pass)
    (htable : optimized.fromTable = statement.fromTable)
    (halias : optimized.fromAlias = statement.fromAlias) (hjoins : optimized.joins = statement.joins)
    (expression : Expr) (index : Nat) :
    columnNames catalog optimized sample (pass (foldConstants expression), index) =
        columnNames catalog statement sample (expression, index) ↔
      ((constantKind expression).isSome →
        expression.operatorAlias = [] ∨ expression.operatorAlias = unnamedColumn index) := by
  cases hwildcard : expression.isWildcard with
  | true =>
    obtain ⟨wildcard, rfl⟩ : ∃ wildcard, expression = .wildcard wildcard := by
      cases expression <;> first | exact ⟨_, rfl⟩ | exact nomatch hwildcard
    rw [foldConstants_wildcard, hpass.wildcard]
    refine iff_of_true ?_ nofun
    unfold columnNames wildcardNames
    rw [htable, halias, hjoins]
  | false =>
    have hfolded : (pass (foldConstants expression)).isWildcard = false := by
      rw [hpass.isWildcard, isWildcard_foldConstants, hwildcard]
    rw [columnNames_of_not_wildcard hfolded, columnNames_of_not_wildcard hwildcard,
      List.singleton_inj, hpass.expressionAlias, expressionAlias_foldConstants_iff]

/-- A pass that keeps names keeps their number. -/
theorem length_columnNames {sample : Option (List BoundColumn)} {optimized : SelectStmt}
    {pass : Expr → Expr} (hpass : KeepsName pass) (htable : optimized.fromTable = statement.fromTable)
    (halias : optimized.fromAlias = statement.fromAlias) (hjoins : optimized.joins = statement.joins)
    (expression : Expr) (index : Nat) :
    (columnNames catalog optimized sample (pass (foldConstants expression), index)).length =
      (columnNames catalog statement sample (expression, index)).length := by
  cases hwildcard : expression.isWildcard with
  | true =>
    have hnames := (columnNames_foldConstants_iff catalog sample hpass htable
      halias hjoins expression index).2 fun hconstant ↦ by
        cases expression with
        | wildcard => exact nomatch hconstant
        | _ => exact nomatch hwildcard
    rw [hnames]
  | false =>
    have hfolded : (pass (foldConstants expression)).isWildcard = false := by
      rw [hpass.isWildcard, isWildcard_foldConstants, hwildcard]
    rw [columnNames_of_not_wildcard hfolded, columnNames_of_not_wildcard hwildcard]
    rfl

/-- The passes keep the names of the output, and what ORDER BY refers to by name, exactly when no column
of the select list is a constant operator under an alias other than the name of a column without one. -/
theorem optimizeSelect_keepsOutput_iff (catalog : Catalog) (sample : Option (List BoundColumn))
    (engine : Option Catalog) (statement : SelectStmt) :
    KeepsOutput catalog sample (optimizeSelect engine statement) statement ↔
      ∀ item ∈ statement.columns.zipIdx, (constantKind item.1).isSome →
        item.1.operatorAlias = [] ∨ item.1.operatorAlias = unnamedColumn item.2 := by
  obtain ⟨pass, hpass, hcolumns, htable, halias, hjoins⟩ := optimizeSelect_output engine statement
  rw [keepsOutput_iff, outputNames_eq, outputNames_eq, hcolumns, List.zipIdx_map, List.flatMap_map,
    List.flatMap_eq_flatMap_iff]
  · exact forall₂_congr fun item _ ↦
      columnNames_foldConstants_iff _ _ hpass htable halias hjoins item.1 item.2
  · exact fun item _ ↦ length_columnNames hpass htable halias hjoins item.1 item.2

/-- The sum of two numbers under an alias loses the alias, and with it the ORDER BY that refers to it. -/
theorem optimizeSelect_loses_alias :
    let statement : SelectStmt :=
      { columns := [.binary .add (.literal (.int 1)) (.literal (.int 2)) (lit "total")]
        fromTable := lit "t"
        orderBy := [{ expr := .column { column := lit "total" }, asc := true }] }
    ¬KeepsOutput {} none (optimizeSelect none statement) statement := by
  intro statement h
  exact absurd (keepsOutput_iff.1 h) (by decide)

end SkibidiQL
