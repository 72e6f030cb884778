import SkibidiQL.CodeGen.SqlReader
import SkibidiQL.CodeGen.StreamNumerals
import SkibidiQL.Optimizer.ConstantFolding
import SkibidiQL.Optimizer.MetadataRewrites

/-!
# The trees that SQL is generated from

The expressions that come from the parser and from the optimizer, among those made from literals, columns, operators
and functions; what SQL should read in the text of each, and when it does. The optimizer keeps to these expressions.
-/

namespace SkibidiQL

open Bytes

/-! ### Names -/

/-- A word of letters, digits and underscores that does not start with a digit. -/
def Sql.isWord (word : Bytes) : Bool :=
  word.head?.any isWordStart && word.all isWordByte

/-- The names of functions that are keywords with a hyphen. -/
def hyphenatedFunctions : List Bytes :=
  [lit "LONE-WOLF", lit "lone-wolf", lit "mid-fr", lit "percent-check", lit "biggest-W", lit "biggest-L"]

/-- The names of functions: words, qualified words, and keywords. -/
inductive FunctionName : Bytes → Prop
  | word {name : Bytes} : Sql.isWord name → FunctionName name
  | qualified {qualifier name : Bytes} : Sql.isWord qualifier → Sql.isWord name →
      FunctionName (qualifier ++ lit "." ++ name)
  | keyword {name : Bytes} : name ∈ hyphenatedFunctions → FunctionName name

/-- A name cut at its first point. -/
def splitName (name : Bytes) : Option Bytes × Bytes :=
  let qualifier := name.takeWhile (· != 46)
  if qualifier.length < name.length then (some qualifier, name.drop (qualifier.length + 1)) else (none, name)

/-! ### The expressions -/

/-- The operators that the parser has. -/
def BinaryOperator.isKnown : BinaryOperator → Bool
  | .other _ => false
  | _ => true

/-- Whether the expression is a number with a minus sign. -/
def Expr.isSigned : Expr → Bool
  | .literal (.int value) => value.toInt < 0
  | .literal (.float bits) => signBit bits
  | _ => false

/-- The expressions made from literals, columns, operators and functions. Numbers with a minus sign come from
folding, which leaves no minus in front of a number. -/
inductive Expr.Generated : Expr → Prop
  | literal (value : Literal) : Generated (.literal value)
  | column {name alias' : Bytes} : Sql.isWord name → Generated (.column { column := name, alias' })
  | qualified {table name alias' : Bytes} : Sql.isWord table → Sql.isWord name →
      Generated (.column { table, column := name, alias' })
  | binary {op : BinaryOperator} {left right : Expr} {alias' : Bytes} : op.isKnown → Generated left →
      Generated right → Generated (.binary op left right alias')
  | not {operand : Expr} {alias' : Bytes} : Generated operand → Generated (.unary .not operand alias')
  | neg {operand : Expr} {alias' : Bytes} : Generated operand → operand.isSigned = false →
      Generated (.unary .neg operand alias')
  | call {name : Bytes} {args : List Expr} {distinct : Bool} {alias' : Bytes} : FunctionName name →
      (∀ arg ∈ args, Generated arg) → (distinct → args ≠ []) → Generated (.function name args distinct alias')
  | callAll {name alias' : Bytes} : FunctionName name → Generated (.function name [.wildcard {}] false alias')

/-! ### What SQL should read -/

/-- A number behind a minus, when it has one. -/
def SqlExpr.signed (negative : Bool) (number : SqlExpr) : SqlExpr :=
  if negative then .unary .neg number else number

/-- The literal of SQL with the same value and kind. -/
def Literal.denoted : Literal → SqlExpr
  | .int value => .signed (value.toInt < 0) (.integer value.toInt.natAbs)
  | .float bits => .signed (signBit bits) (.real (unsignedBits bits))
  | .string value => .string value
  | .nul => .null
  | .bool value => .integer (if value then 1 else 0)

mutual

/-- The tree of SQL with the same operators and literals. -/
def Expr.denoted : Expr → SqlExpr
  | .literal value => value.denoted
  | .column column => .column (if column.table = [] then none else some column.table) column.column
  | .wildcard wildcard => if wildcard.table = [] then .star else .other
  | .binary op left right _ => .binary op left.denoted right.denoted
  | .unary op operand _ => .unary op operand.denoted
  | .function name args distinct _ =>
    .call (splitName (sqlFunctionName name)).1 (splitName (sqlFunctionName name)).2 distinct (denotedArgs args)
  | .window .. | .subquery => .other

/-- The trees of the arguments of a function. -/
def denotedArgs : List Expr → List SqlExpr
  | [] => []
  | arg :: args => arg.denoted :: denotedArgs args

end

/-! ### When it does -/

/-- The text of the double is read as the double: it is finite and, at six significant digits, neither another double
nor a whole number below a million. -/
def isLegibleReal (bits : ℕ) : Bool :=
  bits < 2047 * 2 ^ 52 && nearestBits (StreamText.textValue bits) = bits &&
    !StreamText.isSmallWhole (StreamText.textValue bits)

section Legible

variable (reserved : Bytes → Bool)

/-- The name is a word that SQL takes for a name. -/
def isLegibleName (name : Bytes) : Bool :=
  Sql.isWord name && Sql.wordToken reserved name = .name name

mutual

/-- Each double is read as itself, and each name as a name. -/
def Expr.isLegible : Expr → Bool
  | .literal (.float bits) => isLegibleReal (unsignedBits bits)
  | .literal _ => true
  | .column column => (column.table = [] || isLegibleName reserved column.table) && isLegibleName reserved column.column
  | .binary _ left right _ => left.isLegible && right.isLegible
  | .unary _ operand _ => operand.isLegible
  | .function name args _ _ =>
    (splitName (sqlFunctionName name)).1.all (isLegibleName reserved) &&
      isLegibleName reserved (splitName (sqlFunctionName name)).2 && isLegibleArgs args
  | .wildcard _ | .window .. | .subquery => true

/-- The arguments of a function are legible. -/
def isLegibleArgs : List Expr → Bool
  | [] => true
  | arg :: args => arg.isLegible && isLegibleArgs args

end

end Legible

/-! ### The optimizer -/

namespace Expr.Generated

variable {e : Expr}

/-- An operand that a minus is not folded into has no sign. -/
theorem foldConstants_eq_signed {operand : Expr} (h : tryFoldUnary .neg operand = none) : operand.isSigned = false := by
  unfold tryFoldUnary at h
  split at h
  · cases h
  · cases h
  · rfl
  · rename_i hint hfloat _
    unfold isSigned
    split
    · exact absurd rfl (hint _)
    · exact absurd rfl (hfloat _)
    · rfl

theorem foldArguments_eq_map (args : List Expr) : foldArguments args = args.map SkibidiQL.foldConstants := by
  induction args with
  | nil => rfl
  | cons arg args ih => rw [foldArguments, ih, List.map_cons]

/-- Folding keeps to the expressions that SQL is generated from. -/
theorem foldConstants (h : e.Generated) : (SkibidiQL.foldConstants e).Generated := by
  induction h with
  | literal value => exact .literal value
  | column hname => exact .column hname
  | qualified htable hname => exact .qualified htable hname
  | @binary op left right alias' hop _ _ ihleft ihright =>
    rw [SkibidiQL.foldConstants]
    cases hfold : tryFoldExpr op (SkibidiQL.foldConstants left) (SkibidiQL.foldConstants right) with
    | none => exact .binary hop ihleft ihright
    | some folded =>
      obtain ⟨_, _, result, -, -, rfl, -⟩ := tryFoldExpr_eq_some hfold
      exact .literal result
  | @not operand alias' _ ih =>
    rw [SkibidiQL.foldConstants]
    cases hfold : tryFoldUnary .not (SkibidiQL.foldConstants operand) with
    | none => exact .not ih
    | some folded =>
      obtain ⟨_, result, -, rfl, -⟩ := tryFoldUnary_sound hfold
      exact .literal result
  | @neg operand alias' _ _ ih =>
    rw [SkibidiQL.foldConstants]
    cases hfold : tryFoldUnary .neg (SkibidiQL.foldConstants operand) with
    | none => exact .neg ih (foldConstants_eq_signed hfold)
    | some folded =>
      obtain ⟨_, result, -, rfl, -⟩ := tryFoldUnary_sound hfold
      exact .literal result
  | call hname _ hdistinct ih =>
    rw [SkibidiQL.foldConstants, foldArguments_eq_map]
    refine .call hname (List.forall_mem_map.2 ih) fun h ↦ ?_
    rw [ne_eq, List.map_eq_nil_iff]
    exact hdistinct h
  | callAll hname => exact .callAll hname

variable (catalog : Catalog) (select : SelectStmt)

/-- Rewriting counts leaves signs. -/
theorem isSigned_rewriteNonNullCounts (e : Expr) : (rewriteNonNullCounts catalog select e).isSigned = e.isSigned := by
  cases e with
  | function name args distinct alias' =>
    rw [rewriteNonNullCounts]
    split <;> rfl
  | _ => rfl

/-- Arguments are rewritten one by one. -/
theorem rewriteArguments_eq_map (args : List Expr) :
    rewriteArguments catalog select args = args.map (SkibidiQL.rewriteNonNullCounts catalog select) := by
  induction args with
  | nil => rfl
  | cons arg args ih => rw [rewriteArguments, ih, List.map_cons]

/-- Rewriting counts keeps to the expressions that SQL is generated from. -/
theorem rewriteNonNullCounts (h : e.Generated) : (SkibidiQL.rewriteNonNullCounts catalog select e).Generated := by
  induction h with
  | literal value => exact .literal value
  | column hname => exact .column hname
  | qualified htable hname => exact .qualified htable hname
  | binary hop _ _ ihleft ihright => exact .binary hop ihleft ihright
  | not _ ih => exact .not ih
  | neg _ hsigned ih => exact .neg ih ((isSigned_rewriteNonNullCounts catalog select _).trans hsigned)
  | @call name args distinct alias' hname _ hdistinct ih =>
    rw [SkibidiQL.rewriteNonNullCounts]
    split
    · rename_i hcount
      rw [Bool.and_eq_true, Bool.and_eq_true, Bool.not_eq_true'] at hcount
      rw [hcount.1.2]
      exact .callAll hname
    · rw [rewriteArguments_eq_map]
      refine .call hname (List.forall_mem_map.2 ih) fun h ↦ ?_
      rw [ne_eq, List.map_eq_nil_iff]
      exact hdistinct h
  | @callAll name alias' hname =>
    have hcolumn : isNonNullColumn catalog select [.wildcard {}] = false := rfl
    rw [SkibidiQL.rewriteNonNullCounts, hcolumn, Bool.and_false, if_neg Bool.false_ne_true]
    exact .callAll hname

end Expr.Generated

end SkibidiQL
