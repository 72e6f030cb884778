import SkibidiQL.Base.DecimalNumerals
import SkibidiQL.Query.Ast
import SkibidiQL.Storage.ValueText

/-!
# Generated expressions

`CodeGen::genExpr` writes an expression as SQL text. Doubles go through a `std::ostringstream` at its default
precision: six significant digits, in fixed or in exponent form, without trailing zeros. The text of a nested query
is a parameter.
-/

namespace SkibidiQL

open Bytes

/-! ### Doubles at the precision of a stream -/

namespace StreamText

/-- The default precision of `std::ostream`. -/
def precision : ℕ := 6

/-- The significant digits of `p / q` as one number, with the decimal exponent of the rounded value. -/
def significant (p q : ℕ) : ℕ × ℤ :=
  let x := Float15.exponent p q
  let shift := (precision : ℤ) - 1 - x
  let digits := Float15.roundEven (p * 10 ^ shift.toNat) (q * 10 ^ (-shift).toNat)
  if digits = 10 ^ precision then (10 ^ (precision - 1), x + 1) else (digits, x)

/-- The text of a positive number from its significant digits and its decimal exponent. -/
def ofSignificant (number : ℕ) (x : ℤ) : Bytes :=
  let digits := ofNat number
  if x < -4 || (precision : ℤ) ≤ x then
    digits.take 1 ++ Float15.fraction (digits.drop 1) ++
      (if x < 0 then lit "e-" else lit "e+") ++ Float15.twoDigits x.natAbs
  else if x < 0 then 48 :: Float15.fraction (List.replicate (x.natAbs - 1) 48 ++ digits)
  else digits.take (x.toNat + 1) ++ Float15.fraction (digits.drop (x.toNat + 1))

/-- The text of the positive fraction `p / q`. -/
def ofFraction (p q : ℕ) : Bytes :=
  ofSignificant (significant p q).1 (significant p q).2

/-- The text of a double that is not negative, from its bits. -/
def ofMagnitude (bits : ℕ) : Bytes :=
  if 2047 * 2 ^ 52 < bits then lit "nan"
  else if bits = 2047 * 2 ^ 52 then lit "inf"
  else if bits = 0 then lit "0"
  else ofFraction (mantissaOf bits * 2 ^ (exponentOf bits).toNat) (2 ^ (-exponentOf bits).toNat)

end StreamText

/-- Whether the sign bit of a double is set. -/
def signBit (bits : UInt64) : Bool :=
  2 ^ 63 ≤ bits.toNat

/-- The bits of a double without its sign. -/
def unsignedBits (bits : UInt64) : ℕ :=
  bits.toNat % 2 ^ 63

/-- `std::ostringstream << double`. -/
def streamText (bits : UInt64) : Bytes :=
  (if signBit bits then [45] else []) ++ StreamText.ofMagnitude (unsignedBits bits)

example : streamText 0x3FB999999999999A = lit "0.1" := by decide +kernel

example : streamText 0xC13312D000000000 = lit "-1.25e+06" := by decide +kernel

example : streamText 0x4000000000000000 = lit "2" := by decide +kernel

/-! ### Expressions -/

/-- The loop of `CodeGen::quoteString`. -/
def quotedBody (text : Bytes) : Bytes :=
  text.flatMap fun c ↦ if c = 39 then [39, 39] else [c]

/-- `CodeGen::quoteString`. -/
def quoteString (text : Bytes) : Bytes :=
  39 :: (quotedBody text ++ [39])

/-- The strings that `BinaryOp::op` holds. -/
def BinaryOperator.text : BinaryOperator → Bytes
  | .and => lit "AND"
  | .or => lit "OR"
  | .eq => lit "="
  | .ne => lit "!="
  | .lt => lit "<"
  | .gt => lit ">"
  | .le => lit "<="
  | .ge => lit ">="
  | .concat => lit "||"
  | .add => lit "+"
  | .sub => lit "-"
  | .mul => lit "*"
  | .div => lit "/"
  | .other op => op

/-- The branch of `genExpr` for a literal. -/
def genLiteral : Literal → Bytes
  | .int value => ofInt value.toInt
  | .float bits => streamText bits
  | .string value => quoteString value
  | .nul => lit "NULL"
  | .bool value => if value then lit "1" else lit "0"

/-- A name behind its qualifier, when it has one. -/
def qualifiedName (qualifier name : Bytes) : Bytes :=
  (if qualifier.isEmpty then [] else qualifier ++ lit ".") ++ name

/-- The names of `genFunctionCall`. -/
def sqlFunctionName (name : Bytes) : Bytes :=
  if name = lit "headcount" then lit "COUNT"
  else if name = lit "stack" then lit "SUM"
  else if name = lit "mid" then lit "AVG"
  else if name = lit "goat" then lit "MAX"
  else if name = lit "L" then lit "MIN"
  else if name = lit "LONE-WOLF" ∨ name = lit "lone-wolf" then lit "LONE_WOLF"
  else name

section Generate

variable (genSelect : Bytes)

mutual

/-- `CodeGen::genExpr`, with `genFunctionCall` and `genWindowFunc`. -/
def genExpr : Expr → Bytes
  | .literal value => genLiteral value
  | .column column => qualifiedName column.table column.column
  | .wildcard wildcard => qualifiedName wildcard.table (lit "*")
  | .binary op left right _ => lit "(" ++ genExpr left ++ lit " " ++ op.text ++ lit " " ++ genExpr right ++ lit ")"
  | .unary .not operand _ => lit "(NOT " ++ genExpr operand ++ lit ")"
  | .unary .neg operand _ => lit "(" ++ lit "-" ++ genExpr operand ++ lit ")"
  | .unary (.other op) operand _ => lit "(" ++ op ++ genExpr operand ++ lit ")"
  | .function name args distinct _ =>
    sqlFunctionName name ++ lit "(" ++ (if distinct then lit "DISTINCT " else []) ++
      joinStrings (lit ", ") (genArgs args) ++ lit ")"
  | .window funcName partitionBy orderBy _ =>
    let partitions := if partitionBy.isEmpty then [] else
      lit "PARTITION BY " ++ joinStrings (lit ", ") (genArgs partitionBy)
    let orders := if orderBy.isEmpty then [] else
      (if partitionBy.isEmpty then [] else lit " ") ++ lit "ORDER BY " ++
        joinStrings (lit ", ") (genOrderItems orderBy)
    funcName ++ lit "() OVER (" ++ partitions ++ orders ++ lit ")"
  | .subquery => lit "(" ++ genSelect ++ lit ")"

/-- `genExpr` on each expression of a list. -/
def genArgs : List Expr → List Bytes
  | [] => []
  | arg :: args => genExpr arg :: genArgs args

/-- `CodeGen::genOrderItem` on each item of a list. -/
def genOrderItems : List (Expr × Bool) → List Bytes
  | [] => []
  | (expr, asc) :: items => (genExpr expr ++ (if asc then lit " ASC" else lit " DESC")) :: genOrderItems items

end

end Generate

end SkibidiQL
