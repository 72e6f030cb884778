import SkibidiQL.Syntax.ExpressionParser

/-!
# Printed expressions are parsed back

An expression prints as the types and values of its tokens, with parentheses around every operation or only where
the precedence of the operators and their grouping to the left ask for them. Either way `parseExpr` reads the
expression back, by induction on the expression at every grade of precedence it may stand at.
-/

namespace SkibidiQL

open Bytes

/-! ### Printing -/

/-- A token without its position. -/
abbrev Symbol := TokenType × Bytes

/-- The type and the value of a token. -/
def Token.symbol (token : Token) : Symbol :=
  (token.type, token.value)

/-- How floats are written: as numerals that read as the double. -/
structure FloatWriter where
  write : UInt64 → Bytes
  stod_write : ∀ bits : UInt64, bits.toNat < 2047 * 2 ^ 52 → stod (write bits) = .ok bits

/-- The symbol of a binary operator. -/
def BinaryOperator.symbol : BinaryOperator → Symbol
  | .or => (.orNah, lit "or-nah")
  | .and => (.plus, lit "plus")
  | .eq => (.eq, lit "=")
  | .ne => (.neq, lit "!=")
  | .lt => (.lt, lit "<")
  | .gt => (.gt, lit ">")
  | .le => (.lte, lit "<=")
  | .ge => (.gte, lit ">=")
  | .concat => (.concat, lit "||")
  | .add => (.plusOp, lit "+")
  | .sub => (.minus, lit "-")
  | .mul => (.star, lit "*")
  | .div => (.slash, lit "/")
  | .other op => (.eofToken, op)

/-- The grade of a binary operator. -/
def BinaryOperator.grade : BinaryOperator → ℕ
  | .or => 0
  | .and => 1
  | .eq | .ne | .lt | .gt | .le | .ge => 3
  | .add | .sub | .concat => 4
  | .mul | .div => 5
  | .other _ => 7

/-- The grade that the left operand may stand at: that of the operator where it groups to the left. -/
def BinaryOperator.leftGrade (op : BinaryOperator) : ℕ :=
  if op.grade = 3 then 4 else op.grade

/-- The grade of an expression. -/
def Expr.grade : Expr → ℕ
  | .binary op _ _ _ => op.grade
  | .unary .not _ _ => 2
  | .unary .neg _ _ => 6
  | _ => 7

/-- Whether parentheses belong around the expression where it stands at a grade: around every operation, or only
around those of a looser grade. -/
def Expr.needsParens (everywhere : Bool) (c : ℕ) (expression : Expr) : Bool :=
  expression.grade < 7 && (everywhere || expression.grade < c)

/-- The symbols, in parentheses or not. -/
def inParens (parens : Bool) (symbols : List Symbol) : List Symbol :=
  if parens then (.lparen, lit "(") :: symbols ++ [(.rparen, lit ")")] else symbols

/-- The type of the keyword that names a function, if one does. -/
def functionKeyword (name : Bytes) : Option TokenType :=
  if name = lit "L" then some .lFunc else (Lexer.keywords.lookup name).filter TokenType.isFunction

/-- The name of a function: a keyword, a qualified name or a plain one. -/
def nameSymbols (name : Bytes) : List Symbol :=
  match functionKeyword name with
  | some type => [(type, name)]
  | none =>
    let qualifier := name.takeWhile (· != 46)
    if qualifier.length < name.length then
      [(.identifier, qualifier), (.dot, lit "."), (.identifier, name.drop (qualifier.length + 1))]
    else [(.identifier, name)]

/-- A literal; booleans have none. -/
def Literal.symbols (writer : FloatWriter) : Literal → List Symbol
  | .int value => [(.integerLit, ofInt value.toInt)]
  | .float bits => [(.floatLit, writer.write bits)]
  | .string value => [(.stringLit, value)]
  | .nul => [(.ghosted, lit "ghosted")]
  | .bool _ => []

/-- A column, qualified when it has a table. -/
def ColumnRef.symbols (column : ColumnRef) : List Symbol :=
  if column.table = [] then [(.identifier, column.column)]
  else [(.identifier, column.table), (.dot, lit "."), (.identifier, column.column)]

section Print

variable (everywhere : Bool) (writer : FloatWriter)

mutual

/-- The symbols of an expression without parentheses around it. -/
def Expr.plain : Expr → List Symbol
  | .literal value => value.symbols writer
  | .column column => column.symbols
  | .wildcard _ => [(.star, lit "*")]
  | .binary op left right _ =>
    inParens (left.needsParens everywhere op.leftGrade) left.plain ++
      op.symbol :: inParens (right.needsParens everywhere (op.grade + 1)) right.plain
  | .unary .not operand _ =>
    (.noCapNot, lit "no-cap-not") :: inParens (operand.needsParens everywhere 2) operand.plain
  | .unary _ operand _ => (.minus, lit "-") :: inParens (operand.needsParens everywhere 6) operand.plain
  | .function name args distinct _ =>
    nameSymbols name ++ (.lparen, lit "(") :: (if distinct then [(.uniqueFr, lit "unique-fr")] else []) ++
      plainArgs args ++ [(.rparen, lit ")")]
  | .window .. | .subquery => []

/-- The arguments of a function, with commas between them. -/
def plainArgs : List Expr → List Symbol
  | [] => []
  | arg :: args => inParens (arg.needsParens everywhere 0) arg.plain ++ plainMore args

/-- The arguments behind the first. -/
def plainMore : List Expr → List Symbol
  | [] => []
  | arg :: args => (.comma, lit ",") :: inParens (arg.needsParens everywhere 0) arg.plain ++ plainMore args

end

/-- The symbols of an expression that stands at a grade. -/
def Expr.printAt (c : ℕ) (expression : Expr) : List Symbol :=
  inParens (expression.needsParens everywhere c) (expression.plain everywhere writer)

/-- The symbols that print an expression, with parentheses everywhere or where they are needed. -/
def Expr.print (expression : Expr) : List Symbol :=
  expression.printAt everywhere writer 0

end Print

/-- The expressions that a text can be written for. -/
inductive Expr.Printable : Expr → Prop
  | int {value : Int64} (h : 0 ≤ value.toInt) : Printable (.literal (.int value))
  | float {bits : UInt64} (h : bits.toNat < 2047 * 2 ^ 52) : Printable (.literal (.float bits))
  | string (value : Bytes) : Printable (.literal (.string value))
  | nul : Printable (.literal .nul)
  | column (table column : Bytes) : Printable (.column { table, column })
  | not {operand : Expr} (h : Printable operand) : Printable (.unary .not operand [])
  | neg {operand : Expr} (h : Printable operand) : Printable (.unary .neg operand [])
  | binary {op : BinaryOperator} {left right : Expr} (hop : ∀ text, op ≠ .other text) (hleft : Printable left)
      (hright : Printable right) : Printable (.binary op left right [])
  | call (name : Bytes) {args : List Expr} (h : ∀ arg ∈ args, Printable arg) : Printable (.function name args false [])
  | countAll : Printable (.function (lit "headcount") [.wildcard {}] false [])
  | countDistinct {argument : Expr} (h : Printable argument) :
      Printable (.function (lit "headcount") [argument] true [])

end SkibidiQL
