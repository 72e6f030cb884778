import SkibidiQL.Base.DecimalNumerals
import SkibidiQL.Base.ExpressionReader
import SkibidiQL.Query.Ast
import SkibidiQL.Syntax.Lexer

/-!
# The parser of expressions

The functions from `Parser::parseExpr` to `parseFunctionCall`. The state of the parser is the token at `pos` with the
tokens behind it; the last token is never left. A call of `parseExpr` for what stands in parentheses spends fuel.
The parsers of nested queries and of window functions are parameters.
-/

namespace SkibidiQL

open Bytes

/-- What a parser throws; `exhausted` stands for a recursion or a loop that has used up its fuel. -/
inductive ParseFailure where
  | parseError (message : Bytes) (line col : ℕ)
  | invalidArgument (function : Bytes)
  | outOfRange (function : Bytes)
  | exhausted
deriving DecidableEq

/-- The constructor of `ParseError`. -/
def parseError (message : Bytes) (token : Token) : ParseFailure :=
  .parseError (lit "Error at line " ++ ofNat token.line ++ lit ", col " ++ ofNat token.col ++ lit ": " ++ message)
    token.line token.col

/-- `std::stoll` of a text that starts with no sign or white space. -/
def stoll (text : Bytes) : Except ParseFailure Int64 :=
  let digits := text.takeWhile isDigit
  if digits.isEmpty then .error (.invalidArgument (lit "stoll"))
  else if 2 ^ 63 ≤ digitsValue digits then .error (.outOfRange (lit "stoll"))
  else .ok (Int64.ofNat (digitsValue digits))

/-- `std::stod` of a text that starts with a digit. A number too large for a double is out of range, and so is one
that a subnormal double is only near to. -/
def stod (text : Bytes) : Except ParseFailure UInt64 :=
  let value := numeralValue text
  let bits := nearestBits value
  if 2047 * 2 ^ 52 ≤ bits ∨ (bits < 2 ^ 52 ∧ magnitude bits ≠ value) then .error (.outOfRange (lit "stod"))
  else .ok bits.toUInt64

/-! ### The tokens -/

/-- `Parser`: the tokens from `pos` on. -/
structure Parser where
  current : Token
  following : List Token

namespace Parser

/-- `Parser::advance`. -/
def advance (parser : Parser) : Parser :=
  match parser.following with
  | [] => parser
  | token :: following => ⟨token, following⟩

/-- `Parser::check`. -/
def check (parser : Parser) (type : TokenType) : Bool :=
  parser.current.type = type

/-- `Parser::expect`. -/
def expect (parser : Parser) (type : TokenType) (message : Bytes) : Except ParseFailure (Token × Parser) :=
  if parser.check type then .ok (parser.current, parser.advance)
  else .error (parseError (message ++ lit " (got '" ++ parser.current.value ++ lit "')") parser.current)

end Parser

/-! ### Operators -/

/-- The operator that a string of `BinaryOp::op` is. -/
def BinaryOperator.ofText (op : Bytes) : BinaryOperator :=
  if op = lit "AND" then .and else if op = lit "OR" then .or
  else if op = lit "=" then .eq else if op = lit "!=" then .ne
  else if op = lit "<" then .lt else if op = lit ">" then .gt
  else if op = lit "<=" then .le else if op = lit ">=" then .ge
  else if op = lit "||" then .concat
  else if op = lit "+" then .add else if op = lit "-" then .sub
  else if op = lit "*" then .mul else if op = lit "/" then .div
  else .other op

/-- An operator of one of these types, which is the token itself. -/
def operatorAt (types : List TokenType) : BinaryAt Parser Expr := fun parser ↦
  if types.any parser.check then
    some (fun left right ↦ .binary (.ofText parser.current.value) left right [], parser.advance)
  else none

/-- The operator of `parseOrExpr`. -/
def orAt : BinaryAt Parser Expr := fun parser ↦
  if parser.check .orNah then some (fun left right ↦ .binary .or left right [], parser.advance) else none

/-- The operator of `parseAndExpr`. -/
def andAt : BinaryAt Parser Expr := fun parser ↦
  if parser.check .plus then some (fun left right ↦ .binary .and left right [], parser.advance) else none

/-- The operator of `parseNotExpr`. -/
def notAt : PrefixAt Parser Expr := fun parser ↦
  if parser.check .noCapNot then some (fun operand ↦ .unary .not operand [], parser.advance) else none

/-- The operators of `parseCompareExpr`. -/
def compareAt : BinaryAt Parser Expr :=
  operatorAt [.eq, .neq, .lt, .gt, .lte, .gte]

/-- The operators of `parseAddExpr`. -/
def addAt : BinaryAt Parser Expr :=
  operatorAt [.plusOp, .minus, .concat]

/-- The operators of `parseMulExpr`. -/
def mulAt : BinaryAt Parser Expr :=
  operatorAt [.star, .slash]

/-- The operator of `parseUnaryExpr`. -/
def negAt : PrefixAt Parser Expr := fun parser ↦
  if parser.check .minus then some (fun operand ↦ .unary .neg operand [], parser.advance) else none

/-- `match(TokenType::COMMA)`. -/
def commaAt (parser : Parser) : Option Parser :=
  if parser.check .comma then some parser.advance else none

/-! ### The parser -/

/-- A parser of expressions. -/
abbrev ExprParser := Reader Parser ParseFailure Expr

/-- The keywords that `parsePrimaryExpr` takes for the names of functions. -/
def TokenType.isFunction (type : TokenType) : Bool :=
  [.headcount, .stack, .mid, .goat, .lFunc, .biggestW, .biggestL, .midFr, .percentCheck, .loneWolf].contains type

section Functions

variable (parseSelect parseEraExpr parseExpr : ExprParser) (fuel : ℕ)

/-- `Parser::parseFunctionCall`. -/
def parseFunctionCall (name : Bytes) : ExprParser := fun parser ↦ do
  let (_, parser) ← parser.expect .lparen (lit "Expected '(' after function name")
  if name = lit "headcount" ∧ parser.check .star then do
    let (_, parser) ← parser.advance.expect .rparen (lit "Expected ')'")
    .ok (.function name [.wildcard {}] false [], parser)
  else if name = lit "headcount" ∧ parser.check .uniqueFr then do
    let (argument, parser) ← parseExpr parser.advance
    let (_, parser) ← parser.expect .rparen (lit "Expected ')'")
    .ok (.function name [argument] true [], parser)
  else if parser.check .rparen then .ok (.function name [] false [], parser.advance)
  else do
    let (args, parser) ← separatedList commaAt parseExpr .exhausted fuel parser
    let (_, parser) ← parser.expect .rparen (lit "Expected ')'")
    .ok (.function name args false [], parser)

/-- The branch of `parsePrimaryExpr` for an identifier, with the parser behind it. -/
def parseName (name : Bytes) : ExprParser := fun parser ↦
  if parser.check .dot then
    let parser := parser.advance
    if parser.check .star then .ok (.wildcard { table := name }, parser.advance)
    else do
      let (column, parser) ← parser.expect .identifier (lit "Expected column name after '.'")
      if parser.check .lparen then parseFunctionCall parseExpr fuel (name ++ lit "." ++ column.value) parser
      else .ok (.column { table := name, column := column.value }, parser)
  else if parser.check .lparen then parseFunctionCall parseExpr fuel name parser
  else .ok (.column { column := name }, parser)

/-- The branch of `parsePrimaryExpr` for an opening parenthesis, with the parser behind it. -/
def parseParenthesized : ExprParser := fun parser ↦ do
  let (expr, parser) ← if parser.check .slay then parseSelect parser else parseExpr parser
  let (_, parser) ← parser.expect .rparen (lit "Expected ')'")
  .ok (expr, parser)

/-- `Parser::parsePrimaryExpr`. -/
def parsePrimaryExpr : ExprParser := fun parser ↦
  let token := parser.current
  match token.type with
  | .integerLit => (stoll token.value).map fun value ↦ (.literal (.int value), parser.advance)
  | .floatLit => (stod token.value).map fun bits ↦ (.literal (.float bits), parser.advance)
  | .stringLit => .ok (.literal (.string token.value), parser.advance)
  | .ghosted => .ok (.literal .nul, parser.advance)
  | .lparen => parseParenthesized parseSelect parseExpr parser.advance
  | .star => .ok (.wildcard {}, parser.advance)
  | .era => parseEraExpr parser.advance
  | .identifier => parseName parseExpr fuel token.value parser.advance
  | type =>
    if type.isFunction then parseFunctionCall parseExpr fuel token.value parser.advance
    else .error (parseError (lit "Expected expression (got '" ++ token.value ++ lit "')") token)

/-- `Parser::parseUnaryExpr`. -/
def parseUnaryExpr : ExprParser :=
  prefixed negAt (parsePrimaryExpr parseSelect parseEraExpr parseExpr fuel) .exhausted fuel

/-- `Parser::parseMulExpr`. -/
def parseMulExpr : ExprParser :=
  leftChain mulAt (parseUnaryExpr parseSelect parseEraExpr parseExpr fuel) .exhausted fuel

/-- `Parser::parseAddExpr`. -/
def parseAddExpr : ExprParser :=
  leftChain addAt (parseMulExpr parseSelect parseEraExpr parseExpr fuel) .exhausted fuel

/-- `Parser::parseCompareExpr`. -/
def parseCompareExpr : ExprParser :=
  onceOperator compareAt (parseAddExpr parseSelect parseEraExpr parseExpr fuel)

/-- `Parser::parseNotExpr`. -/
def parseNotExpr : ExprParser :=
  prefixed notAt (parseCompareExpr parseSelect parseEraExpr parseExpr fuel) .exhausted fuel

/-- `Parser::parseAndExpr`. -/
def parseAndExpr : ExprParser :=
  leftChain andAt (parseNotExpr parseSelect parseEraExpr parseExpr fuel) .exhausted fuel

/-- `Parser::parseOrExpr`. -/
def parseOrExpr : ExprParser :=
  leftChain orAt (parseAndExpr parseSelect parseEraExpr parseExpr fuel) .exhausted fuel

end Functions

/-- `Parser::parseExpr`. -/
def parseExpr (parseSelect parseEraExpr : ExprParser) : ℕ → ExprParser
  | 0 => fun _ ↦ .error .exhausted
  | fuel + 1 => parseOrExpr parseSelect parseEraExpr (parseExpr parseSelect parseEraExpr fuel) fuel

/-- The grades of precedence, from `parseOrExpr` to `parseUnaryExpr`. -/
def exprGrades : List (Grade Parser Expr) :=
  [.left orAt, .left andAt, .before notAt, .once compareAt, .left addAt, .left mulAt, .before negAt]

variable (parseSelect parseEraExpr : ExprParser)

/-- `parsePrimaryExpr` with fuel for what it calls `parseExpr` for. -/
def parsePrimary (fuel : ℕ) : ExprParser :=
  parsePrimaryExpr parseSelect parseEraExpr (parseExpr parseSelect parseEraExpr fuel) fuel

/-- The parser of a grade, and of those behind it. -/
def parseGrade (c : ℕ) : ℕ → ExprParser :=
  readGrades .exhausted (parsePrimary parseSelect parseEraExpr) (exprGrades.drop c)

theorem parseExpr_succ (fuel : ℕ) (parser : Parser) :
    parseExpr parseSelect parseEraExpr (fuel + 1) parser = parseGrade parseSelect parseEraExpr 0 fuel parser :=
  rfl

end SkibidiQL
