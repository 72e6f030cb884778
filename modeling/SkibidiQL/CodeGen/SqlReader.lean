import SkibidiQL.Base.DecimalNumerals
import SkibidiQL.Base.ExpressionReader
import SkibidiQL.Query.Ast

/-!
# Expressions of SQL

What SQL reads in a text: tokens by its lexical rules, and expressions by the precedence of its operators, as SQLite
has them. This is a reader of its own, to compare the generated text with. Which words are reserved besides those of
the operators is a parameter.
-/

namespace SkibidiQL

open Bytes

/-! ### Tokens -/

/-- A token of SQL. A minus may be an operator of one operand, and a star may stand for all rows. -/
inductive SqlToken where
  | integer (value : ℕ)
  | real (bits : ℕ)
  | string (value : Bytes)
  | null
  | not
  | distinct
  | operator (op : BinaryOperator)
  | name (word : Bytes)
  | reserved (word : Bytes)
  | lparen
  | rparen
  | comma
  | dot
deriving DecidableEq

namespace Sql

/-- White space. -/
def isBlank (b : UInt8) : Bool :=
  b == 32 || b == 9 || b == 10 || b == 12 || b == 13

/-- Whether a word may start with the byte. -/
def isWordStart (b : UInt8) : Bool :=
  (65 ≤ b && b ≤ 90) || (97 ≤ b && b ≤ 122) || b == 95

/-- Whether a word may go on with the byte. -/
def isWordByte (b : UInt8) : Bool :=
  isWordStart b || isDigit b

section Lexer

variable (reserved : Bytes → Bool)

/-- The token that a word is. Words are compared without regard to case. -/
def wordToken (word : Bytes) : SqlToken :=
  let upper := word.map toUpper
  if upper = lit "NULL" then .null
  else if upper = lit "NOT" then .not
  else if upper = lit "DISTINCT" then .distinct
  else if upper = lit "AND" then .operator .and
  else if upper = lit "OR" then .operator .or
  else if reserved word then .reserved word
  else .name word

/-- The value of a string literal behind its opening quote, and the text behind its closing quote. -/
def stringBody : Bytes → Option (Bytes × Bytes)
  | [] => none
  | c :: text =>
    if c = 39 then
      match text with
      | 39 :: text => (stringBody text).map fun read ↦ (39 :: read.1, read.2)
      | text => some ([], text)
    else (stringBody text).map fun read ↦ (c :: read.1, read.2)

/-- The fraction of a number, with its point. -/
def fractionText (text : Bytes) : Bytes :=
  if text.head? = some 46 then 46 :: (text.drop 1).takeWhile isDigit else []

/-- The sign of an exponent. -/
def signText (text : Bytes) : Bytes :=
  if text.head? = some 43 ∨ text.head? = some 45 then text.take 1 else []

/-- The exponent of a number, when it has digits. -/
def exponentText (text : Bytes) : Bytes :=
  if text.head? = some 101 ∨ text.head? = some 69 then
    let sign := signText (text.drop 1)
    let digits := (text.drop (1 + sign.length)).takeWhile isDigit
    if digits.isEmpty then [] else text.take 1 ++ sign ++ digits
  else []

/-- A number; a word may not follow at once. Without a point and an exponent it is an integer. -/
def readNumber (text : Bytes) : Option (SqlToken × Bytes) :=
  let whole := text.takeWhile isDigit
  let fraction := fractionText (text.drop whole.length)
  let exponent := exponentText (text.drop (whole ++ fraction).length)
  let number := whole ++ fraction ++ exponent
  let rest := text.drop number.length
  if rest.head?.any isWordByte then none
  else if fraction.isEmpty && exponent.isEmpty then some (.integer (digitsValue whole), rest)
  else some (.real (nearestBits (numeralValue number)), rest)

/-- A word. -/
def readWord (text : Bytes) : SqlToken × Bytes :=
  let word := text.takeWhile isWordByte
  (wordToken reserved word, text.drop word.length)

/-- An operator or a mark that starts with the byte `c`. -/
def readMark (c : UInt8) (text : Bytes) : Option (SqlToken × Bytes) :=
  if c = 40 then some (.lparen, text)
  else if c = 41 then some (.rparen, text)
  else if c = 44 then some (.comma, text)
  else if c = 46 then some (.dot, text)
  else if c = 43 then some (.operator .add, text)
  else if c = 45 then some (.operator .sub, text)
  else if c = 42 then some (.operator .mul, text)
  else if c = 47 then some (.operator .div, text)
  else if c = 61 then
    match text with
    -- `==` is an equation too.
    | 61 :: text => some (.operator .eq, text)
    | text => some (.operator .eq, text)
  else if c = 33 then
    match text with
    | 61 :: text => some (.operator .ne, text)
    | _ => none
  else if c = 60 then
    match text with
    | 61 :: text => some (.operator .le, text)
    | 62 :: text => some (.operator .ne, text)
    | text => some (.operator .lt, text)
  else if c = 62 then
    match text with
    | 61 :: text => some (.operator .ge, text)
    | text => some (.operator .gt, text)
  else if c = 124 then
    match text with
    | 124 :: text => some (.operator .concat, text)
    | _ => none
  else none

/-- The text behind a comment that has been opened by a slash and a star. -/
def skipBlockComment : Bytes → Bytes
  | 42 :: 47 :: text => text
  | _ :: text => skipBlockComment text
  | [] => []

/-- What is read at the byte `c` with the text behind it: a token, or a comment. -/
def readToken (c : UInt8) (text : Bytes) : Option (Option SqlToken × Bytes) :=
  if c = 45 ∧ text.head? = some 45 then some (none, text.dropWhile (· != 10))
  else if c = 47 ∧ text.head? = some 42 then some (none, skipBlockComment (text.drop 1))
  else if c = 39 then (stringBody text).map fun read ↦ (some (.string read.1), read.2)
  else if isDigit c then (readNumber (c :: text)).map fun read ↦ (some read.1, read.2)
  else if isWordStart c then some (some (readWord reserved (c :: text)).1, (readWord reserved (c :: text)).2)
  else (readMark c text).map fun read ↦ (some read.1, read.2)

/-- The tokens of a text, with fuel for each. -/
def tokens : ℕ → Bytes → Option (List SqlToken)
  | 0, _ => none
  | fuel + 1, text =>
    match text.dropWhile isBlank with
    | [] => some []
    | c :: text => do
      let (token, text) ← readToken reserved c text
      let more ← tokens fuel text
      return token.toList ++ more

end Lexer

end Sql

/-! ### Expressions -/

/-- An expression of SQL. Numbers have no sign; the integer 2 ^ 63 stands behind a minus only. `star` is the argument
that stands for all rows, and `other` an expression that the reader here leaves out. -/
inductive SqlExpr where
  | integer (value : ℕ)
  | real (bits : ℕ)
  | string (value : Bytes)
  | null
  | column (qualifier : Option Bytes) (name : Bytes)
  | unary (op : UnaryOperator) (operand : SqlExpr)
  | binary (op : BinaryOperator) (left right : SqlExpr)
  | call (qualifier : Option Bytes) (name : Bytes) (distinct : Bool) (args : List SqlExpr)
  | star
  | other

namespace Sql

/-- A reader of expressions. -/
abbrev ExprReader := Reader (List SqlToken) Unit SqlExpr

/-- One of these operators of two operands. -/
def binaryAt (ops : List BinaryOperator) : BinaryAt (List SqlToken) SqlExpr
  | .operator op :: rest => if op ∈ ops then some (.binary op, rest) else none
  | _ => none

/-- The operator NOT. -/
def notAt : PrefixAt (List SqlToken) SqlExpr
  | .not :: rest => some (.unary .not, rest)
  | _ => none

/-- The minus of one operand. -/
def negAt : PrefixAt (List SqlToken) SqlExpr
  | .operator .sub :: rest => some (.unary .neg, rest)
  | _ => none

/-- A comma. -/
def commaAt : List SqlToken → Option (List SqlToken)
  | .comma :: rest => some rest
  | _ => none

/-- The grades of precedence. -/
def grades : List (Grade (List SqlToken) SqlExpr) :=
  [.left (binaryAt [.or]), .left (binaryAt [.and]), .before notAt, .left (binaryAt [.eq, .ne]),
    .left (binaryAt [.lt, .le, .gt, .ge]), .left (binaryAt [.add, .sub]), .left (binaryAt [.mul, .div]),
    .left (binaryAt [.concat]), .before negAt]

/-- A closing parenthesis behind what was read. -/
def closed {α : Type} : α × List SqlToken → Except Unit (α × List SqlToken)
  | (a, .rparen :: rest) => .ok (a, rest)
  | _ => .error ()

section Reader

variable (readExpr : ExprReader) (fuel : ℕ)

/-- The arguments of a function, up to the closing parenthesis. -/
def readArgs : Reader (List SqlToken) Unit (List SqlExpr) := fun rest ↦ do
  closed (← separatedList commaAt readExpr () fuel rest)

/-- What stands behind a name: the arguments of a function, or nothing. -/
def readNamed (qualifier : Option Bytes) (name : Bytes) : ExprReader
  | .lparen :: .operator .mul :: .rparen :: rest => .ok (.call qualifier name false [.star], rest)
  | .lparen :: .rparen :: rest => .ok (.call qualifier name false [], rest)
  | .lparen :: .distinct :: rest => do
    let (args, rest) ← readArgs readExpr fuel rest
    .ok (.call qualifier name true args, rest)
  | .lparen :: rest => do
    let (args, rest) ← readArgs readExpr fuel rest
    .ok (.call qualifier name false args, rest)
  | rest => .ok (.column qualifier name, rest)

/-- An expression without an operator in front of it. -/
def readPrimary : ExprReader
  | .integer value :: rest => .ok (.integer value, rest)
  | .real bits :: rest => .ok (.real bits, rest)
  | .string value :: rest => .ok (.string value, rest)
  | .null :: rest => .ok (.null, rest)
  | .lparen :: rest => do closed (← readExpr rest)
  | .name qualifier :: .dot :: .name name :: rest => readNamed readExpr fuel (some qualifier) name rest
  | .name name :: rest => readNamed readExpr fuel none name rest
  | _ => .error ()

end Reader

/-- An expression, with fuel for those in parentheses. -/
def readExpr : ℕ → ExprReader
  | 0 => fun _ ↦ .error ()
  | fuel + 1 => readGrades () (fun fuel' ↦ readPrimary (readExpr fuel) fuel') grades fuel

end Sql

/-! ### Texts -/

/-- The text has these tokens. -/
def Sql.Lexes (reserved : Bytes → Bool) (text : Bytes) (read : List SqlToken) : Prop :=
  ∃ N, ∀ n ≥ N, Sql.tokens reserved n text = some read

/-- The text reads as the expression. -/
def Sql.Reads (reserved : Bytes → Bool) (text : Bytes) (expression : SqlExpr) : Prop :=
  ∃ read, Sql.Lexes reserved text read ∧ Yields Sql.readExpr read expression []

end SkibidiQL
