import SkibidiQL.Base.Bytes

/-!
# The lexer

The lexer of the query language. Its state is the part of the source that is still to be read, with the
line and column of its first byte; `std::string src` and `pos` are kept together as that remainder. Each
reader is split in two: a function on bytes that says what is read and what is left, and the step of the
lexer, which moves over the bytes in between.
-/

namespace SkibidiQL

open Bytes

/-- `TokenType`. -/
inductive TokenType
  | slay | noCap | onlyIf | linkUp | leftLinkUp | midLinkUp | frFr | vibeCheck | hitsDifferent
  | bussinOnly | lowkey | plus | orNah | noCapNot | ghosted | uniqueFr | capAt | skip | upOnly
  | downBad | yeetInto | drip | glowUp | beLike | ratio | manifest | rizzDown | manifestDataset
  | manifestSnapshot | exportTorch | shipTorch | explainBatch | spillBatch | withSeed | batchSize
  | worldSize | maxLen | manifestContext | yeetMemory | spillContext | explainContext | showTabs
  | showContextSchemas | showContextObjects | aliasTab | mergeTabs | tokenBudget | vibeTab
  | mainCharacter | sideCharacter | headcount | stack | mid | goat | lFunc | loneWolf | biggestW
  | biggestL | midFr | percentCheck | era | splitBy | integerLit | floatLit | stringLit | trueLit
  | falseLit | identifier | eq | neq | lt | gt | lte | gte | plusOp | minus | star | slash | concat
  | lparen | rparen | comma | semicolon | dot | eofToken
  deriving DecidableEq, Repr

/-- `Token`. -/
structure Token where
  type : TokenType
  value : Bytes
  line : Nat
  col : Nat
  deriving DecidableEq, Repr

/-- `LexerError`. -/
structure LexerError where
  message : Bytes
  line : Nat
  col : Nat
  deriving DecidableEq, Repr

/-- The constructor of `LexerError`. -/
def lexerError (message : Bytes) (line col : Nat) : LexerError where
  message :=
    lit "Error at line " ++ ofNat line ++ lit ", col " ++ ofNat col ++ lit ": " ++ message
  line := line
  col := col

/-- The state of the lexer: `src` from `pos` on, and `line` and `col`. -/
structure Lexer where
  rest : Bytes
  line : Nat
  col : Nat
  deriving DecidableEq, Repr

namespace Lexer

/-- `Lexer::KEYWORDS`. -/
def keywords : List (Bytes × TokenType) :=
  ([
    ("no-cap-not", .noCapNot), ("left-link-up", .leftLinkUp), ("mid-link-up", .midLinkUp),
    ("link-up", .linkUp), ("no-cap", .noCap), ("only-if", .onlyIf), ("fr-fr", .frFr),
    ("vibe-check", .vibeCheck), ("hits-different", .hitsDifferent), ("bussin-only", .bussinOnly),
    ("yeet-into", .yeetInto), ("glow-up", .glowUp), ("be-like", .beLike), ("rizz-down", .rizzDown),
    ("manifest-dataset", .manifestDataset), ("manifest-snapshot", .manifestSnapshot),
    ("export-torch", .exportTorch), ("ship-torch", .shipTorch), ("explain-batch", .explainBatch),
    ("spill-batch", .spillBatch), ("with-seed", .withSeed), ("batch-size", .batchSize),
    ("world-size", .worldSize), ("max-len", .maxLen), ("manifest-context", .manifestContext),
    ("yeet-memory", .yeetMemory), ("spill-context", .spillContext),
    ("explain-context", .explainContext), ("show-tabs", .showTabs),
    ("show-context-schemas", .showContextSchemas), ("show-context-objects", .showContextObjects),
    ("alias-tab", .aliasTab), ("merge-tabs", .mergeTabs), ("token-budget", .tokenBudget),
    ("vibe-tab", .vibeTab), ("main-character", .mainCharacter), ("side-character", .sideCharacter),
    ("unique-fr", .uniqueFr), ("cap-at", .capAt), ("up-only", .upOnly), ("down-bad", .downBad),
    ("or-nah", .orNah), ("biggest-W", .biggestW), ("biggest-L", .biggestL), ("mid-fr", .midFr),
    ("percent-check", .percentCheck), ("LONE-WOLF", .loneWolf), ("lone-wolf", .loneWolf),
    ("split-by", .splitBy), ("slay", .slay), ("lowkey", .lowkey), ("ghosted", .ghosted),
    ("drip", .drip), ("ratio", .ratio), ("manifest", .manifest), ("headcount", .headcount),
    ("stack", .stack), ("mid", .mid), ("goat", .goat), ("era", .era), ("skip", .skip),
    ("plus", .plus), ("select", .slay), ("SELECT", .slay), ("from", .noCap), ("FROM", .noCap),
    ("where", .onlyIf), ("WHERE", .onlyIf), ("as", .lowkey), ("AS", .lowkey), ("and", .plus),
    ("AND", .plus), ("or", .orNah), ("OR", .orNah), ("not", .noCapNot), ("NOT", .noCapNot),
    ("null", .ghosted), ("NULL", .ghosted), ("distinct", .uniqueFr), ("DISTINCT", .uniqueFr),
    ("limit", .capAt), ("LIMIT", .capAt), ("offset", .skip), ("OFFSET", .skip), ("asc", .upOnly),
    ("ASC", .upOnly), ("desc", .downBad), ("DESC", .downBad)
  ] : List (String × TokenType)).map fun entry ↦ (lit entry.1, entry.2)

/-! ### Moving over the source -/

/-- `advance`. -/
def advance (lexer : Lexer) : Lexer :=
  match lexer.rest with
  | [] => lexer
  | b :: rest => if b = 10 then ⟨rest, lexer.line + 1, 1⟩ else ⟨rest, lexer.line, lexer.col + 1⟩

/-- `advance`, `n` times. -/
def advanceBy : Nat → Lexer → Lexer
  | 0, lexer => lexer
  | n + 1, lexer => advanceBy n lexer.advance

/-- `advance` until only `rest` is left. -/
def moveTo (rest : Bytes) (lexer : Lexer) : Lexer :=
  advanceBy (lexer.rest.length - rest.length) lexer

/-- `peek(1) == b`. -/
def nextIs (b : UInt8) (lexer : Lexer) : Bool :=
  (lexer.rest.drop 1).head?.getD 0 == b

/-- A token that starts at the first byte of the remainder. -/
def token (lexer : Lexer) (type : TokenType) (value : Bytes) : Token :=
  ⟨type, value, lexer.line, lexer.col⟩

/-- An error at the first byte of the remainder. -/
def errorAt (lexer : Lexer) (message : Bytes) : LexerError :=
  lexerError message lexer.line lexer.col

/-! ### White space and comments -/

/-- `skipWhitespace`. -/
def skipWhitespace (lexer : Lexer) : Lexer :=
  lexer.moveTo (lexer.rest.dropWhile isSpace)

/-- `skipLineComment`. -/
def skipLineComment (lexer : Lexer) : Lexer :=
  lexer.moveTo (lexer.rest.dropWhile (· != 10))

/-- The text behind the end of a block comment. -/
def afterBlockComment : Bytes → Option Bytes
  | [] => none
  | b :: text =>
    if b = 42 ∧ text.head? = some 47 then some (text.drop 1) else afterBlockComment text

/-- `skipBlockComment`. -/
def skipBlockComment (lexer : Lexer) : Except LexerError Lexer :=
  match afterBlockComment (lexer.rest.drop 2) with
  | some rest => .ok (lexer.moveTo rest)
  | none => .error (lexer.errorAt (lit "Unterminated block comment"))

/-! ### Words -/

/-- `isWordStart`. -/
def isWordStart (b : UInt8) : Bool :=
  (65 ≤ b && b ≤ 90) || (97 ≤ b && b ≤ 122) || b == 95

/-- `isWordContinue`. -/
def isWordContinue (b : UInt8) : Bool :=
  isAlnum b || b == 95 || b == 45

/-- The bytes that the loop of `readWord` collects: a hyphen belongs to the word only when a letter or
an underscore follows. -/
def wordText : Bytes → Bytes
  | [] => []
  | b :: text =>
    if !isWordContinue b then []
    else if b = 45 ∧ !(text.head?.any isWordStart) then []
    else b :: wordText text

/-- `readWord`. A hyphenated word that is no keyword is cut at its first hyphen. -/
def readWord (lexer : Lexer) : Token × Lexer :=
  let word := wordText lexer.rest
  let upTo (text : Bytes) := lexer.moveTo (lexer.rest.drop text.length)
  if word = lit "L" then (lexer.token .lFunc word, upTo word)
  else match keywords.lookup word with
    | some type => (lexer.token type word, upTo word)
    | none =>
      let ident := word.takeWhile (· != 45)
      (lexer.token .identifier ident, upTo ident)

/-! ### Numbers -/

/-- The fraction of a number: a point with a digit behind it, and the digits. -/
def fractionText (text : Bytes) : Bytes :=
  if text.head? = some 46 ∧ (text.drop 1).head?.any isDigit then
    46 :: (text.drop 1).takeWhile isDigit
  else []

/-- The exponent of a number, empty when there is none, and `none` when it has no digit. -/
def exponentText : Bytes → Option Bytes
  | [] => some []
  | e :: text =>
    if e = 101 ∨ e = 69 then
      let sign := if text.head? = some 43 ∨ text.head? = some 45 then text.take 1 else []
      let digits := (text.drop sign.length).takeWhile isDigit
      if digits.isEmpty then none else some (e :: (sign ++ digits))
    else some []

/-- `readNumber`. -/
def readNumber (lexer : Lexer) : Except LexerError (Token × Lexer) :=
  let digits := lexer.rest.takeWhile isDigit
  let fraction := fractionText (lexer.rest.drop digits.length)
  let mantissa := digits ++ fraction
  match exponentText (lexer.rest.drop mantissa.length) with
  | none => .error (lexer.errorAt (lit "Invalid number literal"))
  | some exponent =>
    let num := mantissa ++ exponent
    let type : TokenType :=
      if fraction.isEmpty && exponent.isEmpty then .integerLit else .floatLit
    .ok (lexer.token type num, lexer.moveTo (lexer.rest.drop num.length))

/-! ### String literals -/

/-- The bytes that a backslash with `esc` behind it stands for. -/
def escaped (esc : UInt8) : Bytes :=
  if esc = 110 then [10]
  else if esc = 116 then [9]
  else if esc = 114 then [13]
  else if esc = 92 then [92]
  else if esc = 39 then [39]
  else [92, esc]

/-- The loop of `readString`: the value of the literal whose opening quote has been read and the text
behind its closing quote, `none` when it is not terminated. -/
def stringBody : Bytes → Option (Bytes × Bytes)
  | [] => none
  | c :: text =>
    if c = 39 then
      match text with
      | 39 :: text => (stringBody text).map fun read ↦ (39 :: read.1, read.2)
      | text => some ([], text)
    else if c = 92 then
      match text with
      | [] => none
      | esc :: text => (stringBody text).map fun read ↦ (escaped esc ++ read.1, read.2)
    else (stringBody text).map fun read ↦ (c :: read.1, read.2)

/-- `readString`. -/
def readString (lexer : Lexer) : Except LexerError (Token × Lexer) :=
  match stringBody (lexer.rest.drop 1) with
  | some (value, rest) => .ok (lexer.token .stringLit value, lexer.moveTo rest)
  | none => .error (lexer.errorAt (lit "Unterminated string literal"))

/-! ### Operators -/

/-- A token whose text is the next bytes of the source. -/
def operator (lexer : Lexer) (type : TokenType) (text : String) :
    Except LexerError (Token × Lexer) :=
  .ok (lexer.token type (lit text), advanceBy (lit text).length lexer)

/-- The error of `readOperator` on the character `c`. -/
def unexpected (lexer : Lexer) (c : UInt8) : Except LexerError (Token × Lexer) :=
  .error (lexer.errorAt (lit "Unexpected character '" ++ [c] ++ lit "'"))

/-- `readOperator`, at the character `c`. -/
def readOperator (lexer : Lexer) (c : UInt8) : Except LexerError (Token × Lexer) :=
  if c = 61 then lexer.operator .eq "="
  else if c = 33 then
    -- There is no operator `!`.
    if lexer.nextIs 61 then lexer.operator .neq "!=" else lexer.unexpected c
  else if c = 60 then
    if lexer.nextIs 61 then lexer.operator .lte "<=" else lexer.operator .lt "<"
  else if c = 62 then
    if lexer.nextIs 61 then lexer.operator .gte ">=" else lexer.operator .gt ">"
  else if c = 43 then lexer.operator .plusOp "+"
  else if c = 45 then lexer.operator .minus "-"
  else if c = 42 then lexer.operator .star "*"
  else if c = 47 then lexer.operator .slash "/"
  else if c = 124 then
    if lexer.nextIs 124 then lexer.operator .concat "||"
    else .error (lexer.errorAt (lit "Expected '||' for concatenation"))
  else if c = 40 then lexer.operator .lparen "("
  else if c = 41 then lexer.operator .rparen ")"
  else if c = 44 then lexer.operator .comma ","
  else if c = 59 then lexer.operator .semicolon ";"
  else if c = 46 then lexer.operator .dot "."
  else lexer.unexpected c

/-! ### The token list -/

/-- One round of the loop of `tokenize` at a character `c` that is no white space: the token read, if
it is not a comment, and the lexer behind it. -/
def readToken (lexer : Lexer) (c : UInt8) : Except LexerError (Option Token × Lexer) :=
  let some' (read : Token × Lexer) : Option Token × Lexer := (some read.1, read.2)
  if c = 45 ∧ lexer.nextIs 45 then .ok (none, lexer.skipLineComment)
  else if c = 47 ∧ lexer.nextIs 42 then lexer.skipBlockComment.map (none, ·)
  else if c = 39 then lexer.readString.map some'
  else if isDigit c then lexer.readNumber.map some'
  else if isWordStart c then .ok (some' lexer.readWord)
  else (lexer.readOperator c).map some'

/-- The loop of `tokenize`; every round shortens the remainder, so that `fuel` above its length never
runs out. -/
def tokensFrom : Nat → Lexer → Except LexerError (List Token)
  | 0, _ => .ok []
  | fuel + 1, lexer =>
    let lexer := lexer.skipWhitespace
    match lexer.rest with
    | [] => .ok [lexer.token .eofToken []]
    | c :: _ => do
      let read ← lexer.readToken c
      let tokens ← tokensFrom fuel read.2
      return read.1.toList ++ tokens

/-- `Lexer(source).tokenize()`. -/
def tokenize (source : Bytes) : Except LexerError (List Token) :=
  tokensFrom (source.length + 1) ⟨source, 1, 1⟩

end Lexer

end SkibidiQL
