import SkibidiQL.Base.Bytes
import SkibidiQL.Base.StateError

/-!
# Reading JSON

The lexical part of `class JsonReader`: the state is the rest of the text. Loops over elements and fields
have fuel, for which the length of the text is enough because every round reads at least one byte.
-/

namespace SkibidiQL

/-- Member functions of `JsonReader`, on the text from `pos_` on. -/
abbrev JsonM := EStateM Error Bytes

namespace Json

/-- `JsonReader::whitespace`. -/
def whitespace : JsonM Unit :=
  modify fun text ↦ text.dropWhile Bytes.isSpace

/-- `JsonReader::consume`. -/
def consume (expected : UInt8) : JsonM Bool := do
  whitespace
  match ← get with
  | [] => pure false
  | b :: rest =>
    if b = expected then
      set rest
      pure true
    else pure false

/-- `JsonReader::expect`. -/
def expect (expected : UInt8) : JsonM Unit := do
  if !(← consume expected) then throw (lit "Malformed catalog JSON")

/-- `JsonReader::finish`. -/
def finish : JsonM Unit := do
  whitespace
  if !(← get).isEmpty then throw (lit "Trailing catalog JSON content")

/-- The value of a hexadecimal digit. -/
def hexValue (hex : UInt8) : Option Nat :=
  if 48 ≤ hex ∧ hex ≤ 57 then some (hex.toNat - 48)
  else if 97 ≤ hex ∧ hex ≤ 102 then some (hex.toNat - 97 + 10)
  else if 65 ≤ hex ∧ hex ≤ 70 then some (hex.toNat - 65 + 10)
  else none

/-- The byte of an escape of one letter. -/
def simpleEscape (escaped : UInt8) : Option UInt8 :=
  [(34, 34), (92, 92), (47, 47), (98, 8), (102, 12), (110, 10), (114, 13), (116, 9)].lookup escaped

/-- The byte of a `\u` escape, from its four digits. -/
def unicodeEscape (hexes : List UInt8) : Except Error UInt8 :=
  match hexes.mapM hexValue with
  | none => throw (lit "Invalid Unicode escape")
  | some digits =>
    let value := digits.foldl (fun value digit ↦ value * 16 + digit) 0
    if value ≤ 127 then pure (UInt8.ofNat value)
    else throw (lit "Non-ASCII catalog escape is unsupported")

/-- The loop of `JsonReader::parseString`, behind the opening quote: the string and the rest. -/
def stringBody : Bytes → Except Error (Bytes × Bytes)
  | [] => throw (lit "Unterminated JSON string")
  | 34 :: rest => pure ([], rest)
  | [92] => throw (lit "Invalid JSON escape")
  -- Four hexadecimal digits give one byte.
  | 92 :: 117 :: a :: b :: c :: d :: text => do
    let byte ← unicodeEscape [a, b, c, d]
    let (out, rest) ← stringBody text
    pure (byte :: out, rest)
  | 92 :: escaped :: text =>
    if escaped = 117 then throw (lit "Invalid Unicode escape")
    else match simpleEscape escaped with
      | none => throw (lit "Invalid JSON escape")
      | some byte => do
        let (out, rest) ← stringBody text
        pure (byte :: out, rest)
  | byte :: text => do
    let (out, rest) ← stringBody text
    pure (byte :: out, rest)

/-- `JsonReader::parseString`. -/
def parseString : JsonM Bytes := do
  whitespace
  match ← get with
  | 34 :: text =>
    match stringBody text with
    | .error error => throw error
    | .ok (out, rest) =>
      set rest
      pure out
  | _ => throw (lit "Expected JSON string")

/-- `JsonReader::parseBool`. -/
def parseBool : JsonM Bool := do
  whitespace
  let text ← get
  if text.take 4 = lit "true" then
    set (text.drop 4)
    pure true
  else if text.take 5 = lit "false" then
    set (text.drop 5)
    pure false
  else throw (lit "Expected JSON boolean")

/-- The number that decimal digits denote. -/
def decimal (digits : Bytes) : Nat :=
  digits.foldl (fun value digit ↦ value * 10 + (digit.toNat - 48)) 0

/-- `JsonReader::parseUnsigned`, with the range check of `std::stoull`. -/
def parseUnsigned : JsonM UInt64 := do
  whitespace
  let text ← get
  let digits := text.takeWhile Bytes.isDigit
  if digits.isEmpty then throw (lit "Expected JSON integer")
  if decimal digits ≥ 18446744073709551616 then throw (lit "stoull")
  set (text.dropWhile Bytes.isDigit)
  pure (UInt64.ofNat (decimal digits))

/-- The loop over comma-separated elements. -/
def elements {α : Type} (element : JsonM α) : Nat → JsonM (List α)
  | 0 => throw (lit "Malformed catalog JSON")
  | fuel + 1 => do
    let first ← element
    if ← consume 44 then
      pure (first :: (← elements element fuel))
    else pure [first]

/-- A JSON array. -/
def parseArray {α : Type} (element : JsonM α) : JsonM (List α) := do
  expect 91
  if ← consume 93 then pure []
  else
    let result ← elements element ((← get).length + 1)
    expect 93
    pure result

/-- `JsonReader::parseStringArray`. -/
def parseStringArray : JsonM (List Bytes) :=
  parseArray parseString

/-- The loop over the fields of an object; `field` reads the value of a field into the record. -/
def fields {σ : Type} (field : Bytes → σ → JsonM σ) : Nat → σ → JsonM σ
  | 0, _ => throw (lit "Malformed catalog JSON")
  | fuel + 1, record => do
    let key ← parseString
    expect 58
    let record ← field key record
    if ← consume 44 then fields field fuel record
    else pure record

/-- A JSON object: none when it is empty, else the record with the values of the fields. -/
def parseObject? {σ : Type} (field : Bytes → σ → JsonM σ) (record : σ) : JsonM (Option σ) := do
  expect 123
  if ← consume 125 then pure none
  else
    let record ← fields field ((← get).length + 1) record
    expect 125
    pure (some record)

/-- A JSON object; an empty one leaves the record as it is. -/
def parseObject {σ : Type} (field : Bytes → σ → JsonM σ) (record : σ) : JsonM σ := do
  pure ((← parseObject? field record).getD record)

/-- `JsonReader::skipValue`, with fuel for the nesting. -/
def skipNested : Nat → JsonM Unit
  | 0 => throw (lit "Malformed catalog JSON")
  | fuel + 1 => do
    whitespace
    match ← get with
    | [] => throw (lit "Missing JSON value")
    | 34 :: _ => discard parseString
    | 123 :: _ => discard (parseObject (fun _ _ ↦ skipNested fuel) ())
    | 91 :: _ => discard (parseArray (skipNested fuel))
    | text =>
      let rest := text.dropWhile fun b ↦ !(Bytes.isSpace b || b == 44 || b == 125 || b == 93)
      if rest.length = text.length then throw (lit "Invalid JSON value")
      set rest

/-- `JsonReader::skipValue`. -/
def skipValue : JsonM Unit := do
  skipNested ((← get).length + 1)

end Json

end SkibidiQL
