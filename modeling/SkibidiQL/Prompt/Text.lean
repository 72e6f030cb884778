import SkibidiQL.Base.Bytes

/-!
# Text functions of the prompt layer

The string helpers in the anonymous namespace of the prompt code: trimming, tokens, keyword search and
the normal form of a tab name.
-/

namespace SkibidiQL

open Bytes

/-- `lowerText`. -/
def lowerText (value : Bytes) : Bytes :=
  value.map toLower

/-- `trimText`: without the white space at both ends. -/
def trimText (value : Bytes) : Bytes :=
  ((value.dropWhile isSpace).reverse.dropWhile isSpace).reverse

/-- The punctuation that `cleanAtomValue` removes at the end of a value. -/
def isTrailingPunctuation (b : UInt8) : Bool :=
  b ∈ lit ".!?,;"

/-- The value up to the first of the words `" but "` and `" because "` that it contains. -/
def cutAtConnective (value : Bytes) : Bytes :=
  let lower := lowerText value
  match find lower (lit " but ") with
  | some pos => value.take pos
  | none =>
    match find lower (lit " because ") with
    | some pos => value.take pos
    | none => value

/-- `cleanAtomValue`. -/
def cleanAtomValue (value : Bytes) : Bytes :=
  trimText ((cutAtConnective (trimText value)).reverse.dropWhile isTrailingPunctuation).reverse

/-- `normalizedTab`. -/
def normalizedTab (tab : Bytes) : Bytes :=
  let cleaned := cleanAtomValue tab
  if cleaned.isEmpty then lit "main" else cleaned

/-- `addUnique`: append a value that is neither empty nor present. -/
def addUnique (values : List Bytes) (value : Bytes) : List Bytes :=
  if value.isEmpty then values
  else if value ∈ values then values
  else values ++ [value]

/-- `removeValue`. -/
def removeValue (values : List Bytes) (value : Bytes) : List Bytes :=
  values.filter (· != value)

/-- Insertion into a sorted list without repetitions. -/
def insertSorted (value : Bytes) : List Bytes → List Bytes
  | [] => [value]
  | v :: values =>
    match compare value v with
    | .lt => value :: v :: values
    | .eq => v :: values
    | .gt => v :: insertSorted value values

/-- `std::sort`, `std::unique` and `erase`: the distinct values in order. -/
def sortUnique (values : List Bytes) : List Bytes :=
  values.foldr insertSorted []

/-- `containsAny`. -/
def containsAny (lower : Bytes) (needles : List Bytes) : Bool :=
  needles.any (contains lower)

/-- `isWordChar`. -/
def isWordChar (b : UInt8) : Bool :=
  isAlnum b || b == 95

/-- Whether `word` occurs in the text, at a position where it is delimited on both sides. `previous`
is the byte in front of the text. -/
def containsWordAfter (word : Bytes) (previous : Option UInt8) : Bytes → Bool
  | [] => false
  | b :: text =>
    (startsWith (b :: text) word && (previous.all fun p ↦ !isWordChar p) &&
        (((b :: text).drop word.length).head?.all fun n ↦ !isWordChar n)) ||
      containsWordAfter word (some b) text

/-- `containsWord`. -/
def containsWord (lower word : Bytes) : Bool :=
  containsWordAfter word none lower

/-- The maximal runs of letters and digits; `token` is the run read so far. -/
def tokensFrom (token : Bytes) : Bytes → List Bytes
  | [] => if token.isEmpty then [] else [token]
  | b :: text =>
    if isAlnum b then tokensFrom (token ++ [b]) text
    else if token.isEmpty then tokensFrom [] text
    else token :: tokensFrom [] text

/-- `tokenizeLower`. -/
def tokenizeLower (text : Bytes) : List Bytes :=
  tokensFrom [] (lowerText text)

/-- `isQueryStopword`. -/
def isQueryStopword (token : Bytes) : Bool :=
  token ∈ ["and", "are", "can", "for", "find", "from", "how",
    "near", "the", "this", "that", "with", "you"].map lit

/-- `queryValueOverlapScore`. -/
def queryValueOverlapScore (lowerValue lowerQuery : Bytes) : Nat :=
  let matching := (tokensFrom [] lowerQuery).filter fun token ↦
    3 ≤ token.length && !isQueryStopword token && contains lowerValue token
  min (20 * matching.length) 80

/-- `isAtomSlugStopword`. -/
def isAtomSlugStopword (token : Bytes) : Bool :=
  token ∈ ["a", "an", "and", "are", "as", "at", "be", "by", "for",
    "from", "in", "inside", "is", "it", "of", "on", "or",
    "should", "that", "the", "this", "to", "use", "using",
    "we", "with", "also", "says", "measured"].map lit

/-- `atomTopicSlug`: the first four tokens that are long enough and no stop words. -/
def atomTopicSlug (value : Bytes) : Bytes :=
  let kept := (tokenizeLower value).filter fun token ↦
    !(token.length < 3 || isAtomSlugStopword token)
  if kept.isEmpty then lit "general" else joinStrings (lit "_") (kept.take 4)

end SkibidiQL
