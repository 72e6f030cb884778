import SkibidiQL.Base.Bytes
import Mathlib.Order.Defs.LinearOrder

/-!
# Values

The six alternatives of the `std::variant` behind `Value`, with the conversions, the equality and
the three-way comparison of the source.

A `double` is kept as its 64-bit pattern, which is what the tuple codec copies, and read through
`Float.ofBits` wherever the source computes with it. `compare` answers an `Ordering` where the
source answers `-1`, `0` or `1`.
-/

namespace SkibidiQL

/-- `enum class ValueType`. -/
inductive ValueType where
  | null
  | integer
  | real
  | text
  | boolean
  | blob
deriving DecidableEq, Repr

/-- The numeric value of the enumerator, which is also its tag in an encoded tuple. -/
def ValueType.toNat : ValueType → Nat
  | .null => 0
  | .integer => 1
  | .real => 2
  | .text => 3
  | .boolean => 4
  | .blob => 5

/-- `class Value`. -/
inductive Value where
  | null
  | integer (value : Int64)
  | real (bits : UInt64)
  | text (value : Bytes)
  | boolean (value : Bool)
  | blob (value : Bytes)
deriving DecidableEq

/-- `using Tuple = std::vector<Value>`. -/
abbrev Tuple := List Value

/-- Where a row is stored: its page and its slot in that page. -/
structure RowId where
  page : Nat
  slot : Nat
deriving DecidableEq, Repr

namespace Value

/-- `Value::type`. -/
def type : Value → ValueType
  | null => .null
  | integer _ => .integer
  | real _ => .real
  | text _ => .text
  | boolean _ => .boolean
  | blob _ => .blob

/-- `Value::isNull`. -/
def isNull (v : Value) : Bool :=
  v.type == .null

/-- `Value::isNumeric`. -/
def isNumeric (v : Value) : Bool :=
  v.type == .integer || v.type == .real || v.type == .boolean

/-- The explicit constructor from a `double`. -/
def ofFloat (x : Float) : Value :=
  real x.toBits

/-- The `double` reading of a numeric value: the conversion of `Value::asReal` where it does not
throw. Integers round to the nearest double. -/
def toFloat : Value → Float
  | real bits => Float.ofBits bits
  | integer n => Float.ofModel (.ofInt64 n)
  | boolean b => if b then 1 else 0
  | _ => 0

/-- `Value::asReal`. -/
def asReal (v : Value) : Except Error Float :=
  if v.isNumeric then pure v.toFloat else throw (lit "Value is not numeric")

/-- `Value::asBoolean`. -/
def asBoolean (v : Value) : Bool :=
  match v with
  | null => false
  | boolean b => b
  | integer _ => v.toFloat != 0
  | real _ => v.toFloat != 0
  | text s => !s.isEmpty
  | blob b => !b.isEmpty

/-- `Value::operator==`. -/
protected def beq (a b : Value) : Bool :=
  if a.isNull || b.isNull then a.isNull && b.isNull
  else if a.isNumeric && b.isNumeric then a.toFloat == b.toFloat
  else decide (a = b)

instance : BEq Value := ⟨Value.beq⟩

/-- The comparison of two doubles by `<` and `>`. -/
def compareFloat (x y : Float) : Ordering :=
  if x < y then .lt else if y < x then .gt else .eq

/-- `Value::compare`. The last arm is reached by two values of one type, which is neither null nor
numeric: two texts or two blobs. -/
def compare (a b : Value) : Ordering :=
  if a.isNull || b.isNull then
    if a.isNull && b.isNull then .eq else if a.isNull then .lt else .gt
  else if a.isNumeric && b.isNumeric then compareFloat a.toFloat b.toFloat
  else if a.type ≠ b.type then
    if a.type.toNat < b.type.toNat then .lt else .gt
  else match a, b with
    | text s, text t => Ord.compare s t
    | blob s, blob t => Ord.compare s t
    | _, _ => .eq

/-- Whether the value is a NaN. -/
def isNaN (v : Value) : Bool :=
  v.isNumeric && v.toFloat.isNaN

end Value

end SkibidiQL
