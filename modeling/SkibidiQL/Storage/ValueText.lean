import SkibidiQL.Storage.Value
import Mathlib.Data.Nat.Log

/-!
# Values as integers and as text

`Value::asInteger` and `Value::toString`. A double prints as `std::ostream` prints it at precision 15: the
exact value is rounded to fifteen significant digits, ties to the even digit, and written in fixed or in
exponent form, without trailing zeros.
-/

namespace SkibidiQL

open Bytes

namespace Float15

/-- The number of significant digits. -/
def precision : Nat := 15

/-- The decimal exponent of the fraction `p / q`: the greatest `x` with `10 ^ x ≤ p / q`. -/
def exponent (p q : Nat) : Int :=
  if q ≤ p then Nat.log 10 (p / q) else -(Nat.clog 10 ((q + p - 1) / p) : Nat)

/-- The fraction `p / q` as a natural number, ties to even. -/
def roundEven (p q : Nat) : Nat :=
  let quotient := p / q
  let remainder := p % q
  if q < 2 * remainder || (2 * remainder == q && quotient % 2 == 1) then quotient + 1 else quotient

/-- The significant digits of `p / q` as one number, with the decimal exponent of the rounded value. -/
def significant (p q : Nat) : Nat × Int :=
  let x := exponent p q
  let shift := (precision : Int) - 1 - x
  let digits := roundEven (p * 10 ^ shift.toNat) (q * 10 ^ (-shift).toNat)
  if digits = 10 ^ precision then (10 ^ (precision - 1), x + 1) else (digits, x)

/-- The digits without the zeros at the end. -/
def stripZeros (digits : Bytes) : Bytes :=
  (digits.reverse.dropWhile (· == 48)).reverse

/-- A point and the fraction behind it, or nothing when the fraction is zero. -/
def fraction (digits : Bytes) : Bytes :=
  if (stripZeros digits).isEmpty then [] else 46 :: stripZeros digits

/-- At least two digits, as the exponent is printed. -/
def twoDigits (n : Nat) : Bytes :=
  if n < 10 then 48 :: ofNat n else ofNat n

/-- The text of the positive fraction `p / q`. -/
def ofFraction (p q : Nat) : Bytes :=
  let (number, x) := significant p q
  let digits := ofNat number
  if x < -4 || (precision : Int) ≤ x then
    digits.take 1 ++ fraction (digits.drop 1) ++
      (if x < 0 then lit "e-" else lit "e+") ++ twoDigits x.natAbs
  else if x < 0 then
    48 :: fraction (List.replicate (x.natAbs - 1) 48 ++ digits)
  else
    digits.take (x.toNat + 1) ++ fraction (digits.drop (x.toNat + 1))

end Float15

/-- `std::ostringstream << std::setprecision(15)` of a double. -/
def floatText (x : Float) : Bytes :=
  let sign : Bytes := if x.toBits.toNat < 2 ^ 63 then [] else [45]
  match x.toModel.unpack with
  | .notANumber => sign ++ lit "nan"
  | .infinity _ => sign ++ lit "inf"
  | .zero _ => sign ++ lit "0"
  | .finite _ mantissa e _ =>
    sign ++ Float15.ofFraction (mantissa * 2 ^ e.toNat) (2 ^ (-e).toNat)

/-- The part of a double before the point. -/
def integerPart (x : Float) : Option Int :=
  match x.toModel.unpack with
  | .notANumber => none
  | .infinity _ => none
  | .zero _ => some 0
  | .finite s mantissa e _ => some (s.apply (mantissa * 2 ^ e.toNat / 2 ^ (-e).toNat : Nat))

/-- The conversion of a double to a 64-bit integer is defined: the part before the point has 64 bits. -/
def ConvertsToInt64 (x : Float) : Prop :=
  ∃ a ∈ integerPart x, -9223372036854775808 ≤ a ∧ a < 9223372036854775808

instance (x : Float) : Decidable (ConvertsToInt64 x) :=
  inferInstanceAs (Decidable (∃ a ∈ integerPart x, _))

/-- `static_cast<std::int64_t>` of a double. Where the language leaves it undefined, this is the value that x86-64
gives; results that are to hold of the language ask for `ConvertsToInt64`. -/
def truncate (x : Float) : Int64 :=
  match integerPart x with
  | none => Int64.minValue
  | some a => if -9223372036854775808 ≤ a ∧ a < 9223372036854775808 then Int64.ofInt a else Int64.minValue

/-- Two lower-case hexadecimal digits. -/
def hexByte (b : UInt8) : Bytes :=
  let digit (n : UInt8) : UInt8 := if n < 10 then 48 + n else 87 + n
  [digit (b / 16), digit (b % 16)]

namespace Value

/-- `Value::asInteger`. -/
def asInteger : Value → Except Error Int64
  | integer n => pure n
  | real bits => pure (truncate (Float.ofBits bits))
  | boolean b => pure (if b then 1 else 0)
  | _ => throw (lit "Value is not numeric")

/-- `Value::toString`. -/
def toString : Value → Bytes
  | null => lit "NULL"
  | integer n => ofInt n.toInt
  | real bits => floatText (Float.ofBits bits)
  | text s => s
  | boolean b => if b then lit "1" else lit "0"
  | blob bytes => lit "0x" ++ bytes.flatMap hexByte

end Value

example : floatText (Float.ofBits 0x3FB999999999999A) = lit "0.1" := by decide +kernel

example : floatText (Float.ofBits 0x4341C37937E08001) = lit "1e+16" := by decide +kernel

end SkibidiQL
