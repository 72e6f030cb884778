import Mathlib.Data.Int.Log
import Mathlib.Data.List.TakeWhile
import Mathlib.Data.Nat.Digits.Lemmas
import Mathlib.Data.Rat.Floor
import Mathlib.Tactic.FieldSimp
import Mathlib.Tactic.Ring
import SkibidiQL.Base.Bytes

/-!
# Decimal numerals and doubles

The value of a decimal numeral is a rational number, and so is that of a finite double. A numeral reads as the
double that is nearest to its value, of two as near the one whose last bit is even. A double whose value the numeral
has is read back (`nearestBits_magnitude`), and every double is the value of some numeral (`exactText`).
-/

namespace SkibidiQL

open Bytes

/-! ### Doubles -/

/-- The mantissa of a double that is not negative, from its bits. -/
def mantissaOf (bits : ℕ) : ℕ :=
  if bits / 2 ^ 52 = 0 then bits % 2 ^ 52 else 2 ^ 52 + bits % 2 ^ 52

/-- The exponent of two of a double that is not negative, from its bits. -/
def exponentOf (bits : ℕ) : ℤ :=
  if bits / 2 ^ 52 = 0 then -1074 else (bits / 2 ^ 52 : ℕ) - 1075

/-- The value of a finite double that is not negative, from its bits. -/
def magnitude (bits : ℕ) : ℚ :=
  mantissaOf bits * 2 ^ exponentOf bits

/-- The integer that is nearest, of two as near the even one. -/
def roundHalfEven (x : ℚ) : ℕ :=
  if 2 * (x - ⌊x⌋₊) < 1 then ⌊x⌋₊
  else if 2 * (x - ⌊x⌋₊) = 1 then ⌊x⌋₊ + ⌊x⌋₊ % 2
  else ⌊x⌋₊ + 1

/-- The exponent of two of the last bit that a double near the number has. -/
def unitExponent (x : ℚ) : ℤ :=
  max (Int.log 2 x - 52) (-1074)

/-- The bits of the nearest double; those of infinity or more when there is none. -/
def nearestBits (x : ℚ) : ℕ :=
  if x = 0 then 0 else (unitExponent x + 1074).toNat * 2 ^ 52 + roundHalfEven (x / 2 ^ unitExponent x)

theorem roundHalfEven_natCast (n : ℕ) : roundHalfEven n = n := by
  rw [roundHalfEven, Nat.floor_natCast, sub_self, mul_zero, if_pos one_pos]

/-- The binary logarithm of a double from its parts. -/
theorem log_magnitude {bits : ℕ} (h : mantissaOf bits ≠ 0) :
    Int.log 2 (magnitude bits) = Nat.log 2 (mantissaOf bits) + exponentOf bits := by
  have hm : (0 : ℚ) < mantissaOf bits := Nat.cast_pos.2 (Nat.pos_of_ne_zero h)
  have hpos : 0 < magnitude bits := mul_pos hm (zpow_pos two_pos _)
  have hlow : (2 : ℚ) ^ (Nat.log 2 (mantissaOf bits) : ℤ) ≤ mantissaOf bits := by
    rw [zpow_natCast]
    exact_mod_cast Nat.pow_log_le_self 2 h
  have hhigh : (mantissaOf bits : ℚ) < 2 ^ ((Nat.log 2 (mantissaOf bits) : ℤ) + 1) := by
    rw [show (Nat.log 2 (mantissaOf bits) : ℤ) + 1 = ((Nat.log 2 (mantissaOf bits) + 1 : ℕ) : ℤ) from rfl, zpow_natCast]
    exact_mod_cast Nat.lt_pow_succ_log_self one_lt_two _
  have hscale : (0 : ℚ) < 2 ^ exponentOf bits := zpow_pos two_pos _
  apply le_antisymm
  · rw [← Int.lt_add_one_iff, ← Int.lt_zpow_iff_log_lt one_lt_two hpos, magnitude, add_right_comm, Nat.cast_ofNat,
      zpow_add₀ two_ne_zero]
    exact mul_lt_mul_of_pos_right hhigh hscale
  · rw [← Int.zpow_le_iff_le_log one_lt_two hpos, magnitude, Nat.cast_ofNat, zpow_add₀ two_ne_zero]
    exact mul_le_mul_of_nonneg_right hlow hscale.le

/-- The unit of a double is that of its exponent. -/
theorem unitExponent_magnitude {bits : ℕ} (h : mantissaOf bits ≠ 0) :
    unitExponent (magnitude bits) = exponentOf bits := by
  rw [unitExponent, log_magnitude h]
  have hmod : bits % 2 ^ 52 < 2 ^ 52 := Nat.mod_lt _ (by decide)
  by_cases hsub : bits / 2 ^ 52 = 0
  · have hm : mantissaOf bits < 2 ^ 52 := by rwa [mantissaOf, if_pos hsub]
    have hlog := Nat.log_lt_of_lt_pow h hm
    have he : exponentOf bits = -1074 := if_pos hsub
    omega
  · have hm : mantissaOf bits = 2 ^ 52 + bits % 2 ^ 52 := if_neg hsub
    have hlog : Nat.log 2 (mantissaOf bits) = 52 := by
      rw [hm]
      exact Nat.log_eq_of_pow_le_of_lt_pow (Nat.le_add_right _ _) (by omega)
    have he : exponentOf bits = (bits / 2 ^ 52 : ℕ) - 1075 := if_neg hsub
    omega

/-- The double nearest to the value of a double is that double. -/
theorem nearestBits_magnitude (bits : ℕ) : nearestBits (magnitude bits) = bits := by
  by_cases hm : mantissaOf bits = 0
  · have hbits : bits = 0 := by
      rw [mantissaOf] at hm
      split at hm <;> omega
    rw [hbits, nearestBits, magnitude, show mantissaOf 0 = 0 from rfl, Nat.cast_zero, zero_mul, if_pos rfl]
  · have hscale : (2 : ℚ) ^ exponentOf bits ≠ 0 := (zpow_pos two_pos _).ne'
    have hzero : magnitude bits ≠ 0 := mul_ne_zero (Nat.cast_ne_zero.2 hm) hscale
    rw [nearestBits, if_neg hzero, unitExponent_magnitude hm, magnitude, mul_div_assoc, div_self hscale, mul_one,
      roundHalfEven_natCast]
    rw [mantissaOf, exponentOf]
    split <;> omega

/-! ### Numerals -/

/-- The number that decimal digits denote. -/
def digitsValue (digits : Bytes) : ℕ :=
  Nat.ofDigits 10 (digits.reverse.map fun digit ↦ digit.toNat - 48)

/-- The digits behind a point. -/
def fractionDigits (text : Bytes) : Bytes :=
  if text.head? = some 46 then (text.drop 1).takeWhile isDigit else []

/-- The exponent of ten, 0 when there is none. -/
def exponentValue (text : Bytes) : ℤ :=
  if text.head? = some 101 ∨ text.head? = some 69 then
    match text.drop 1 with
    | 45 :: digits => -digitsValue (digits.takeWhile isDigit)
    | 43 :: digits => digitsValue (digits.takeWhile isDigit)
    | digits => digitsValue (digits.takeWhile isDigit)
  else 0

/-- The value of a decimal numeral: digits, a fraction behind a point, and an exponent of ten. -/
def numeralValue (text : Bytes) : ℚ :=
  let whole := text.takeWhile isDigit
  let rest := text.drop whole.length
  let fraction := fractionDigits rest
  let exponent := exponentValue (if rest.head? = some 46 then rest.drop (fraction.length + 1) else rest)
  digitsValue (whole ++ fraction) * 10 ^ (exponent - fraction.length)

/-- The value of digits behind digits. -/
theorem digitsValue_append (front back : Bytes) :
    digitsValue (front ++ back) = digitsValue front * 10 ^ back.length + digitsValue back := by
  rw [digitsValue, List.reverse_append, List.map_append, Nat.ofDigits_append, List.length_map, List.length_reverse,
    digitsValue, digitsValue]
  ring

/-- Digits are read back. -/
theorem digitsValue_ofNat (n : ℕ) : digitsValue (ofNat n) = n := by
  rw [ofNat]
  split
  · rename_i hzero
    rw [hzero]
    rfl
  · rw [digitsValue, List.reverse_reverse, List.map_map]
    have hdigits : (Nat.digits 10 n).map ((fun digit : UInt8 ↦ digit.toNat - 48) ∘ fun d ↦ UInt8.ofNat (48 + d)) =
        Nat.digits 10 n := by
      refine (List.map_congr_left fun d hd ↦ ?_).trans (List.map_id _)
      have hlt : d < 10 := Nat.digits_lt_base (by decide) hd
      show (UInt8.ofNat (48 + d)).toNat - 48 = d
      rw [UInt8.toNat_ofNat']
      omega
    rw [hdigits, Nat.ofDigits_digits]

/-- The last digits of a number, as many as asked for. -/
def lastDigits : ℕ → ℕ → Bytes
  | 0, _ => []
  | count + 1, n => lastDigits count (n / 10) ++ [UInt8.ofNat (48 + n % 10)]

/-- There are as many last digits as asked for. -/
theorem length_lastDigits (count n : ℕ) : (lastDigits count n).length = count := by
  induction count generalizing n with
  | zero => rfl
  | succ count ih => rw [lastDigits, List.length_append, ih, List.length_singleton]

/-- The last digits are digits. -/
theorem isDigit_lastDigits (count n : ℕ) : ∀ b ∈ lastDigits count n, isDigit b := by
  induction count generalizing n with
  | zero => exact List.forall_mem_nil _
  | succ count ih =>
    rw [lastDigits, List.forall_mem_append, List.forall_mem_singleton]
    exact ⟨ih _, isDigit_digit _ (Nat.mod_lt _ (by decide))⟩

/-- The last digits have the value of the remainder. -/
theorem digitsValue_lastDigits (count n : ℕ) : digitsValue (lastDigits count n) = n % 10 ^ count := by
  induction count generalizing n with
  | zero => rw [Nat.pow_zero, Nat.mod_one]; rfl
  | succ count ih =>
    have hdigit : digitsValue [UInt8.ofNat (48 + n % 10)] = n % 10 := by
      have hlt : n % 10 < 10 := Nat.mod_lt _ (by decide)
      show (UInt8.ofNat (48 + n % 10)).toNat - 48 + 10 * 0 = n % 10
      rw [UInt8.toNat_ofNat']
      omega
    rw [lastDigits, digitsValue_append, ih, hdigit, List.length_singleton, Nat.pow_one, Nat.pow_succ', Nat.mod_mul]
    ring

/-- A numeral without an exponent. -/
theorem numeralValue_point {whole fraction : Bytes} (hwhole : ∀ b ∈ whole, isDigit b)
    (hfraction : ∀ b ∈ fraction, isDigit b) :
    numeralValue (whole ++ 46 :: fraction) = digitsValue (whole ++ fraction) / 10 ^ fraction.length := by
  have htake : (whole ++ 46 :: fraction).takeWhile isDigit = whole := by
    rw [List.takeWhile_append_of_pos hwhole, List.takeWhile_cons_of_neg (by decide), List.append_nil]
  have hdigits : fractionDigits (46 :: fraction) = fraction := by
    rw [fractionDigits, if_pos List.head?_cons]
    exact List.takeWhile_eq_self_iff.2 hfraction
  rw [numeralValue, htake, List.drop_left, hdigits, if_pos List.head?_cons, List.drop_succ_cons, List.drop_length, exponentValue, if_neg (by decide),
    zero_sub, zpow_neg, zpow_natCast, div_eq_mul_inv]

/-- The exact value of a double as a numeral. -/
def exactText (bits : ℕ) : Bytes :=
  let places := (-exponentOf bits).toNat
  let scaled := mantissaOf bits * 2 ^ (exponentOf bits).toNat * 5 ^ places
  ofNat (scaled / 10 ^ places) ++ 46 :: lastDigits (places + 1) (scaled * 10)

/-- The exact text of a double has its value. -/
theorem numeralValue_exactText (bits : ℕ) : numeralValue (exactText bits) = magnitude bits := by
  rw [exactText, numeralValue_point (isDigit_ofNat _) (isDigit_lastDigits _ _), digitsValue_append, digitsValue_ofNat,
    digitsValue_lastDigits, length_lastDigits]
  set places := (-exponentOf bits).toNat with hplaces
  set scaled := mantissaOf bits * 2 ^ (exponentOf bits).toNat * 5 ^ places with hscaled
  have hsplit : scaled / 10 ^ places * 10 ^ (places + 1) + scaled * 10 % 10 ^ (places + 1) = scaled * 10 := by
    rw [Nat.pow_succ, Nat.mul_mod_mul_right, ← Nat.mul_assoc, ← Nat.add_mul, Nat.mul_comm (scaled / 10 ^ places),
      Nat.div_add_mod]
  have hvalue : (2 : ℚ) ^ exponentOf bits = 2 ^ (exponentOf bits).toNat / 2 ^ places := by
    rw [← zpow_natCast, ← zpow_natCast, ← zpow_sub₀ two_ne_zero]
    congr 1
    omega
  rw [hsplit, magnitude, hvalue, hscaled]
  push_cast
  rw [show (10 : ℚ) = 2 * 5 by norm_num, mul_pow, pow_succ, pow_succ]
  field_simp

end SkibidiQL
