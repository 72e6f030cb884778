import Mathlib.Algebra.Order.Floor.Semifield
import Mathlib.Tactic.Linarith
import SkibidiQL.Base.DecimalNumerals

/-!
# Significant digits

A positive number has a greatest power of ten below it, and its digits from there on, rounded half to even, are its
significant digits. Printing them takes a numeral of three parts: digits, a fraction behind a point, and an exponent
of ten. Any of the zeros at the end of the fraction may be left out.
-/

namespace SkibidiQL

open Bytes

/-! ### Rounding -/

/-- Rounding does not fall below an integer that the number reaches. -/
theorem le_roundHalfEven {n : ℕ} {x : ℚ} (h : (n : ℚ) ≤ x) : n ≤ roundHalfEven x := by
  have hfloor : n ≤ ⌊x⌋₊ := Nat.le_floor h
  rw [roundHalfEven]
  split
  · exact hfloor
  · split <;> omega

/-- Rounding does not rise above an integer that bounds the number. -/
theorem roundHalfEven_le {n : ℕ} {x : ℚ} (hx : 0 ≤ x) (h : x ≤ n) : roundHalfEven x ≤ n := by
  rcases h.eq_or_lt with rfl | hlt
  · rw [roundHalfEven_natCast]
  · have hfloor : ⌊x⌋₊ < n := (Nat.floor_lt hx).2 hlt
    rw [roundHalfEven]
    split
    · omega
    · split <;> omega

/-- A fraction is rounded by its remainder. -/
theorem roundHalfEven_div (p : ℕ) {q : ℕ} (hq : 0 < q) : roundHalfEven ((p : ℚ) / q) =
    if q < 2 * (p % q) ∨ 2 * (p % q) = q ∧ p / q % 2 = 1 then p / q + 1 else p / q := by
  have hq' : (0 : ℚ) < q := Nat.cast_pos.2 hq
  have hrest : 2 * ((p : ℚ) / q - (p / q : ℕ)) = (2 * (p % q) : ℕ) / q := by
    have hp : (p : ℚ) = q * (p / q : ℕ) + (p % q : ℕ) := by exact_mod_cast (Nat.div_add_mod p q).symm
    rw [eq_div_iff hq'.ne', mul_assoc, sub_mul, div_mul_cancel₀ _ hq'.ne']
    push_cast
    linarith
  rw [roundHalfEven, Nat.floor_div_eq_div, hrest]
  simp only [div_lt_one hq', div_eq_one_iff_eq hq'.ne', Nat.cast_lt, Nat.cast_inj]
  split
  · rw [if_neg (by omega)]
  · split
    · rename_i heq
      rcases Nat.mod_two_eq_zero_or_one (p / q) with heven | hodd
      · rw [if_neg (by omega), heven, add_zero]
      · rw [if_pos (.inr ⟨heq, hodd⟩), hodd]
    · rw [if_pos (.inl (by omega))]

/-! ### Significant digits -/

/-- The power of ten of the last digit, among so many significant ones. -/
def lastPlace (count : ℕ) (x : ℚ) : ℤ :=
  Int.log 10 x + 1 - count

/-- The significant digits of a number, so many, as one number; rounding up to a power of ten makes one more. -/
def significantDigits (count : ℕ) (x : ℚ) : ℕ :=
  roundHalfEven (x / 10 ^ lastPlace count x)

/-- A number at so many significant digits. -/
def roundSignificant (count : ℕ) (x : ℚ) : ℚ :=
  significantDigits count x * 10 ^ lastPlace count x

/-- There are as many significant digits as asked for. -/
theorem significantDigits_bounds {count : ℕ} (hcount : count ≠ 0) {x : ℚ} (hx : 0 < x) :
    10 ^ (count - 1) ≤ significantDigits count x ∧ significantDigits count x ≤ 10 ^ count := by
  have hplace : (0 : ℚ) < 10 ^ lastPlace count x := zpow_pos (by norm_num) _
  have hlow : (10 : ℚ) ^ Int.log 10 x ≤ x := by exact_mod_cast Int.zpow_log_le_self (b := 10) (by decide) hx
  have hhigh : x < (10 : ℚ) ^ (Int.log 10 x + 1) := by exact_mod_cast Int.lt_zpow_succ_log_self (b := 10) (by decide) x
  constructor
  · apply le_roundHalfEven
    rw [le_div_iff₀ hplace, Nat.cast_pow, ← zpow_natCast, Nat.cast_ofNat, ← zpow_add₀ (by norm_num)]
    refine le_of_eq_of_le (congrArg _ ?_) hlow
    rw [lastPlace]
    omega
  · apply roundHalfEven_le (div_nonneg hx.le hplace.le)
    rw [div_le_iff₀ hplace, Nat.cast_pow, ← zpow_natCast, Nat.cast_ofNat, ← zpow_add₀ (by norm_num)]
    refine hhigh.le.trans (le_of_eq (congrArg _ ?_))
    rw [lastPlace]
    omega

/-! ### Numerals of three parts -/

/-- A point and the fraction behind it, or nothing when there is none. -/
def pointed (fraction : Bytes) : Bytes :=
  if fraction = [] then [] else 46 :: fraction

/-- An exponent with a sign, as it is printed, or nothing. -/
def IsExponent (text : Bytes) : Prop :=
  text = [] ∨ ∃ sign digits, text = 101 :: sign :: digits ∧ (sign = 43 ∨ sign = 45) ∧ digits ≠ [] ∧
    ∀ b ∈ digits, isDigit b

/-- What holds of every byte of a text and not of the byte behind it. -/
theorem takeWhile_append_stop {p : UInt8 → Bool} {text rest : Bytes} (h : ∀ b ∈ text, p b)
    (hstop : ∀ b ∈ rest.head?, p b = false) : (text ++ rest).takeWhile p = text := by
  rw [List.takeWhile_append_of_pos h]
  cases rest with
  | nil => exact List.append_nil text
  | cons b rest =>
    rw [List.takeWhile_cons_of_neg (by rw [hstop b rfl]; exact Bool.false_ne_true), List.append_nil]

/-- An exponent does not begin with a digit. -/
theorem IsExponent.head_not_digit {text : Bytes} (h : IsExponent text) : ∀ b ∈ text.head?, isDigit b = false := by
  rcases h with rfl | ⟨sign, digits, rfl, -⟩
  · exact fun _ h ↦ nomatch h
  · rintro _ ⟨⟩
    rfl

/-- An exponent does not begin with a point. -/
theorem IsExponent.head_ne_point {text : Bytes} (h : IsExponent text) : text.head? ≠ some 46 := by
  rcases h with rfl | ⟨sign, digits, rfl, -⟩
  · exact fun h ↦ nomatch h
  · exact fun h ↦ absurd (Option.some.inj h) (by decide)

/-- The value of a numeral is that of its digits, moved by the exponent less the fraction's length.
-/
theorem numeralValue_parts {whole fraction exponent : Bytes} (hwhole : ∀ b ∈ whole, isDigit b)
    (hfraction : ∀ b ∈ fraction, isDigit b) (hexponent : IsExponent exponent) :
    numeralValue (whole ++ pointed fraction ++ exponent) =
      digitsValue (whole ++ fraction) * 10 ^ (exponentValue exponent - fraction.length) := by
  rw [List.append_assoc]
  rcases eq_or_ne fraction [] with rfl | hne
  · have hhead : fractionDigits exponent = [] := if_neg hexponent.head_ne_point
    rw [pointed, if_pos rfl, List.nil_append, numeralValue, takeWhile_append_stop hwhole hexponent.head_not_digit,
      List.drop_left, hhead, if_neg hexponent.head_ne_point]
  · have hdigits : fractionDigits (46 :: (fraction ++ exponent)) = fraction := by
      rw [fractionDigits, if_pos List.head?_cons]
      exact takeWhile_append_stop hfraction hexponent.head_not_digit
    have hstop : ∀ b ∈ (46 :: (fraction ++ exponent)).head?, isDigit b = false := by
      rintro _ ⟨⟩
      rfl
    rw [pointed, if_neg hne, List.cons_append, numeralValue, takeWhile_append_stop hwhole hstop, List.drop_left, hdigits,
      if_pos List.head?_cons, List.drop_succ_cons, List.drop_left]

/-- The value of an exponent with its sign. -/
theorem exponentValue_signed {sign : UInt8} {digits : Bytes} (hdigits : ∀ b ∈ digits, isDigit b)
    (hsign : sign = 43 ∨ sign = 45) : exponentValue (101 :: sign :: digits) =
      if sign = 45 then -(digitsValue digits : ℤ) else digitsValue digits := by
  rw [exponentValue, if_pos (.inl rfl)]
  rcases hsign with rfl | rfl
  · show (digitsValue (digits.takeWhile isDigit) : ℤ) = _
    rw [List.takeWhile_eq_self_iff.2 hdigits, if_neg (by decide)]
  · show -(digitsValue (digits.takeWhile isDigit) : ℤ) = _
    rw [List.takeWhile_eq_self_iff.2 hdigits, if_pos rfl]

theorem digitsValue_singleton (b : UInt8) : digitsValue [b] = b.toNat - 48 := by
  rw [digitsValue, List.reverse_singleton, List.map_singleton, Nat.ofDigits_singleton]

/-- Digits are below the power of ten that has as many zeros. -/
theorem digitsValue_lt {digits : Bytes} (h : ∀ b ∈ digits, isDigit b) : digitsValue digits < 10 ^ digits.length := by
  have hlt : ∀ d ∈ digits.reverse.map (fun digit : UInt8 ↦ digit.toNat - 48), d < 10 := by
    rw [List.forall_mem_map]
    intro b hb
    have hdigit := h b (List.mem_reverse.1 hb)
    rw [isDigit, Bool.and_eq_true, decide_eq_true_eq, decide_eq_true_eq, UInt8.le_iff_toNat_le, UInt8.le_iff_toNat_le] at hdigit
    have : b.toNat ≤ 57 := hdigit.2
    omega
  have hvalue := Nat.ofDigits_lt_base_pow_length (by decide) hlt
  rwa [List.length_map, List.length_reverse] at hvalue

/-- Only zeros have no value. -/
theorem digitsValue_eq_zero_iff {digits : Bytes} (h : ∀ b ∈ digits, isDigit b) :
    digitsValue digits = 0 ↔ ∀ b ∈ digits, b = 48 := by
  induction digits using List.reverseRecOn with
  | nil => exact ⟨fun _ ↦ List.forall_mem_nil _, fun _ ↦ rfl⟩
  | append_singleton digits b ih =>
    rw [List.forall_mem_append, List.forall_mem_singleton] at h
    have hdigit := h.2
    rw [isDigit, Bool.and_eq_true, decide_eq_true_eq, UInt8.le_iff_toNat_le] at hdigit
    have hlow : 48 ≤ b.toNat := hdigit.1
    rw [digitsValue_append, digitsValue_singleton, List.length_singleton, Nat.pow_one, Nat.add_eq_zero_iff,
      Nat.mul_eq_zero, or_iff_left (by decide), ih h.1, List.forall_mem_append, List.forall_mem_singleton,
      ← UInt8.toNat_inj]
    exact and_congr_right fun _ ↦ ⟨fun hzero ↦ by change b.toNat = 48; omega, fun heq ↦ by rw [heq]; rfl⟩

/-- Zeros have the value zero. -/
theorem digitsValue_replicate_zero (count : ℕ) : digitsValue (List.replicate count 48) = 0 := by
  induction count with
  | zero => rfl
  | succ count ih =>
    rw [List.replicate_succ', digitsValue_append, ih]
    rfl

/-- Zeros at the end of a fraction add nothing. -/
theorem digitsValue_fraction_zeros (whole fraction : Bytes) (count : ℕ) (e : ℤ) :
    (digitsValue (whole ++ (fraction ++ List.replicate count 48)) : ℚ) *
        10 ^ (e - (fraction ++ List.replicate count 48).length) =
      digitsValue (whole ++ fraction) * 10 ^ (e - fraction.length) := by
  rw [← List.append_assoc, digitsValue_append, digitsValue_replicate_zero, List.length_append, List.length_replicate,
    add_zero, Nat.cast_mul, Nat.cast_pow, mul_assoc, Nat.cast_ofNat, ← zpow_natCast, ← zpow_add₀ (by norm_num)]
  congr 2
  push_cast
  ring

end SkibidiQL
