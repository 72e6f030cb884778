import Mathlib.Data.List.DropRight
import SkibidiQL.Base.SignificantDigits
import SkibidiQL.CodeGen.ExpressionText

/-!
# The numerals of a stream

What the text of a double at the default precision of a stream denotes: the value of the double at six significant
digits. It has neither a point nor an exponent exactly when that is a whole number below a million.
-/

namespace SkibidiQL

open Bytes

namespace StreamText

/-! ### The digits -/

/-- The rounded-up quotient of natural numbers. -/
theorem ceil_div (q : ℕ) {p : ℕ} (hp : 0 < p) : ⌈(q : ℚ) / p⌉₊ = (q + p - 1) / p := by
  refine eq_of_forall_ge_iff fun n ↦ ?_
  rw [Nat.ceil_le, div_le_iff₀ (Nat.cast_pos.2 hp), ← Nat.cast_mul, Nat.cast_le, ← Nat.lt_succ_iff (m := _ / p),
    Nat.div_lt_iff_lt_mul hp, Nat.succ_mul]
  omega

/-- The decimal exponent is the logarithm. -/
theorem exponent_eq_log {p q : ℕ} (hp : 0 < p) (hq : 0 < q) : Float15.exponent p q = Int.log 10 ((p : ℚ) / q) := by
  have hq' : (0 : ℚ) < q := Nat.cast_pos.2 hq
  rw [Float15.exponent, Int.log]
  simp only [one_le_div hq', Nat.cast_le]
  rw [Nat.floor_div_eq_div, inv_div, ceil_div q hp]

theorem roundEven_eq (p : ℕ) {q : ℕ} (hq : 0 < q) : Float15.roundEven p q = roundHalfEven ((p : ℚ) / q) := by
  rw [roundHalfEven_div p hq, Float15.roundEven]
  simp only [Bool.or_eq_true, Bool.and_eq_true, decide_eq_true_eq, beq_iff_eq]

/-- The digits that a stream prints, and the exponent of the first of them. -/
theorem significant_spec {p q : ℕ} (hp : 0 < p) (hq : 0 < q) :
    10 ^ 5 ≤ (significant p q).1 ∧ (significant p q).1 < 10 ^ 6 ∧
      ((significant p q).1 : ℚ) * 10 ^ ((significant p q).2 - 5) = roundSignificant precision (p / q) := by
  have hx : (0 : ℚ) < p / q := div_pos (Nat.cast_pos.2 hp) (Nat.cast_pos.2 hq)
  set x := Int.log 10 ((p : ℚ) / q) with hlog
  have hdigits : Float15.roundEven (p * 10 ^ ((precision : ℤ) - 1 - x).toNat) (q * 10 ^ (-((precision : ℤ) - 1 - x)).toNat) =
      significantDigits precision (p / q) := by
    rw [roundEven_eq _ (Nat.mul_pos hq (Nat.pow_pos (by decide))), significantDigits]
    congr 1
    have hsplit : (10 : ℚ) ^ lastPlace precision (p / q) =
        10 ^ (-((precision : ℤ) - 1 - x)).toNat / 10 ^ ((precision : ℤ) - 1 - x).toNat := by
      rw [← zpow_natCast, ← zpow_natCast, ← zpow_sub₀ (by norm_num), lastPlace]
      congr 1
      omega
    rw [hsplit]
    push_cast
    field_simp
  obtain ⟨hlow, hhigh⟩ := significantDigits_bounds (by decide : precision ≠ 0) hx
  have hsignificant : significant p q = if significantDigits precision (p / q) = 10 ^ precision then
      (10 ^ (precision - 1), x + 1) else (significantDigits precision (p / q), x) := by
    rw [significant]
    simp only [exponent_eq_log hp hq]
    rw [← hlog, hdigits]
  have hplace : lastPlace precision ((p : ℚ) / q) = x - 5 := by
    rw [lastPlace, ← hlog]
    norm_num [precision]
    ring
  rw [hsignificant, roundSignificant, hplace]
  split
  -- Rounding has carried into one digit more, which moves the point.
  · rename_i htop
    refine ⟨(by decide : 10 ^ 5 ≤ 10 ^ (precision - 1)), (by decide : 10 ^ (precision - 1) < 10 ^ 6), ?_⟩
    show ((10 ^ (precision - 1) : ℕ) : ℚ) * 10 ^ (x + 1 - 5) = _
    rw [htop, show x + 1 - 5 = x - 5 + 1 by ring, zpow_add_one₀ (by norm_num)]
    norm_num [precision]
    ring
  · rename_i htop
    exact ⟨hlow, lt_of_le_of_ne hhigh htop, rfl⟩

/-! ### The numeral -/

/-- Whether a number is whole and below a million. -/
def isSmallWhole (x : ℚ) : Bool :=
  x = ⌊x⌋₊ && x < 10 ^ precision

/-- The text is a numeral of three parts with the value, without a point and an exponent when the value is whole and
below a million. -/
def IsNumeral (text : Bytes) (value : ℚ) : Prop :=
  ∃ whole fraction exponent, text = whole ++ pointed fraction ++ exponent ∧ whole ≠ [] ∧ (∀ b ∈ whole, isDigit b) ∧
    (∀ b ∈ fraction, isDigit b) ∧ IsExponent exponent ∧
    digitsValue (whole ++ fraction) * 10 ^ (exponentValue exponent - fraction.length) = value ∧
    (fraction = [] ∧ exponent = [] ↔ isSmallWhole value)

theorem not_isSmallWhole_of_lt_one {x : ℚ} (hx : 0 < x) (h : x < 1) : isSmallWhole x = false := by
  rw [isSmallWhole, Nat.floor_eq_zero.2 h, Nat.cast_zero, decide_eq_false hx.ne', Bool.false_and]

theorem not_isSmallWhole_of_le {x : ℚ} (h : 10 ^ precision ≤ x) : isSmallWhole x = false := by
  rw [isSmallWhole, decide_eq_false (not_lt.2 h), Bool.and_false]

theorem stripZeros_eq (digits : Bytes) : Float15.stripZeros digits = digits.rdropWhile (· == 48) :=
  rfl

/-- The zeros at the end of a fraction may be left out of a numeral. -/
theorem isNumeral_strip {whole fraction exponent : Bytes} {value : ℚ} (hne : whole ≠ []) (hwhole : ∀ b ∈ whole, isDigit b)
    (hfraction : ∀ b ∈ fraction, isDigit b) (hexponent : IsExponent exponent)
    (hvalue : digitsValue (whole ++ fraction) * 10 ^ (exponentValue exponent - fraction.length) = value)
    (hsmall : digitsValue fraction = 0 ∧ exponent = [] ↔ isSmallWhole value) :
    IsNumeral (whole ++ Float15.fraction fraction ++ exponent) value := by
  have hpointed : Float15.fraction fraction = pointed (Float15.stripZeros fraction) := by
    rw [Float15.fraction, pointed]
    simp only [List.isEmpty_iff]
  have hempty : Float15.stripZeros fraction = [] ↔ digitsValue fraction = 0 := by
    rw [stripZeros_eq, List.rdropWhile_eq_nil_iff, digitsValue_eq_zero_iff hfraction]
    simp only [beq_iff_eq]
  have hzeros : fraction = Float15.stripZeros fraction ++
      List.replicate (fraction.rtakeWhile (· == 48)).length 48 := by
    have htake : fraction.rtakeWhile (· == 48) = List.replicate (fraction.rtakeWhile (· == 48)).length 48 :=
      List.eq_replicate_of_mem fun b hb ↦ by
        have hzero := List.mem_rtakeWhile_imp hb
        exact beq_iff_eq.1 hzero
    rw [← htake, stripZeros_eq, List.rdropWhile_append_rtakeWhile]
  refine ⟨whole, Float15.stripZeros fraction, exponent, by rw [hpointed], hne, hwhole,
    fun b hb ↦ hfraction b ((List.rdropWhile_prefix _ _).subset hb), hexponent, ?_, by rw [hempty, hsmall]⟩
  rw [← hvalue]
  conv_rhs => rw [hzeros]
  exact (digitsValue_fraction_zeros _ _ _ _).symm

theorem length_ofNat {n : ℕ} (hlow : 10 ^ 5 ≤ n) (hhigh : n < 10 ^ 6) : (ofNat n).length = 6 := by
  rw [ofNat, if_neg (by omega), List.length_reverse, List.length_map]
  exact le_antisymm ((Nat.digits_length_le_iff (by decide) n).2 hhigh) ((Nat.lt_digits_length_iff (by decide) n).2 hlow)

/-- An exponent of at least two digits has its value. -/
theorem digitsValue_twoDigits (n : ℕ) : digitsValue (Float15.twoDigits n) = n := by
  rw [Float15.twoDigits]
  split
  · rw [show (48 : UInt8) :: ofNat n = [48] ++ ofNat n from rfl, digitsValue_append, digitsValue_ofNat,
      show digitsValue [48] = 0 from rfl, Nat.zero_mul, Nat.zero_add]
  · exact digitsValue_ofNat n

/-- An exponent is written in digits. -/
theorem twoDigits_digits (n : ℕ) : Float15.twoDigits n ≠ [] ∧ ∀ b ∈ Float15.twoDigits n, isDigit b := by
  rw [Float15.twoDigits]
  split
  · refine ⟨List.cons_ne_nil _ _, List.forall_mem_cons.2 ⟨by decide, isDigit_ofNat n⟩⟩
  · exact ⟨ofNat_ne_nil n, isDigit_ofNat n⟩

variable {n : ℕ} {x : ℤ}

/-- A number below one is no small whole. -/
theorem not_isSmallWhole_of_neg (hlow : 10 ^ 5 ≤ n) (hhigh : n < 10 ^ 6) (hx : x < 0) :
    isSmallWhole (n * 10 ^ (x - 5)) = false := by
  have hn : (0 : ℚ) < n := Nat.cast_pos.2 (by omega)
  have hn' : (n : ℚ) < 10 ^ (6 : ℤ) := by exact_mod_cast hhigh
  apply not_isSmallWhole_of_lt_one (mul_pos hn (zpow_pos (by norm_num) _))
  calc (n : ℚ) * 10 ^ (x - 5) < 10 ^ (6 : ℤ) * 10 ^ (x - 5) := mul_lt_mul_of_pos_right hn' (zpow_pos (by norm_num) _)
    _ = 10 ^ (x + 1) := by rw [← zpow_add₀ (by norm_num)]; congr 1; ring
    _ ≤ 10 ^ (0 : ℤ) := zpow_le_zpow_right₀ (by norm_num) (by omega)
    _ = 1 := zpow_zero _

/-- A number that the precision does not reach is no small whole. -/
theorem not_isSmallWhole_of_precision_le (hlow : 10 ^ 5 ≤ n) (hx : precision ≤ x) :
    isSmallWhole (n * 10 ^ (x - 5)) = false := by
  have hx : (6 : ℤ) ≤ x := hx
  have hn : (10 : ℚ) ^ (5 : ℤ) ≤ n := by exact_mod_cast hlow
  apply not_isSmallWhole_of_le
  calc (10 : ℚ) ^ precision = 10 ^ (5 : ℤ) * 10 ^ (1 : ℤ) := by norm_num [precision]
    _ ≤ 10 ^ (5 : ℤ) * 10 ^ (x - 5) :=
      mul_le_mul_of_nonneg_left (zpow_le_zpow_right₀ (by norm_num) (by omega)) (by norm_num)
    _ ≤ n * 10 ^ (x - 5) := mul_le_mul_of_nonneg_right hn (zpow_pos (by norm_num) _).le

/-- In exponent form. -/
theorem isNumeral_exponent (hlow : 10 ^ 5 ≤ n) (hhigh : n < 10 ^ 6) (hx : x < -4 ∨ precision ≤ x) :
    IsNumeral ((ofNat n).take 1 ++ Float15.fraction ((ofNat n).drop 1) ++
      101 :: (if x < 0 then 45 else 43) :: Float15.twoDigits x.natAbs) (n * 10 ^ (x - 5)) := by
  have hlength := length_ofNat hlow hhigh
  obtain ⟨hne, hdigits⟩ := twoDigits_digits x.natAbs
  have hsign : (if x < 0 then 45 else 43 : UInt8) = 43 ∨ (if x < 0 then 45 else 43 : UInt8) = 45 := by
    split
    · exact .inr rfl
    · exact .inl rfl
  apply isNumeral_strip
  · rw [ne_eq, List.take_eq_nil_iff, not_or]
    exact ⟨by decide, ofNat_ne_nil n⟩
  · exact fun b hb ↦ isDigit_ofNat n b (List.mem_of_mem_take hb)
  · exact fun b hb ↦ isDigit_ofNat n b (List.mem_of_mem_drop hb)
  · exact .inr ⟨_, _, rfl, hsign, hne, hdigits⟩
  · have hvalue : exponentValue (101 :: (if x < 0 then 45 else 43) :: Float15.twoDigits x.natAbs) = x := by
      rw [exponentValue_signed hdigits hsign, digitsValue_twoDigits]
      split
      · rw [if_pos rfl]
        omega
      · rw [if_neg (by decide)]
        omega
    rw [hvalue, List.take_append_drop, digitsValue_ofNat, List.length_drop, hlength]
    norm_num
  · have hlarge : isSmallWhole (n * 10 ^ (x - 5)) = false := by
      rcases hx with hx | hx
      · exact not_isSmallWhole_of_neg hlow hhigh (by omega)
      · exact not_isSmallWhole_of_precision_le hlow hx
    rw [hlarge]
    exact ⟨fun h ↦ absurd h.2 (List.cons_ne_nil _ _), fun h ↦ absurd h Bool.false_ne_true⟩

/-- In fixed form, below one. -/
theorem isNumeral_fraction (hlow : 10 ^ 5 ≤ n) (hhigh : n < 10 ^ 6) (hx : x < 0) :
    IsNumeral (48 :: Float15.fraction (List.replicate (x.natAbs - 1) 48 ++ ofNat n)) (n * 10 ^ (x - 5)) := by
  have hlength := length_ofNat hlow hhigh
  have hzeros (k : ℕ) : ∀ b ∈ List.replicate k 48, isDigit b := fun b hb ↦ by
    rw [List.eq_of_mem_replicate hb]
    rfl
  have hvalue (k : ℕ) : digitsValue (List.replicate k 48 ++ ofNat n) = n := by
    rw [digitsValue_append, digitsValue_replicate_zero, Nat.zero_mul, Nat.zero_add, digitsValue_ofNat]
  rw [show 48 :: Float15.fraction (List.replicate (x.natAbs - 1) 48 ++ ofNat n) =
    [48] ++ Float15.fraction (List.replicate (x.natAbs - 1) 48 ++ ofNat n) ++ [] from (List.append_nil _).symm]
  apply isNumeral_strip (List.cons_ne_nil _ _) (List.forall_mem_singleton.2 rfl) (List.forall_mem_append.2 ⟨hzeros _, isDigit_ofNat n⟩) (.inl rfl)
  · have hplaces : (0 : ℤ) - (x.natAbs - 1 + 6 : ℕ) = x - 5 := by omega
    have hwhole : digitsValue ([48] ++ (List.replicate (x.natAbs - 1) 48 ++ ofNat n)) = n := hvalue (x.natAbs - 1 + 1)
    rw [hwhole, List.length_append, List.length_replicate, hlength, show exponentValue [] = 0 from rfl, hplaces]
  · rw [not_isSmallWhole_of_neg hlow hhigh hx, hvalue]
    exact ⟨fun h ↦ by omega, fun h ↦ absurd h Bool.false_ne_true⟩

/-- In fixed form, from one on. -/
theorem isNumeral_fixed (hlow : 10 ^ 5 ≤ n) (hhigh : n < 10 ^ 6) (hx : 0 ≤ x) (hx' : x < precision) :
    IsNumeral ((ofNat n).take (x.toNat + 1) ++ Float15.fraction ((ofNat n).drop (x.toNat + 1))) (n * 10 ^ (x - 5)) := by
  have hx' : x < 6 := hx'
  have hlength := length_ofNat hlow hhigh
  set k := 5 - x.toNat with hk
  have hdrop : ((ofNat n).drop (x.toNat + 1)).length = k := by
    rw [List.length_drop, hlength]
    omega
  have hvalue : digitsValue ((ofNat n).take (x.toNat + 1) ++ (ofNat n).drop (x.toNat + 1)) = n := by
    rw [List.take_append_drop, digitsValue_ofNat]
  -- The point stands `k` digits from the end.
  have hscale : (10 : ℚ) ^ (x - 5) = (10 ^ k)⁻¹ := by
    rw [← zpow_natCast, ← zpow_neg]
    congr 1
    omega
  have hdigits : ∀ b ∈ (ofNat n).drop (x.toNat + 1), isDigit b := fun b hb ↦ isDigit_ofNat n b (List.mem_of_mem_drop hb)
  rw [← List.append_nil (_ ++ _)]
  apply isNumeral_strip
  · rw [ne_eq, List.take_eq_nil_iff, not_or]
    exact ⟨Nat.succ_ne_zero _, ofNat_ne_nil n⟩
  · exact fun b hb ↦ isDigit_ofNat n b (List.mem_of_mem_take hb)
  · exact hdigits
  · exact .inl rfl
  · rw [hvalue, hdrop, show exponentValue [] = 0 from rfl, hscale, ← zpow_natCast, ← zpow_neg, zero_sub]
  · have hlt := digitsValue_lt hdigits
    have hsplit := digitsValue_append ((ofNat n).take (x.toNat + 1)) ((ofNat n).drop (x.toNat + 1))
    rw [hvalue, hdrop] at hsplit
    rw [hdrop] at hlt
    have hsmall : (n : ℚ) * (10 ^ k)⁻¹ < 10 ^ precision := by
      have hn : (n : ℚ) < 10 ^ precision := by exact_mod_cast hhigh
      exact (mul_le_of_le_one_right (Nat.cast_nonneg n) (inv_le_one_of_one_le₀ (one_le_pow₀ (by norm_num)))).trans_lt hn
    -- The number is whole when the digits behind the point are all zero, which is when they are stripped.
    have hfloor : ⌊(n : ℚ) * (10 ^ k)⁻¹⌋₊ = n / 10 ^ k := by
      rw [← div_eq_mul_inv]
      exact_mod_cast Nat.floor_div_eq_div (K := ℚ) n (10 ^ k)
    rw [hscale, isSmallWhole, decide_eq_true hsmall, Bool.and_true, decide_eq_true_eq, hfloor, ← div_eq_mul_inv,
      div_eq_iff (pow_ne_zero _ (by norm_num)), and_iff_left rfl]
    have hmod : n % 10 ^ k = digitsValue ((ofNat n).drop (x.toNat + 1)) := by
      conv_lhs => rw [hsplit, Nat.mul_comm, Nat.mul_add_mod, Nat.mod_eq_of_lt hlt]
    rw [← hmod]
    constructor
    · intro hzero
      exact_mod_cast (Nat.div_mul_cancel (Nat.dvd_of_mod_eq_zero hzero)).symm
    · intro heq
      have heq : n = n / 10 ^ k * 10 ^ k := by exact_mod_cast heq
      rw [heq, Nat.mul_mod_left]

/-- Six significant digits are written as a numeral of their value. -/
theorem isNumeral_ofSignificant (hlow : 10 ^ 5 ≤ n) (hhigh : n < 10 ^ 6) :
    IsNumeral (ofSignificant n x) (n * 10 ^ (x - 5)) := by
  rw [ofSignificant]
  split
  · rename_i hx
    rw [Bool.or_eq_true, decide_eq_true_eq, decide_eq_true_eq] at hx
    have hexponent : (if x < 0 then lit "e-" else lit "e+") ++ Float15.twoDigits x.natAbs =
        101 :: (if x < 0 then 45 else 43) :: Float15.twoDigits x.natAbs := by
      split <;> rfl
    rw [List.append_assoc, hexponent]
    exact isNumeral_exponent hlow hhigh hx
  · rename_i hx
    rw [Bool.or_eq_true, decide_eq_true_eq, decide_eq_true_eq, not_or] at hx
    split
    · rename_i hneg
      exact isNumeral_fraction hlow hhigh hneg
    · rename_i hneg
      exact isNumeral_fixed hlow hhigh (not_lt.1 hneg) (not_le.1 hx.2)

/-! ### The text of a double -/

/-- The value of the text of a finite double: that of the double at the precision of the stream. -/
def textValue (bits : ℕ) : ℚ :=
  roundSignificant precision (magnitude bits)

theorem textValue_zero : textValue 0 = 0 := by
  rw [textValue, magnitude, show mantissaOf 0 = 0 from rfl, Nat.cast_zero, zero_mul, roundSignificant, significantDigits,
    zero_div, show roundHalfEven 0 = 0 from roundHalfEven_natCast 0, Nat.cast_zero, zero_mul]

/-- A magnitude is a fraction of naturals. -/
theorem magnitude_eq_div (bits : ℕ) : magnitude bits =
    (mantissaOf bits * 2 ^ (exponentOf bits).toNat : ℕ) / (2 ^ (-exponentOf bits).toNat : ℕ) := by
  have hscale : (2 : ℚ) ^ exponentOf bits = 2 ^ (exponentOf bits).toNat / 2 ^ (-exponentOf bits).toNat := by
    rw [← zpow_natCast, ← zpow_natCast, ← zpow_sub₀ two_ne_zero]
    congr 1
    omega
  rw [magnitude, hscale]
  push_cast
  rw [mul_div_assoc]

/-- A finite double is written as a numeral. -/
theorem isNumeral_ofMagnitude {bits : ℕ} (h : bits < 2047 * 2 ^ 52) : IsNumeral (ofMagnitude bits) (textValue bits) := by
  rw [ofMagnitude, if_neg (by omega), if_neg h.ne]
  split
  · rename_i hzero
    rw [hzero, textValue_zero]
    refine ⟨[48], [], [], rfl, List.cons_ne_nil _ _, List.forall_mem_singleton.2 rfl, List.forall_mem_nil _, .inl rfl, ?_, ?_⟩
    · rw [show digitsValue ([48] ++ []) = 0 from rfl, Nat.cast_zero, zero_mul]
    · rw [isSmallWhole, Nat.floor_zero, Nat.cast_zero, decide_eq_true rfl, decide_eq_true (by norm_num)]
      exact ⟨fun _ ↦ rfl, fun _ ↦ ⟨rfl, rfl⟩⟩
  · rename_i hzero
    have hp : 0 < mantissaOf bits * 2 ^ (exponentOf bits).toNat := by
      refine Nat.mul_pos (Nat.pos_of_ne_zero fun hm ↦ hzero ?_) (Nat.pow_pos (by decide))
      rw [mantissaOf] at hm
      split at hm <;> omega
    obtain ⟨hlow, hhigh, hvalue⟩ := significant_spec hp (Nat.pow_pos (by decide : 0 < 2))
    rw [textValue, magnitude_eq_div, ← hvalue]
    exact isNumeral_ofSignificant hlow hhigh

end StreamText

end SkibidiQL
