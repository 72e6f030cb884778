import SkibidiQL.Base.IntegerFloat
import SkibidiQL.Base.NearestDouble

/-!
# Doubles that are integers

Which integer a double is (`Float.IsInteger`), as far as the operations on integers need it: the conversion
of an integer is `nearestDouble` of it, a sum of two is `nearestDouble` of their sum, and they compare as
integers.
-/

namespace Float

open Model SkibidiQL

namespace Model.UnpackedFloat

/-! ### Rounding -/

/-- The bits that a shift has dropped, as the rounding looks at them. -/
theorem repeat_shiftRightOne_succ (m k : ℕ) :
    (k + 1).repeat ExtendedMantissa.shiftRightOne ⟨m, false, false⟩ =
      ⟨m / 2 ^ (k + 1), m / 2 ^ k % 2 != 0, m % 2 ^ k != 0⟩ := by
  induction k with
  | zero => simp [Nat.repeat, ExtendedMantissa.shiftRightOne, Nat.mod_one]
  | succ k ih =>
    show ExtendedMantissa.shiftRightOne ((k + 1).repeat ExtendedMantissa.shiftRightOne ⟨m, false, false⟩) = _
    rw [ih, ExtendedMantissa.shiftRightOne, Nat.div_div_eq_div_mul, ← Nat.pow_succ]
    congr 1
    rw [Nat.mod_pow_succ]
    have hpos := Nat.two_pow_pos k
    rcases Nat.mod_two_eq_zero_or_one (m / 2 ^ k) with hbit | hbit
    · rw [hbit, Nat.mul_zero, Nat.add_zero]
      simp
    · rw [hbit, Nat.mul_one]
      simp

/-- Shifting and rounding is dividing to the nearest. -/
theorem roundedMantissa_repeat (m k : ℕ) :
    (k.repeat ExtendedMantissa.shiftRightOne ⟨m, false, false⟩).roundedMantissa = divHalfEven m k := by
  rcases k with - | k
  · exact (divHalfEven_zero m).symm
  · rw [repeat_shiftRightOne_succ]
    have hpos := Nat.two_pow_pos k
    have hlow := Nat.mod_lt m hpos
    unfold divHalfEven
    rw [Nat.mod_pow_succ, Nat.pow_succ]
    generalize 2 ^ k = u at *
    rcases Nat.mod_two_eq_zero_or_one (m / u) with hbit | hbit <;> rw [hbit] <;>
      rcases Nat.eq_zero_or_pos (m % u) with hsticky | hsticky
    · rw [hsticky, if_pos (by omega)]
      rfl
    · rw [if_pos (by omega), bne_iff_ne.2 hsticky.ne']
      rfl
    · rw [hsticky, if_neg (by omega), if_pos (by omega)]
      rfl
    · rw [if_neg (by omega), if_neg (by omega), bne_iff_ne.2 hsticky.ne']
      rfl

/-- A shift of a mantissa without residual bits. -/
theorem shiftToTargetExponent_exact {m d : ℕ} {e : ℤ}
    (hd : (Format.binary64.targetExponent (totalExponent m e) - e).toNat = d) :
    shiftToTargetExponent .binary64 m e .exact =
      (d.repeat ExtendedMantissa.shiftRightOne ⟨m, false, false⟩, e + d) := by
  subst hd
  rfl

/-- The exponent that the 53 bits of a double leave. -/
theorem targetExponent_eq (m : ℕ) (e : ℤ) :
    Format.binary64.targetExponent (totalExponent m e) = max (m.log2 + e - 52) (-1074) := by
  show max _ _ = _
  rw [totalExponent]
  congr 1
  show (m.log2 : ℤ) + 1 + e - ((1 + 52 : ℕ) : ℤ) = _
  omega

/-- The unpacked double is this integer, written with a mantissa of 53 bits. -/
def IsInteger : UnpackedFloat → ℤ → Prop
  | .zero _, a => a = 0
  | .finite s m e _, a =>
    2 ^ 52 ≤ m ∧ m < 2 ^ 53 ∧ ∃ k : ℕ, k ≤ 200 ∧ e = k - 52 ∧ a * 2 ^ 52 = s.apply (m * 2 ^ k : ℕ)
  | _, _ => False

/-- A mantissa with all bits that it may have is rounded to 53 of them. -/
theorem roundWithAccuracy_finite {s : Sign} {m d : ℕ} {e : ℤ} (hlog : m.log2 = 52 + d)
    (he : -1022 ≤ e) :
    ∃ m' e' h, roundWithAccuracy .binary64 s m e .exact = .finite s m' e' h ∧ 2 ^ 52 ≤ m' ∧ m' < 2 ^ 53 ∧
      (e' = e + d ∧ m' = divHalfEven m d ∨ e' = e + d + 1 ∧ 2 * m' = divHalfEven m d) := by
  have hpos : m ≠ 0 := by
    rintro rfl
    rw [Nat.log2_zero] at hlog
    omega
  have hlow : 2 ^ (52 + d) ≤ m := hlog ▸ Nat.log2_self_le hpos
  have hhigh : m < 2 ^ (53 + d) := by
    have hlt : m < 2 ^ (m.log2 + 1) := Nat.lt_log2_self
    rwa [hlog, show 52 + d + 1 = 53 + d by omega] at hlt
  have hshift := shiftToTargetExponent_exact (m := m) (e := e) (d := d) (by
    rw [targetExponent_eq, hlog]
    omega)
  have hle := divHalfEven_le hhigh
  have hge : 2 ^ 52 ≤ divHalfEven m d := by
    have hdiv : 2 ^ 52 ≤ m / 2 ^ d := by
      rwa [Nat.le_div_iff_mul_le (Nat.two_pow_pos d), ← Nat.pow_add]
    unfold divHalfEven
    split_ifs <;> omega
  rw [roundWithAccuracy, hshift]
  dsimp only
  rw [roundedMantissa_repeat]
  generalize divHalfEven m d = r at *
  -- Rounding up may carry into a bit more, and then the mantissa is shifted once again.
  rcases hle.lt_or_eq with hlt | rfl
  · have hlog' : r.log2 = 52 := (Nat.log2_eq_iff (by omega)).2 ⟨hge, hlt⟩
    rw [shiftToTargetExponent_exact (d := 0) (by rw [targetExponent_eq, hlog']; omega)]
    refine ⟨r, e + d, by omega, ?_, hge, hlt, .inl ⟨rfl, rfl⟩⟩
    exact (dif_neg (show r ≠ 0 by omega)).trans (by rw [Nat.cast_zero, add_zero]; rfl)
  · rw [shiftToTargetExponent_exact (d := 1) (by rw [targetExponent_eq, Nat.log2_two_pow]; omega)]
    have hhalf : (1).repeat ExtendedMantissa.shiftRightOne ⟨2 ^ 53, false, false⟩ = ⟨2 ^ 52, false, false⟩ := rfl
    rw [hhalf]
    exact ⟨2 ^ 52, e + d + 1, by decide, rfl, le_rfl, by decide, .inr ⟨rfl, by decide⟩⟩

/-- The logarithm of a number moved to the left. -/
theorem log2_mul_two_pow {n : ℕ} (hn : 0 < n) (k : ℕ) : (n * 2 ^ k).log2 = n.log2 + k := by
  refine (Nat.log2_eq_iff (Nat.mul_pos hn (Nat.two_pow_pos k)).ne').2 ⟨?_, ?_⟩
  · rw [Nat.pow_add]
    exact Nat.mul_le_mul_right _ (Nat.log2_self_le hn.ne')
  · rw [Nat.add_right_comm, Nat.pow_add]
    exact Nat.mul_lt_mul_of_pos_right Nat.lt_log2_self (Nat.two_pow_pos k)

/-- The rounding of an integer, in the unit of its last bit. -/
theorem divHalfEven_roundNat (a : ℕ) :
    divHalfEven (a * 2 ^ 52) a.log2 * 2 ^ a.log2 = roundNat a * 2 ^ 52 := by
  unfold roundNat lostBits
  rcases Nat.le_total 52 a.log2 with hle | hle
  · obtain ⟨k, hk⟩ := Nat.exists_eq_add_of_le' hle
    rw [hk, divHalfEven_mul, Nat.add_sub_cancel, Nat.mul_assoc, ← Nat.pow_add]
  · have hunit : a * 2 ^ 52 = a * 2 ^ (52 - a.log2) * 2 ^ a.log2 := by
      rw [Nat.mul_assoc, ← Nat.pow_add, Nat.sub_add_cancel hle]
    have hscaled := divHalfEven_mul (a * 2 ^ (52 - a.log2)) 0 a.log2
    rw [Nat.zero_add, divHalfEven_zero] at hscaled
    rw [Nat.sub_eq_zero_of_le hle, divHalfEven_zero, Nat.pow_zero, Nat.mul_one, hunit, hscaled]

/-- Rounding a number that is a positive integer. -/
theorem round_isInteger {s : Sign} {m k a : ℕ} (ha : 0 < a) (hvalue : m * 2 ^ k = a * 2 ^ 52)
    (hsmall : a < 2 ^ 100) : (round .binary64 s m ((k : ℤ) - 52)).IsInteger (s.apply (roundNat a)) := by
  have hm : 0 < m := by
    rcases Nat.eq_zero_or_pos m with rfl | hpos
    · rw [Nat.zero_mul] at hvalue
      omega
    · exact hpos
  have hlog : m.log2 + k = a.log2 + 52 := by
    rw [← log2_mul_two_pow hm, hvalue, log2_mul_two_pow ha]
  have hlog100 : a.log2 < 100 := (Nat.log2_lt ha.ne').2 hsmall
  generalize hl : a.log2 = l at *
  have hshift : ((k : ℤ) - 52 - Format.binary64.targetExponent (totalExponent m ((k : ℤ) - 52))).toNat = k - l := by
    rw [targetExponent_eq]
    omega
  -- the mantissa is first widened to all bits of a double, if it has fewer
  have hwide : (m * 2 ^ (k - l)).log2 = 52 + (l - min k l) := by
    rw [log2_mul_two_pow hm]
    omega
  obtain ⟨m', e', hpos, hround, hge, hlt, hcase⟩ :=
    roundWithAccuracy_finite (s := s) (e := (k : ℤ) - 52 - (k - l : ℕ)) hwide (by omega)
  have hscaled : divHalfEven (m * 2 ^ (k - l)) (l - min k l) = divHalfEven (a * 2 ^ 52) l := by
    have hmul := divHalfEven_mul (m * 2 ^ (k - l)) (l - min k l) (min k l)
    rw [← hmul, Nat.mul_assoc, ← Nat.pow_add, show k - l + min k l = k by omega, hvalue,
      Nat.sub_add_cancel (Nat.min_le_right k l)]
  have hfinal : round .binary64 s m ((k : ℤ) - 52) = .finite s m' e' hpos := by
    rw [round, decreaseExponent]
    dsimp only
    rw [hshift, Nat.shiftLeft_eq]
    exact hround
  have hrounded := divHalfEven_roundNat a
  rw [hl, ← hscaled] at hrounded
  rw [hfinal]
  rcases hcase with ⟨rfl, heq⟩ | ⟨rfl, heq⟩
  · refine ⟨hge, hlt, l, by omega, by omega, ?_⟩
    rw [heq, hrounded]
    cases s <;> simp [Sign.apply]
  · refine ⟨hge, hlt, l + 1, by omega, by omega, ?_⟩
    have hunit : m' * 2 ^ (l + 1) = roundNat a * 2 ^ 52 := by
      rw [← hrounded, ← heq, Nat.pow_succ]
      ring
    rw [hunit]
    cases s <;> simp [Sign.apply]

/-! ### Packing -/

/-- Packing keeps the sign. -/
theorem packComponents_sign {spec : Format} {s : Sign} {exponent : BitVec spec.exponentBits}
    {mantissa : BitVec spec.mantissaBitsWithoutImplicit} :
    unpackSign (packComponents spec s exponent mantissa) = s.toBitVec := by
  ext i hi
  simp [unpackSign, packComponents, BitVec.getLsbD_append]
  rw [if_neg (by omega), if_neg (by omega), ← BitVec.getLsbD_eq_getElem hi]
  congr 1
  omega

/-- A normal number comes out of its parts. -/
theorem unpack_packComponents {spec : Format} (s : Sign) {exponent : BitVec spec.exponentBits}
    (mantissa : BitVec spec.mantissaBitsWithoutImplicit) (hones : exponent ≠ -BitVec.ofNat _ 1)
    (hzero : exponent ≠ BitVec.ofNat _ 0) :
    ∃ h, UnpackedFloat.unpack spec (packComponents spec s exponent mantissa) =
      .finite s (1#1 ++ mantissa).toNat
        ((exponent.toNat : ℤ) - (spec.exponentBias + spec.mantissaBitsWithoutImplicit)) h := by
  have hsign : Sign.ofBitVec s.toBitVec = s := by
    cases s <;> rfl
  refine ⟨by simp, ?_⟩
  unfold UnpackedFloat.unpack
  simp only [unpackExponent_packComponents, unpackMantissa_packComponents, packComponents_sign, hsign]
  rw [if_neg hones, if_neg hzero]

/-- Packing keeps an integer. -/
theorem IsInteger.unpack_pack {u : UnpackedFloat} {a : ℤ} (h : u.IsInteger a) :
    (UnpackedFloat.unpack .binary64 (UnpackedFloat.pack .binary64 u)).IsInteger a := by
  rcases u with s | _ | s | ⟨s, m, e, hm⟩
  · exact h.elim
  · exact h.elim
  · have hzero : UnpackedFloat.unpack .binary64 (UnpackedFloat.pack .binary64 (.zero s)) = .zero s := by
      cases s <;> rfl
    rwa [hzero]
  · obtain ⟨hlow, hhigh, k, hk, rfl, hvalue⟩ := h
    have hlog : m.log2 = 52 := (Nat.log2_eq_iff hm.ne').2 ⟨hlow, hhigh⟩
    -- The exponent of an integer below 2^53 lies in the normal range, so nothing is rounded away.
    have hsame : UnpackedFloat.unpack .binary64 (UnpackedFloat.pack .binary64 (.finite s m (k - 52) hm)) =
        .finite s m (k - 52) hm := by
      have hbias : Format.binary64.exponentBias = 1023 := rfl
      have hbits : (2 : ℕ) ^ Format.binary64.exponentBits = 2048 := rfl
      have hprecision : Format.binary64.mantissaBits = 53 := rfl
      have hbiased : ((k : ℤ) - 52 + (1023 : ℕ) + (52 : ℕ)).toNat = k + 1023 := by omega
      have hpacked : UnpackedFloat.pack .binary64 (.finite s m (k - 52) hm) =
          packComponents .binary64 s (BitVec.ofNat _ (k + 1023)) (BitVec.ofNat _ m) := by
        rw [UnpackedFloat.pack]
        dsimp only
        rw [hbias, hbits, hprecision, hbiased]
        split
        · omega
        · split
          · rfl
          · omega
      have hexponent : (BitVec.ofNat Format.binary64.exponentBits (k + 1023)).toNat = k + 1023 := by
        rw [BitVec.toNat_ofNat, hbits]
        omega
      -- The leading bit of the mantissa is the implicit one, which unpacking puts back.
      have hmantissa : (1#1 ++ BitVec.ofNat Format.binary64.mantissaBitsWithoutImplicit m).toNat = m := by
        have hmod : m % 2 ^ 52 = m - 2 ^ 52 := by omega
        rw [BitVec.toNat_append, BitVec.toNat_ofNat]
        show 1 <<< 52 ||| m % 2 ^ 52 = m
        rw [← Nat.shiftLeft_add_eq_or_of_lt (Nat.mod_lt _ (Nat.two_pow_pos 52)), hmod,
          Nat.one_shiftLeft]
        omega
      obtain ⟨hm', hunpack⟩ := unpack_packComponents s
        (BitVec.ofNat Format.binary64.mantissaBitsWithoutImplicit m)
        (fun heq : BitVec.ofNat Format.binary64.exponentBits (k + 1023) = _ ↦ by
          have hones : (-BitVec.ofNat Format.binary64.exponentBits 1).toNat = 2047 := rfl
          rw [heq, hones] at hexponent
          omega)
        (fun heq ↦ by
          have hzero : (BitVec.ofNat Format.binary64.exponentBits 0).toNat = 0 := rfl
          rw [heq, hzero] at hexponent
          omega)
      have hparts : ∀ m' e' h', m' = m → e' = (k : ℤ) - 52 →
          UnpackedFloat.finite s m' e' h' = .finite s m (k - 52) hm := by
        rintro _ _ _ rfl rfl
        rfl
      rw [hpacked, hunpack]
      refine hparts _ _ _ hmantissa ?_
      rw [hexponent, hbias]
      show ((k + 1023 : ℕ) : ℤ) - ((1023 : ℕ) + (52 : ℕ)) = _
      omega
    rw [hsame]
    exact ⟨hlow, hhigh, k, hk, rfl, hvalue⟩

/-! ### Operations -/

/-- A double that is an integer has a place for its bits. -/
theorem IsInteger.fits {u : UnpackedFloat} {a : ℤ} (h : u.IsInteger a) : FitsDouble a := by
  rcases u with s | _ | s | ⟨s, m, e, hm⟩
  · exact h.elim
  · exact h.elim
  · rw [show a = 0 from h]
    exact ⟨0, by decide, 0, rfl⟩
  · obtain ⟨-, hlt, k, -, -, hvalue⟩ := h
    have habs : a.natAbs * 2 ^ 52 = m * 2 ^ k := by
      have hnat := congrArg Int.natAbs hvalue
      rw [Int.natAbs_mul] at hnat
      rw [show (2 : ℤ) ^ 52 = ((2 ^ 52 : ℕ) : ℤ) from rfl, Int.natAbs_natCast] at hnat
      rw [hnat]
      cases s <;> simp [Sign.apply, Int.natAbs_mul, Int.natAbs_pow]
    rcases Nat.le_total 52 k with hle | hle
    · refine ⟨m, hlt, k - 52, Nat.eq_of_mul_eq_mul_right (Nat.two_pow_pos 52) ?_⟩
      rw [habs, Nat.mul_assoc, ← Nat.pow_add, Nat.sub_add_cancel hle]
    · refine fitsDouble_of_lt (Nat.lt_of_mul_lt_mul_right (a := 2 ^ 52) ?_)
      calc a.natAbs * 2 ^ 52 = m * 2 ^ k := habs
        _ < 2 ^ 53 * 2 ^ k := Nat.mul_lt_mul_of_pos_right hlt (Nat.two_pow_pos k)
        _ ≤ 2 ^ 53 * 2 ^ 52 := Nat.mul_le_mul_left _ (Nat.pow_le_pow_right Nat.two_pos hle)

/-- The number `m * 2 ^ e` is rounded to a double when it is an integer. -/
theorem normalize_isInteger {m a : ℤ} {k : ℕ} (hvalue : m * 2 ^ k = a * 2 ^ 52) (hsmall : a.natAbs < 2 ^ 100) :
    (normalize .binary64 m ((k : ℤ) - 52) .positive).IsInteger (nearestDouble a) := by
  have hsign : m.sign = a.sign := by
    have hsigns := congrArg Int.sign hvalue
    rwa [Int.sign_mul, Int.sign_mul, Int.sign_eq_one_of_pos (pow_pos two_pos k),
      Int.sign_eq_one_of_pos (pow_pos two_pos 52), mul_one, mul_one] at hsigns
  have habs : m.natAbs * 2 ^ k = a.natAbs * 2 ^ 52 := by
    have hnat := congrArg Int.natAbs hvalue
    rwa [Int.natAbs_mul, Int.natAbs_mul, Int.natAbs_pow, Int.natAbs_pow] at hnat
  rw [normalize, nearestDouble]
  split
  · next hlt =>
    rw [Int.compare_eq_lt] at hlt
    have hneg : a < 0 := Int.sign_eq_neg_one_iff_neg.1 (hsign ▸ Int.sign_eq_neg_one_of_neg hlt)
    rw [Int.sign_eq_neg_one_of_neg hneg, neg_one_mul]
    exact round_isInteger (s := .negative) (by omega) (by rw [← habs]; congr 1; omega) hsmall
  · next heq =>
    rw [Int.compare_eq_eq] at heq
    rw [heq, Int.sign_zero] at hsign
    rw [← hsign, zero_mul]
    exact rfl
  · next hgt =>
    rw [Int.compare_eq_gt] at hgt
    have hpos : 0 < a := Int.sign_eq_one_iff_pos.1 (hsign ▸ Int.sign_eq_one_of_pos hgt)
    rw [Int.sign_eq_one_of_pos hpos, one_mul]
    exact round_isInteger (s := .positive) (by omega) (by rw [← habs]; congr 1; omega) hsmall

theorem ofInt_isInteger {n : ℤ} (hsmall : n.natAbs < 2 ^ 100) : (ofInt .binary64 n).IsInteger (nearestDouble n) :=
  normalize_isInteger (k := 52) rfl hsmall

/-- Of two mantissas with all bits, that with the greater exponent belongs to the greater number. -/
theorem mul_two_pow_lt {m m' k k' : ℕ} (hm : m < 2 ^ 53) (hm' : 2 ^ 52 ≤ m') (hk : k < k') :
    m * 2 ^ k < m' * 2 ^ k' :=
  calc m * 2 ^ k < 2 ^ 53 * 2 ^ k := Nat.mul_lt_mul_of_pos_right hm (Nat.two_pow_pos k)
    _ = 2 ^ 52 * 2 ^ (k + 1) := by ring
    _ ≤ m' * 2 ^ k' := Nat.mul_le_mul hm' (Nat.pow_le_pow_right Nat.two_pos hk)

/-- Of two normalized numbers the smaller has the smaller exponent or, at the same exponent,
mantissa. -/
theorem exponent_lt_or {m m' k k' : ℕ} (hm : 2 ^ 52 ≤ m) (hm' : m' < 2 ^ 53) (h : m * 2 ^ k < m' * 2 ^ k') :
    k < k' ∨ k = k' ∧ m < m' := by
  rcases Nat.lt_trichotomy k k' with hlt | rfl | hgt
  · exact .inl hlt
  · exact .inr ⟨rfl, Nat.lt_of_mul_lt_mul_right h⟩
  · exact absurd h (Nat.lt_asymm (mul_two_pow_lt hm' hm hgt))

/-- What a finite integer has of its sign. -/
theorem IsInteger.finite_eq {s : Sign} {m : ℕ} {e : ℤ} {hm : 0 < m} {a : ℤ}
    (h : (UnpackedFloat.finite s m e hm).IsInteger a) :
    2 ^ 52 ≤ m ∧ m < 2 ^ 53 ∧ ∃ k : ℕ, e = k - 52 ∧ 0 < m * 2 ^ k ∧ a * 2 ^ 52 = s.apply (m * 2 ^ k : ℕ) :=
  have ⟨hlow, hhigh, k, _, he, hvalue⟩ := h
  ⟨hlow, hhigh, k, he, Nat.mul_pos hm (Nat.two_pow_pos k), hvalue⟩

/-- Integers are ranked by their order. -/
theorem IsInteger.rank_lt {u v : UnpackedFloat} {a b : ℤ} (hu : u.IsInteger a) (hv : v.IsInteger b)
    (hab : a < b) : u.rank < v.rank := by
  rcases u with s | _ | s | ⟨s, m, e, hm⟩
  · exact hu.elim
  · exact hu.elim
  · rcases v with s' | _ | s' | ⟨s', m', e', hm'⟩
    · exact hv.elim
    · exact hv.elim
    · have hzero : a = 0 := hu
      have hzero' : b = 0 := hv
      omega
    · obtain ⟨-, -, k, rfl, hpos, hvalue⟩ := hv.finite_eq
      have hzero : a = 0 := hu
      cases s' with
      | positive => simp [rank, Prod.Lex.toLex_lt_toLex]
      | negative =>
        simp only [Sign.apply] at hvalue
        omega
  · obtain ⟨hlow, hhigh, k, rfl, hpos, hvalue⟩ := hu.finite_eq
    rcases v with s' | _ | s' | ⟨s', m', e', hm'⟩
    · exact hv.elim
    · exact hv.elim
    · have hzero : b = 0 := hv
      cases s with
      | negative => simp [rank, Prod.Lex.toLex_lt_toLex]
      | positive =>
        simp only [Sign.apply] at hvalue
        omega
    · obtain ⟨hlow', hhigh', k', rfl, hpos', hvalue'⟩ := hv.finite_eq
      -- Of two with the same sign the one of the larger magnitude has the larger exponent or mantissa.
      cases s <;> cases s' <;> simp only [Sign.apply] at hvalue hvalue'
      · have hless : m' * 2 ^ k' < m * 2 ^ k := by omega
        have hlex := exponent_lt_or hlow' hhigh hless
        rw [rank, rank, Prod.Lex.toLex_lt_toLex, Prod.Lex.toLex_lt_toLex]
        refine .inr ⟨rfl, ?_⟩
        show -((k : ℤ) - 52) < -((k' : ℤ) - 52) ∨ -((k : ℤ) - 52) = -((k' : ℤ) - 52) ∧ -(m : ℤ) < -(m' : ℤ)
        omega
      · simp [rank, Prod.Lex.toLex_lt_toLex]
      · omega
      · have hless : m * 2 ^ k < m' * 2 ^ k' := by omega
        have hlex := exponent_lt_or hlow hhigh' hless
        rw [rank, rank, Prod.Lex.toLex_lt_toLex, Prod.Lex.toLex_lt_toLex]
        refine .inr ⟨rfl, ?_⟩
        show (k : ℤ) - 52 < (k' : ℤ) - 52 ∨ (k : ℤ) - 52 = (k' : ℤ) - 52 ∧ (m : ℤ) < (m' : ℤ)
        omega

/-- A normalized number has one exponent and one mantissa. -/
theorem parts_eq {m m' k k' : ℕ} (hm : 2 ^ 52 ≤ m ∧ m < 2 ^ 53) (hm' : 2 ^ 52 ≤ m' ∧ m' < 2 ^ 53)
    (h : m * 2 ^ k = m' * 2 ^ k') : k = k' ∧ m = m' := by
  rcases Nat.lt_trichotomy k k' with hlt | rfl | hgt
  · exact absurd h (mul_two_pow_lt hm.2 hm'.1 hlt).ne
  · exact ⟨rfl, Nat.eq_of_mul_eq_mul_right (Nat.two_pow_pos k) h⟩
  · exact absurd h (mul_two_pow_lt hm'.2 hm.1 hgt).ne'

/-- Two numbers with the same integer value have the same rank. -/
theorem IsInteger.rank_eq {u v : UnpackedFloat} {a : ℤ} (hu : u.IsInteger a) (hv : v.IsInteger a) :
    u.rank = v.rank := by
  rcases u with s | _ | s | ⟨s, m, e, hm⟩
  · exact hu.elim
  · exact hu.elim
  · obtain rfl : a = 0 := hu
    rcases v with s' | _ | s' | ⟨s', m', e', hm'⟩
    · exact hv.elim
    · exact hv.elim
    · rfl
    · obtain ⟨-, -, k, -, hpos, hvalue⟩ := hv.finite_eq
      cases s' <;> simp only [Sign.apply] at hvalue <;> omega
  · obtain ⟨hlow, hhigh, k, rfl, hpos, hvalue⟩ := hu.finite_eq
    rcases v with s' | _ | s' | ⟨s', m', e', hm'⟩
    · exact hv.elim
    · exact hv.elim
    · obtain rfl : a = 0 := hv
      cases s <;> simp only [Sign.apply] at hvalue <;> omega
    · obtain ⟨hlow', hhigh', k', rfl, hpos', hvalue'⟩ := hv.finite_eq
      rw [hvalue'] at hvalue
      -- numbers of different signs are not the same
      cases s <;> cases s' <;> simp only [Sign.apply] at hvalue
      · have hsame : m * 2 ^ k = m' * 2 ^ k' := by omega
        obtain ⟨rfl, rfl⟩ := parts_eq ⟨hlow, hhigh⟩ ⟨hlow', hhigh'⟩ hsame
        rfl
      · omega
      · omega
      · have hsame : m * 2 ^ k = m' * 2 ^ k' := by omega
        obtain ⟨rfl, rfl⟩ := parts_eq ⟨hlow, hhigh⟩ ⟨hlow', hhigh'⟩ hsame
        rfl

/-- Integers compare as integers. -/
theorem IsInteger.rank_lt_iff {u v : UnpackedFloat} {a b : ℤ} (hu : u.IsInteger a) (hv : v.IsInteger b) :
    u.rank < v.rank ↔ a < b := by
  refine ⟨fun hlt ↦ lt_of_not_ge fun hle ↦ ?_, hu.rank_lt hv⟩
  rcases hle.lt_or_eq with hgt | rfl
  · exact lt_asymm hlt (hv.rank_lt hu hgt)
  · exact hlt.ne (hu.rank_eq hv)

/-- What has an integer value is a number. -/
theorem IsInteger.isNaN {u : UnpackedFloat} {a : ℤ} (h : u.IsInteger a) : u.isNaN = false := by
  rcases u with s | _ | s | ⟨s, m, e, hm⟩
  · rfl
  · exact h.elim
  · rfl
  · rfl

/-- A mantissa in the unit of a smaller exponent. -/
theorem decreaseExponent_value (m k j : ℕ) (hj : j ≤ k) :
    (decreaseExponent m ((k : ℤ) - 52) ((j : ℤ) - 52)).1 * 2 ^ j = m * 2 ^ k := by
  have hshift : ((k : ℤ) - 52 - ((j : ℤ) - 52)).toNat = k - j := by omega
  rw [decreaseExponent]
  dsimp only
  rw [hshift, Nat.shiftLeft_eq, Nat.mul_assoc, ← Nat.pow_add, Nat.sub_add_cancel hj]

/-- The sum of two integers is rounded. -/
theorem IsInteger.add {u v : UnpackedFloat} {a b : ℤ} (hu : u.IsInteger a) (hv : v.IsInteger b)
    (hsmall : (a + b).natAbs < 2 ^ 100) : (UnpackedFloat.add .binary64 u v).IsInteger (nearestDouble (a + b)) := by
  rcases u with s | _ | s | ⟨s, m, e, hm⟩
  · exact hu.elim
  · exact hu.elim
  · rw [show a = 0 from hu, zero_add, nearestDouble_eq_self hv.fits]
    rcases v with s' | _ | s' | ⟨s', m', e', hm'⟩
    · exact hv.elim
    · exact hv.elim
    · rw [show b = 0 from hv]
      cases s <;> cases s' <;> exact rfl
    · exact hv
  · rcases v with s' | _ | s' | ⟨s', m', e', hm'⟩
    · exact hv.elim
    · exact hv.elim
    · rw [show b = 0 from hv, add_zero, nearestDouble_eq_self hu.fits]
      exact hu
    · obtain ⟨-, -, k, rfl, -, hvalue⟩ := hu.finite_eq
      obtain ⟨-, -, k', rfl, -, hvalue'⟩ := hv.finite_eq
      have hmin : min ((k : ℤ) - 52) ((k' : ℤ) - 52) = ((min k k' : ℕ) : ℤ) - 52 := by omega
      have hfirst := decreaseExponent_value m k (min k k') (Nat.min_le_left _ _)
      have hsecond := decreaseExponent_value m' k' (min k k') (Nat.min_le_right _ _)
      rw [UnpackedFloat.add]
      dsimp only
      rw [hmin]
      refine normalize_isInteger ?_ hsmall
      rw [add_mul, add_mul, hvalue, hvalue', ← hfirst, ← hsecond]
      push_cast
      cases s <;> cases s' <;> simp only [Sign.apply] <;> ring

end Model.UnpackedFloat

/-! ### Doubles -/

/-- The double is this integer. -/
def IsInteger (x : Float) (a : ℤ) : Prop :=
  x.toModel.unpack.IsInteger a

section IsInteger

variable {x y : Float} {a b : ℤ}

theorem isInteger_ofModel_pack {u : UnpackedFloat} (h : u.IsInteger a) : (ofModel (.pack u)).IsInteger a :=
  h.unpack_pack

theorem isInteger_zero : (0 : Float).IsInteger 0 := rfl

/-- The conversion of an integer. -/
theorem isInteger_ofInt64 (n : Int64) : (ofModel (.ofInt64 n)).IsInteger (nearestDouble n.toInt) := by
  refine isInteger_ofModel_pack (UnpackedFloat.ofInt_isInteger ?_)
  have hlow := n.le_toInt
  have hhigh := n.toInt_lt
  omega

/-- The sum of two doubles that are integers. -/
theorem IsInteger.add (hx : x.IsInteger a) (hy : y.IsInteger b) (hsmall : (a + b).natAbs < 2 ^ 100) :
    (x + y).IsInteger (nearestDouble (a + b)) :=
  isInteger_ofModel_pack (UnpackedFloat.IsInteger.add hx hy hsmall)

theorem IsInteger.isNaN (hx : x.IsInteger a) : x.isNaN = false :=
  UnpackedFloat.IsInteger.isNaN hx

theorem IsInteger.lt_iff (hx : x.IsInteger a) (hy : y.IsInteger b) : x < y ↔ a < b :=
  (lt_iff_rank hx.isNaN hy.isNaN).trans (UnpackedFloat.IsInteger.rank_lt_iff hx hy)

/-- Doubles with integer values are equal when the integers are. -/
theorem IsInteger.beq_iff (hx : x.IsInteger a) (hy : y.IsInteger b) : x == y ↔ a = b := by
  rw [beq_iff_rank hx.isNaN hy.isNaN]
  refine ⟨fun heq ↦ ?_, fun heq ↦ UnpackedFloat.IsInteger.rank_eq hx (heq ▸ hy)⟩
  rcases Int.lt_trichotomy a b with hlt | hsame | hgt
  · exact absurd heq ((UnpackedFloat.IsInteger.rank_lt_iff hx hy).2 hlt).ne
  · exact hsame
  · exact absurd heq ((UnpackedFloat.IsInteger.rank_lt_iff hy hx).2 hgt).ne'

end IsInteger

end Float
