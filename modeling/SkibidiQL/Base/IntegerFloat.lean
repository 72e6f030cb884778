import SkibidiQL.Base.FloatOrder

/-!
# Integers as doubles

The conversion of an integer rounds its mantissa to 53 bits. Rounding loses bits of low order only, so that
no integer but 0 becomes a zero.
-/

namespace Float

open Model

namespace Model.UnpackedFloat

/-- A number that packing to a double keeps away from zero. -/
def Regular : UnpackedFloat → Prop
  | .finite _ m e _ => m < 2 ^ 53 ∧ -1074 ≤ e
  | _ => False

/-- Shifting right `n` times divides the mantissa by `2 ^ n`. -/
theorem mantissa_shiftRightOne_repeat (em : ExtendedMantissa) (n : ℕ) :
    (n.repeat ExtendedMantissa.shiftRightOne em).mantissa = em.mantissa / 2 ^ n := by
  induction n with
  | zero => exact (Nat.div_one _).symm
  | succ n ih =>
    show (n.repeat ExtendedMantissa.shiftRightOne em).mantissa / 2 = _
    rw [ih, Nat.div_div_eq_div_mul, Nat.pow_succ]

/-- A shift to the exponent of a double leaves a mantissa of 53 bits at most, and not zero. -/
theorem shiftToTargetExponent_spec {m : ℕ} {e : ℤ} (hm : 0 < m) (he : -1074 ≤ e) :
    0 < (shiftToTargetExponent .binary64 m e .exact).1.mantissa ∧
      (shiftToTargetExponent .binary64 m e .exact).1.mantissa < 2 ^ 53 ∧
      -1074 ≤ (shiftToTargetExponent .binary64 m e .exact).2 := by
  have htarget : Format.binary64.targetExponent (totalExponent m e) = max (m.log2 + e - 52) (-1074) := by
    show max _ _ = _
    rw [totalExponent]
    congr 1
    show (m.log2 : ℤ) + 1 + e - ((1 + 52 : ℕ) : ℤ) = _
    omega
  generalize hk : (Format.binary64.targetExponent (totalExponent m e) - e).toNat = k
  have hmantissa : (shiftToTargetExponent .binary64 m e .exact).1.mantissa = m / 2 ^ k := by
    rw [← hk]
    exact mantissa_shiftRightOne_repeat _ _
  have hexponent : (shiftToTargetExponent .binary64 m e .exact).2 = e + k := by
    rw [← hk]
    rfl
  have hlow : 2 ^ m.log2 ≤ m := Nat.log2_self_le hm.ne'
  have hhigh : m < 2 ^ (m.log2 + 1) := Nat.lt_log2_self
  rw [htarget] at hk
  rw [hmantissa, hexponent]
  refine ⟨Nat.div_pos ?_ (Nat.two_pow_pos k), ?_, by omega⟩
  · exact (Nat.pow_le_pow_right Nat.two_pos (by omega)).trans hlow
  · rw [Nat.div_lt_iff_lt_mul (Nat.two_pow_pos k), ← Nat.pow_add]
    exact hhigh.trans_le (Nat.pow_le_pow_right Nat.two_pos (by omega))

/-- Rounding the mantissa never lowers it. -/
theorem le_roundedMantissa (em : ExtendedMantissa) : em.mantissa ≤ em.roundedMantissa := by
  rcases em with ⟨m, _ | _, _ | _⟩
  · exact le_rfl
  · exact le_rfl
  · exact Nat.le_add_right _ _
  · exact Nat.le_succ _

/-- A positive integer is rounded to a regular number. -/
theorem regular_round {s : Sign} {m : ℕ} (hm : 0 < m) : (round .binary64 s m 0).Regular := by
  rw [round, decreaseExponent]
  dsimp only
  generalize hk : (0 - Format.binary64.targetExponent (totalExponent m 0)).toNat = k
  have he : -1074 ≤ (0 : ℤ) - k := by
    have hmin : (-1074 : ℤ) ≤ Format.binary64.targetExponent (totalExponent m 0) := le_max_right _ _
    omega
  have hshift : 0 < m <<< k := by
    rw [Nat.shiftLeft_eq]
    exact Nat.mul_pos hm (Nat.two_pow_pos k)
  obtain ⟨hpos, -, he₁⟩ := shiftToTargetExponent_spec hshift he
  obtain ⟨hpos₂, hlt₂, he₂⟩ := shiftToTargetExponent_spec (hpos.trans_le (le_roundedMantissa _)) he₁
  rw [roundWithAccuracy]
  dsimp only
  rw [dif_neg hpos₂.ne']
  exact ⟨hlt₂, he₂⟩

/-- A nonzero integer becomes a regular number. -/
theorem regular_ofInt {n : ℤ} (hn : n ≠ 0) : (ofInt .binary64 n).Regular := by
  rw [ofInt, normalize]
  split
  · next hlt => exact regular_round (by rw [Int.compare_eq_lt] at hlt; omega)
  · next heq => exact absurd (Int.compare_eq_eq.1 heq) hn
  · next hgt => exact regular_round (by rw [Int.compare_eq_gt] at hgt; omega)

/-- A double whose exponent or mantissa has a bit set is no zero. -/
theorem unpack_ne_zero {b : BitVec Format.binary64.numBits} {s : Sign}
    (h : unpackExponent b ≠ BitVec.ofNat Format.binary64.exponentBits 0 ∨
      unpackMantissa b ≠ BitVec.ofNat Format.binary64.mantissaBitsWithoutImplicit 0) :
    UnpackedFloat.unpack .binary64 b ≠ .zero s := by
  rw [UnpackedFloat.unpack]
  dsimp only
  split
  · split <;> exact nofun
  · split
    · next he =>
      rw [dif_neg (h.resolve_left fun hne ↦ hne he)]
      exact nofun
    · exact nofun

/-- Packing keeps a regular number away from zero: its exponent is no less than that of the least normal
number, or its mantissa has a bit set. -/
theorem unpack_pack_ne_zero {a : UnpackedFloat} {s : Sign} (ha : a.Regular) :
    UnpackedFloat.unpack .binary64 (UnpackedFloat.pack .binary64 a) ≠ .zero s := by
  obtain _ | _ | _ | ⟨s', m, e, hm⟩ := a
  · exact ha.elim
  · exact ha.elim
  · exact ha.elim
  · obtain ⟨hlt, he⟩ := ha
    have hbias : Format.binary64.exponentBias = 1023 := rfl
    have hbits : (2 : ℕ) ^ Format.binary64.exponentBits = 2048 := rfl
    have hprecision : Format.binary64.mantissaBits = 53 := rfl
    rw [UnpackedFloat.pack]
    dsimp only
    rw [hbias, hbits, hprecision]
    split
    · refine unpack_ne_zero (.inl ?_)
      rw [packedInfinity, unpackExponent_packComponents]
      decide
    -- Within the range of exponents: a normal number has an exponent that is not zero.
    · next hexponent =>
      split
      · refine unpack_ne_zero (.inl fun heq ↦ ?_)
        rw [unpackExponent_packComponents] at heq
        have htoNat := congrArg BitVec.toNat heq
        rw [BitVec.toNat_ofNat, hbits] at htoNat
        have hzero : (BitVec.ofNat Format.binary64.exponentBits 0).toNat = 0 := rfl
        rw [hzero] at htoNat
        omega
      -- Below that a subnormal number keeps its whole mantissa, which is not zero.
      · next hlog =>
        refine unpack_ne_zero (.inr fun heq ↦ ?_)
        rw [unpackMantissa_packComponents] at heq
        have htoNat := congrArg BitVec.toNat heq
        have hlog2 : m.log2 < 53 := (Nat.log2_lt hm.ne').2 hlt
        have hsmall : m < 2 ^ 52 := (Nat.log2_lt hm.ne').1 (by omega)
        rw [BitVec.toNat_ofNat, Nat.mod_eq_of_lt hsmall] at htoNat
        exact hm.ne' htoNat

/-- What is not a zero is not equal to one. -/
theorem compare_zero_ne_eq {a : UnpackedFloat} (ha : ∀ s, a ≠ .zero s) (s : Sign) :
    a.compare (.zero s) ≠ some .eq := by
  rcases a with ⟨_ | _⟩ | _ | s' | ⟨_ | _, m, e, hm⟩
  · exact nofun
  · exact nofun
  · exact nofun
  · exact absurd rfl (ha s')
  · exact nofun
  · exact nofun

end Model.UnpackedFloat

/-- Only 0 becomes a zero. -/
theorem ofInt_bne_zero {n : ℤ} (hn : n ≠ 0) : (ofModel (.ofInt n) != 0) = true := by
  rw [bne, Bool.not_eq_true', Bool.eq_false_iff, Ne, beq_iff_compare]
  have hzero : (0 : Float).toModel.unpack = .zero .positive := by rfl
  rw [hzero]
  exact UnpackedFloat.compare_zero_ne_eq
    (fun _ ↦ UnpackedFloat.unpack_pack_ne_zero (UnpackedFloat.regular_ofInt hn)) _

end Float
