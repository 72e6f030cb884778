import Mathlib

/-!
# The order of doubles

Away from NaN, the comparisons of `Float` are those of a linear order: `Float.rank` sends a double to its
place among the infinities, the zeros and the finite numbers of either sign. The two zeros share one
place. No conversion from an integer yields a NaN.
-/

namespace Float

open Model

namespace Model.UnpackedFloat

/-- The place of an unpacked double: its class, then its exponent and its mantissa. -/
def rank : UnpackedFloat → ℤ ×ₗ ℤ ×ₗ ℤ
  | .infinity .negative => toLex (-2, toLex (0, 0))
  | .finite .negative m e _ => toLex (-1, toLex (-e, -m))
  | .zero _ => toLex (0, toLex (0, 0))
  | .finite .positive m e _ => toLex (1, toLex (e, m))
  | .infinity .positive => toLex (2, toLex (0, 0))
  | .notANumber => toLex (0, toLex (0, 0))

/-- Finite numbers of one sign compare by the exponent, then by the mantissa. -/
theorem then_eq_lt_iff (e e' : ℤ) (m m' : ℕ) :
    (compare e e').then (compare m m') = .lt ↔ e < e' ∨ e = e' ∧ m < m' := by
  rw [Ordering.then_eq_lt, Int.compare_eq_lt, Int.compare_eq_eq, Nat.compare_eq_lt]

theorem then_eq_gt_iff (e e' : ℤ) (m m' : ℕ) :
    (compare e e').then (compare m m') = .gt ↔ e' < e ∨ e = e' ∧ m' < m := by
  rw [Ordering.then_eq_gt, Int.compare_eq_gt, Int.compare_eq_eq, Nat.compare_eq_gt]

theorem compare_sign_self (s : Sign) : compare s s = .eq := by
  cases s <;> rfl

theorem compare_negative_positive : compare Sign.negative Sign.positive = .lt := rfl

theorem compare_positive_negative : compare Sign.positive Sign.negative = .gt := rfl

variable {a b : UnpackedFloat}

/-- Numbers compare as their ranks. -/
theorem compare_eq_lt_iff (ha : a.isNaN = false) (hb : b.isNaN = false) :
    a.compare b = some .lt ↔ a.rank < b.rank := by
  rcases a with ⟨_ | _⟩ | _ | _ | ⟨_ | _, m, e, hm⟩ <;>
    rcases b with ⟨_ | _⟩ | _ | _ | ⟨_ | _, m', e', hm'⟩ <;>
    simp_all [UnpackedFloat.compare, rank, Prod.Lex.toLex_lt_toLex, then_eq_lt_iff, then_eq_gt_iff,
      compare_sign_self, compare_negative_positive, compare_positive_negative, UnpackedFloat.isNaN]

/-- Numbers compare as equal at equal ranks. -/
theorem compare_eq_eq_iff (ha : a.isNaN = false) (hb : b.isNaN = false) :
    a.compare b = some .eq ↔ a.rank = b.rank := by
  rcases a with ⟨_ | _⟩ | _ | _ | ⟨_ | _, m, e, hm⟩ <;>
    rcases b with ⟨_ | _⟩ | _ | _ | ⟨_ | _, m', e', hm'⟩ <;>
    simp_all [UnpackedFloat.compare, rank, compare_sign_self, compare_negative_positive,
      compare_positive_negative, UnpackedFloat.isNaN]

/-- A NaN compares with nothing. -/
theorem compare_eq_none (h : a.isNaN ∨ b.isNaN) : a.compare b = none := by
  rcases a with ⟨_ | _⟩ | _ | _ | ⟨_ | _, m, e, hm⟩ <;>
    rcases b with ⟨_ | _⟩ | _ | _ | ⟨_ | _, m', e', hm'⟩ <;>
    simp_all [UnpackedFloat.compare, UnpackedFloat.isNaN]

/-- Only the greatest exponent is that of a NaN. -/
theorem unpack_isNaN_of_exponent {b : BitVec Format.binary64.numBits}
    (h : unpackExponent b ≠ -BitVec.ofNat Format.binary64.exponentBits 1) :
    (UnpackedFloat.unpack .binary64 b).isNaN = false := by
  rw [UnpackedFloat.unpack]
  dsimp only
  rw [if_neg h]
  split
  · split <;> rfl
  · rfl

/-- Packing does not make a NaN of anything else. -/
theorem unpack_pack_isNaN (ha : a.isNaN = false) :
    (UnpackedFloat.unpack .binary64 (UnpackedFloat.pack .binary64 a)).isNaN = false := by
  rcases a with s | _ | s | ⟨s, m, e, hm⟩
  · cases s <;> decide
  · exact absurd ha (by decide)
  · cases s <;> decide
  · rw [UnpackedFloat.pack]
    dsimp only
    split
    · cases s <;> decide
    · rename_i hexponent
      split
      · refine unpack_isNaN_of_exponent fun heq ↦ ?_
        rw [unpackExponent_packComponents] at heq
        have htoNat := congrArg BitVec.toNat heq
        rw [BitVec.toNat_ofNat] at htoNat
        have hbits : (2 : ℕ) ^ Format.binary64.exponentBits = 2048 := rfl
        have hones : (-BitVec.ofNat Format.binary64.exponentBits 1).toNat = 2047 := rfl
        rw [hones, hbits] at htoNat
        rw [hbits] at hexponent
        omega
      · refine unpack_isNaN_of_exponent fun heq ↦ ?_
        rw [unpackExponent_packComponents] at heq
        exact absurd heq (by decide)

/-- Rounding a number gives a number. -/
theorem round_isNaN (spec : Format) (s : Sign) (m : ℕ) (e : ℤ) :
    (UnpackedFloat.round spec s m e).isNaN = false := by
  unfold UnpackedFloat.round roundWithAccuracy
  dsimp only
  split <;> rfl

/-- Converting an integer gives a number. -/
theorem ofInt_isNaN (spec : Format) (n : ℤ) : (UnpackedFloat.ofInt spec n).isNaN = false := by
  rw [UnpackedFloat.ofInt, normalize]
  split
  · exact round_isNaN _ _ _ _
  · rfl
  · exact round_isNaN _ _ _ _

end Model.UnpackedFloat

/-- The place of a double. -/
def rank (x : Float) : ℤ ×ₗ ℤ ×ₗ ℤ :=
  x.toModel.unpack.rank

variable {x y : Float}

theorem lt_iff_compare : x < y ↔ x.toModel.unpack.compare y.toModel.unpack = some .lt := by
  show decide ((x.toModel.unpack.compare y.toModel.unpack == some .lt) = true) = true ↔ _
  rw [decide_eq_true_iff, beq_iff_eq]

theorem beq_iff_compare : x == y ↔ x.toModel.unpack.compare y.toModel.unpack = some .eq := by
  show (x.toModel.unpack.compare y.toModel.unpack == some .eq) = true ↔ _
  rw [beq_iff_eq]

theorem le_iff_compare : x ≤ y ↔ (x.toModel.unpack.compare y.toModel.unpack).any (·.isLE) := by
  show decide ((x.toModel.unpack.compare y.toModel.unpack).any (·.isLE) = true) = true ↔ _
  rw [decide_eq_true_iff]

theorem lt_iff_rank (hx : x.isNaN = false) (hy : y.isNaN = false) : x < y ↔ x.rank < y.rank :=
  lt_iff_compare.trans (UnpackedFloat.compare_eq_lt_iff hx hy)

theorem beq_iff_rank (hx : x.isNaN = false) (hy : y.isNaN = false) : x == y ↔ x.rank = y.rank :=
  beq_iff_compare.trans (UnpackedFloat.compare_eq_eq_iff hx hy)

/-- Away from NaN, `≤` is the negation of the reversed `<`. -/
theorem le_iff_not_lt (hx : x.isNaN = false) (hy : y.isNaN = false) : x ≤ y ↔ ¬y < x := by
  have heq := UnpackedFloat.compare_eq_eq_iff hx hy
  have hlt := UnpackedFloat.compare_eq_lt_iff hx hy
  rw [le_iff_compare, lt_iff_rank hy hx, not_lt, le_iff_lt_or_eq]
  show _ ↔ x.toModel.unpack.rank < y.toModel.unpack.rank ∨ x.toModel.unpack.rank = y.toModel.unpack.rank
  rw [← hlt, ← heq]
  cases x.toModel.unpack.compare y.toModel.unpack with
  | none => simp
  | some o => cases o <;> simp

theorem not_lt_of_isNaN (h : x.isNaN ∨ y.isNaN) : ¬x < y := by
  rw [lt_iff_compare, UnpackedFloat.compare_eq_none h]
  exact nofun

theorem not_beq_of_isNaN (h : x.isNaN ∨ y.isNaN) : ¬(x == y) := by
  rw [beq_iff_compare, UnpackedFloat.compare_eq_none h]
  exact nofun

/-- An integer never becomes a NaN. -/
theorem ofInt_isNaN (n : ℤ) : (ofModel (.ofInt n)).isNaN = false :=
  UnpackedFloat.unpack_pack_isNaN (UnpackedFloat.ofInt_isNaN _ n)

/-- The bits of a double that is not a NaN are not those of a NaN. -/
theorem ofBits_toBits_isNaN (hx : x.isNaN = false) : (Float.ofBits x.toBits).isNaN = false :=
  UnpackedFloat.unpack_pack_isNaN hx

end Float
