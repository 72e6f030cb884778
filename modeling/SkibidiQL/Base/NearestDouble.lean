import Mathlib

/-!
# Rounding an integer to 53 bits

A double holds an integer whose significant bits are 53 at most (`FitsDouble`); any other is rounded to the
nearest of these, of two as near to the one whose last bit is even (`nearestDouble`). Being the nearest makes
the rounding monotone, whatever it does with ties (`Nearest.monotone`).
-/

namespace SkibidiQL

/-! ### Rounding to the nearest -/

/-- The function sends each integer to an element of the set that is as near as any. -/
def Nearest (S : Set ℤ) (f : ℤ → ℤ) : Prop :=
  ∀ a, f a ∈ S ∧ ∀ d ∈ S, |a - f a| ≤ |a - d|

section Nearest

variable {S : Set ℤ} {f : ℤ → ℤ}

/-- Rounding to the nearest element leaves the elements. -/
theorem Nearest.eq_of_mem (h : Nearest S f) {a : ℤ} (ha : a ∈ S) : f a = a := by
  have hle := (h a).2 a ha
  rw [sub_self, abs_zero, abs_nonpos_iff, sub_eq_zero] at hle
  exact hle.symm

/-- Rounding to the nearest keeps the order. -/
theorem Nearest.monotone (h : Nearest S f) : Monotone f := by
  intro a b hab
  by_contra hlt
  rw [not_le] at hlt
  -- the results are swapped, so that neither is nearer to its integer than the other result
  have ha := (h a).2 (f b) (h b).1
  have hb := (h b).2 (f a) (h a).1
  rcases abs_cases (a - f a) with ⟨h₁, _⟩ | ⟨h₁, _⟩ <;> rcases abs_cases (a - f b) with ⟨h₂, _⟩ | ⟨h₂, _⟩ <;>
    rcases abs_cases (b - f b) with ⟨h₃, _⟩ | ⟨h₃, _⟩ <;> rcases abs_cases (b - f a) with ⟨h₄, _⟩ | ⟨h₄, _⟩ <;>
    rw [h₁, h₂] at ha <;> rw [h₃, h₄] at hb <;> obtain rfl | hne := eq_or_ne a b <;> omega

end Nearest

/-! ### Halving -/

/-- The multiple of `2 ^ k` that is nearest, divided by `2 ^ k`; the even one of two. -/
def divHalfEven (n k : ℕ) : ℕ :=
  if 2 * (n % 2 ^ k) < 2 ^ k then n / 2 ^ k
  else if 2 * (n % 2 ^ k) = 2 ^ k then n / 2 ^ k + n / 2 ^ k % 2
  else n / 2 ^ k + 1

theorem divHalfEven_zero (n : ℕ) : divHalfEven n 0 = n := by
  unfold divHalfEven
  rw [Nat.pow_zero, Nat.mod_one, Nat.div_one]
  exact if_pos Nat.one_pos

/-- Bits of value 0 below do not matter. -/
theorem divHalfEven_mul (n k i : ℕ) : divHalfEven (n * 2 ^ i) (k + i) = divHalfEven n k := by
  have hpos : 0 < 2 ^ i := Nat.two_pow_pos i
  have hdiv : n * 2 ^ i / 2 ^ (k + i) = n / 2 ^ k := by
    rw [Nat.pow_add, Nat.mul_div_mul_right _ _ hpos]
  have hmod : n * 2 ^ i % 2 ^ (k + i) = n % 2 ^ k * 2 ^ i := by
    rw [Nat.pow_add, Nat.mul_mod_mul_right]
  unfold divHalfEven
  rw [hdiv, hmod, Nat.pow_add, ← Nat.mul_assoc]
  simp only [Nat.mul_lt_mul_right hpos, Nat.mul_left_inj hpos.ne']

/-- The result is at most half a unit away. -/
theorem divHalfEven_near (n k : ℕ) :
    2 * n ≤ 2 * (divHalfEven n k * 2 ^ k) + 2 ^ k ∧ 2 * (divHalfEven n k * 2 ^ k) ≤ 2 * n + 2 ^ k := by
  have hsplit : 2 ^ k * (n / 2 ^ k) + n % 2 ^ k = n := Nat.div_add_mod n (2 ^ k)
  have hlt : n % 2 ^ k < 2 ^ k := Nat.mod_lt _ (Nat.two_pow_pos k)
  rw [Nat.mul_comm] at hsplit
  unfold divHalfEven
  split_ifs with h h'
  · omega
  · rcases Nat.mod_two_eq_zero_or_one (n / 2 ^ k) with heven | hodd
    · rw [heven, Nat.add_zero]
      omega
    · rw [hodd, Nat.add_mul, Nat.one_mul]
      omega
  · rw [Nat.add_mul, Nat.one_mul]
    omega

/-! ### Natural numbers -/

/-- The number of bits that a double cannot keep. -/
def lostBits (n : ℕ) : ℕ :=
  n.log2 - 52

/-- The nearest natural number with 53 significant bits. -/
def roundNat (n : ℕ) : ℕ :=
  divHalfEven n (lostBits n) * 2 ^ lostBits n

/-- The significant bits are 53 at most. -/
def NatFitsDouble (n : ℕ) : Prop :=
  ∃ m < 2 ^ 53, ∃ k, n = m * 2 ^ k

theorem roundNat_zero : roundNat 0 = 0 := by
  decide

/-- A number has 53 bits above those that are lost, and exactly 53 when any are. -/
theorem lostBits_spec {n : ℕ} (hn : 0 < n) :
    n < 2 ^ (53 + lostBits n) ∧ (0 < lostBits n → 2 ^ (52 + lostBits n) ≤ n) := by
  unfold lostBits
  refine ⟨Nat.lt_log2_self.trans_le (Nat.pow_le_pow_right Nat.two_pos (by omega)), fun hpos ↦ ?_⟩
  rw [Nat.add_sub_of_le (by omega)]
  exact Nat.log2_self_le hn.ne'

/-- The rounded quotient has at most 53 bits, or is the next power of two. -/
theorem divHalfEven_le {n k : ℕ} (h : n < 2 ^ (53 + k)) : divHalfEven n k ≤ 2 ^ 53 := by
  have hdiv : n / 2 ^ k < 2 ^ 53 := by
    rwa [Nat.div_lt_iff_lt_mul (Nat.two_pow_pos k), ← Nat.pow_add]
  unfold divHalfEven
  split_ifs <;> omega

/-- A rounded number fits a double. -/
theorem roundNat_fits (n : ℕ) : NatFitsDouble (roundNat n) := by
  rcases Nat.eq_zero_or_pos n with rfl | hpos
  · exact ⟨0, by decide, 0, rfl⟩
  · rcases (divHalfEven_le (lostBits_spec hpos).1).lt_or_eq with hlt | heq
    · exact ⟨_, hlt, _, rfl⟩
    · refine ⟨1, by decide, 53 + lostBits n, ?_⟩
      rw [roundNat, heq, Nat.pow_add, Nat.one_mul]

/-- No multiple of the unit is nearer than the result. -/
theorem roundNat_le_multiple (n c : ℕ) :
    |(n : ℤ) - roundNat n| ≤ |(n : ℤ) - (c * 2 ^ lostBits n : ℕ)| := by
  obtain ⟨hlow, hhigh⟩ := divHalfEven_near n (lostBits n)
  unfold roundNat
  generalize divHalfEven n (lostBits n) = q at *
  generalize 2 ^ lostBits n = u at *
  rcases Nat.lt_trichotomy c q with hlt | rfl | hgt
  · have hunit : (c + 1) * u ≤ q * u := Nat.mul_le_mul_right u hlt
    rw [Nat.add_mul, Nat.one_mul] at hunit
    generalize q * u = x at *
    generalize c * u = y at *
    exact (abs_le.2 ⟨by omega, by omega⟩).trans (le_abs_self _)
  · exact le_rfl
  · have hunit : (q + 1) * u ≤ c * u := Nat.mul_le_mul_right u hgt
    rw [Nat.add_mul, Nat.one_mul] at hunit
    generalize q * u = x at *
    generalize c * u = y at *
    exact (abs_le.2 ⟨by omega, by omega⟩).trans (neg_le_abs _)

/-- No number that fits is nearer than the result. -/
theorem roundNat_le {n d : ℕ} (hd : NatFitsDouble d) : |(n : ℤ) - roundNat n| ≤ |(n : ℤ) - d| := by
  obtain ⟨m, hm, j, rfl⟩ := hd
  rcases Nat.eq_zero_or_pos n with rfl | hpos
  · rw [roundNat_zero]
    exact (abs_zero (α := ℤ)).le.trans (abs_nonneg _)
  rcases Nat.lt_or_ge j (lostBits n) with hlt | hge
  · -- the number is below all those with as many bits as `n`
    have hn := (lostBits_spec hpos).2 (Nat.zero_lt_of_lt hlt)
    have hsmall : m * 2 ^ j ≤ 2 ^ 52 * 2 ^ lostBits n := by
      calc m * 2 ^ j ≤ 2 ^ 53 * 2 ^ j := Nat.mul_le_mul_right _ hm.le
        _ = 2 ^ 52 * 2 ^ (j + 1) := by ring
        _ ≤ 2 ^ 52 * 2 ^ lostBits n := Nat.mul_le_mul_left _ (Nat.pow_le_pow_right Nat.two_pos hlt)
    rw [Nat.pow_add] at hn
    have hmultiple := roundNat_le_multiple n (2 ^ 52)
    rw [abs_of_nonneg (by omega : (0 : ℤ) ≤ (n : ℤ) - (2 ^ 52 * 2 ^ lostBits n : ℕ))] at hmultiple
    rw [abs_of_nonneg (by omega : (0 : ℤ) ≤ (n : ℤ) - (m * 2 ^ j : ℕ))]
    omega
  · have hmultiple := roundNat_le_multiple n (m * 2 ^ (j - lostBits n))
    rwa [Nat.mul_assoc, ← Nat.pow_add, Nat.sub_add_cancel hge] at hmultiple

/-! ### Integers -/

/-- The integers that a double holds, as far as its exponent goes. -/
def FitsDouble (a : ℤ) : Prop :=
  NatFitsDouble a.natAbs

/-- The integer that a conversion to a double yields. -/
def nearestDouble (a : ℤ) : ℤ :=
  a.sign * roundNat a.natAbs

theorem nearestDouble_of_pos {n : ℕ} : nearestDouble n = roundNat n := by
  rcases Nat.eq_zero_or_pos n with rfl | hpos
  · exact congrArg Nat.cast roundNat_zero.symm
  · rw [nearestDouble, Int.sign_natCast_of_ne_zero hpos.ne', Int.natAbs_natCast, one_mul]

theorem nearestDouble_neg (a : ℤ) : nearestDouble (-a) = -nearestDouble a := by
  rw [nearestDouble, nearestDouble, Int.sign_neg, Int.natAbs_neg, neg_mul]

/-- **Rounding goes to the nearest integer that fits a double.** -/
theorem nearestDouble_nearest : Nearest {a | FitsDouble a} nearestDouble := by
  have hnonneg : ∀ n : ℕ, FitsDouble (nearestDouble n) ∧
      ∀ d, FitsDouble d → |(n : ℤ) - nearestDouble n| ≤ |(n : ℤ) - d| := by
    intro n
    rw [nearestDouble_of_pos]
    refine ⟨roundNat_fits n, fun d hd ↦ ?_⟩
    rcases Int.le_total 0 d with hpos | hneg
    · have hle := roundNat_le (n := n) hd
      rwa [Int.natAbs_of_nonneg hpos] at hle
    · have hle := roundNat_le (n := n) (d := 0) ⟨0, by decide, 0, rfl⟩
      refine hle.trans ?_
      rw [abs_of_nonneg (by omega), abs_of_nonneg (by omega)]
      omega
  intro a
  obtain ⟨n, rfl | rfl⟩ := Int.eq_nat_or_neg a
  · exact hnonneg n
  · rw [nearestDouble_neg]
    refine ⟨?_, fun d hd ↦ ?_⟩
    · show NatFitsDouble (-nearestDouble n).natAbs
      rw [Int.natAbs_neg]
      exact (hnonneg n).1
    · have hle := (hnonneg n).2 (-d) (by rwa [FitsDouble, Int.natAbs_neg])
      rw [← abs_neg, ← abs_neg (-(n : ℤ) - d)]
      convert hle using 2 <;> ring

theorem nearestDouble_mono : Monotone nearestDouble :=
  nearestDouble_nearest.monotone

theorem fitsDouble_of_lt {a : ℤ} (h : a.natAbs < 2 ^ 53) : FitsDouble a :=
  ⟨a.natAbs, h, 0, (Nat.mul_one _).symm⟩

theorem nearestDouble_eq_self {a : ℤ} (h : FitsDouble a) : nearestDouble a = a :=
  nearestDouble_nearest.eq_of_mem h

end SkibidiQL
