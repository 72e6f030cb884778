import Mathlib.Data.List.GetD

/-!
# Bitmaps in words

A sequence of bits in words of 64, which grows by one bit at a time.
-/

namespace Bitmap

variable {words : List UInt64} {bits : List Bool} {i j : ℕ} {word : UInt64}

/-- The mask of a position within its word. -/
def mask (i : ℕ) : UInt64 :=
  1 <<< UInt64.ofNat (i % 64)

/-- The bit at a position, when its word exists. -/
def test (words : List UInt64) (i : ℕ) : Option Bool :=
  words[i / 64]?.map fun word ↦ word &&& mask i != 0

/-- A word more, unless the one of the position exists. -/
def extend (words : List UInt64) (size : ℕ) : List UInt64 :=
  if words.length ≤ size / 64 then words ++ [0] else words

/-- The words hold these bits, and clear ones behind them. -/
structure Holds (words : List UInt64) (bits : List Bool) : Prop where
  length_eq : words.length = (bits.length + 63) / 64
  test_eq : ∀ i, i / 64 < words.length → test words i = some (bits.getD i false)

/-! ### Masks -/

theorem toBitVec_mask (i : ℕ) : (mask i).toBitVec = BitVec.twoPow 64 (i % 64) := by
  rw [mask, UInt64.toBitVec_shiftLeft, BitVec.twoPow_eq]
  simp [BitVec.shiftLeft_eq']

/-- The test of a word by a mask. -/
theorem and_mask (word : UInt64) (i : ℕ) : (word &&& mask i != 0) = word.toBitVec.getLsbD (i % 64) := by
  have hlt : i % 64 < 64 := Nat.mod_lt _ (by decide)
  rw [Bool.eq_iff_iff, bne_iff_ne, ne_eq, ← UInt64.toBitVec_inj, UInt64.toBitVec_and, toBitVec_mask,
    BitVec.and_twoPow]
  split
  · rename_i hbit
    refine iff_of_true (fun hzero ↦ ?_) hbit
    have hget := congrArg (·.getLsbD (i % 64)) hzero
    simp [hlt] at hget
  · rename_i hbit
    exact iff_of_false (fun hne ↦ hne rfl) hbit

/-- Setting a bit of a word. -/
theorem or_mask (word : UInt64) (i j : ℕ) :
    ((word ||| mask i) &&& mask j != 0) = (word &&& mask j != 0 || decide (i % 64 = j % 64)) := by
  have hlt : i % 64 < 64 := Nat.mod_lt _ (by decide)
  rw [and_mask, and_mask, UInt64.toBitVec_or, toBitVec_mask, BitVec.getLsbD_or, BitVec.getLsbD_twoPow,
    decide_eq_true hlt, Bool.true_and]

theorem zero_and_mask (i : ℕ) : ((0 : UInt64) &&& mask i != 0) = false := by
  rw [and_mask]
  simp

/-- Setting one bit leaves the others. -/
theorem test_modify (words : List UInt64) (i j : ℕ) :
    test (words.modify (i / 64) (· ||| mask i)) j = (test words j).map (· || decide (i = j)) := by
  rw [test, test, List.getElem?_modify, Option.map_map]
  rcases words[j / 64]? with _ | word
  · rfl
  · by_cases hsame : i / 64 = j / 64
    · have hmod : decide (i % 64 = j % 64) = decide (i = j) := decide_eq_decide.2 (by omega)
      simp only [hsame, if_true, Option.map_some, Option.map_eq_map, or_mask, Function.comp_apply, hmod]
    · have hne : i ≠ j := fun heq ↦ hsame (by rw [heq])
      simp only [hsame, if_false, Option.map_some, Option.map_eq_map, decide_eq_false hne, Bool.or_false,
        Function.comp_apply]

/-! ### One bit more -/

theorem holds_nil : Holds [] [] :=
  ⟨rfl, fun _ h ↦ absurd h (Nat.not_lt_zero _)⟩

/-- A bit that is held is tested. -/
theorem Holds.test_of_lt (h : Holds words bits) (hi : i < bits.length) :
    test words i = some (bits.getD i false) := by
  refine h.test_eq i ?_
  rw [h.length_eq]
  omega

/-- Room for one bit more. -/
theorem Holds.extend (h : Holds words bits) :
    (Bitmap.extend words bits.length).length = (bits.length + 1 + 63) / 64 ∧
      ∀ i, i / 64 < (Bitmap.extend words bits.length).length →
        test (Bitmap.extend words bits.length) i = some (bits.getD i false) := by
  have hlength := h.length_eq
  rw [Bitmap.extend]
  split
  · refine ⟨by rw [List.length_append, List.length_singleton]; omega, fun i hi ↦ ?_⟩
    rw [List.length_append, List.length_singleton] at hi
    by_cases hold : i / 64 < words.length
    · rw [test, List.getElem?_append_left hold]
      exact h.test_eq i hold
    · have hnew : i / 64 = words.length := by omega
      rw [test, hnew, List.getElem?_append_right (Nat.le_refl _), Nat.sub_self, List.getElem?_cons_zero,
        Option.map_some, zero_and_mask, List.getD_eq_default _ _ (by omega)]
  · exact ⟨by omega, h.test_eq⟩

/-- The last bit of a list with one more. -/
theorem getD_snoc (bits : List Bool) (bit : Bool) (i : ℕ) :
    (bits ++ [bit]).getD i false = if i = bits.length then bit else bits.getD i false := by
  rcases Nat.lt_trichotomy i bits.length with hlt | rfl | hgt
  · rw [List.getD_append _ _ _ _ hlt, if_neg (Nat.ne_of_lt hlt)]
  · simp
  · rw [if_neg (Nat.ne_of_gt hgt), List.getD_eq_default _ _ (Nat.le_of_lt hgt), List.getD_eq_default]
    rw [List.length_append]
    exact hgt

/-- A clear bit more. -/
theorem Holds.snoc_false (h : Holds words bits) :
    Holds (Bitmap.extend words bits.length) (bits ++ [false]) := by
  obtain ⟨hlength, htest⟩ := h.extend
  refine ⟨by rw [hlength, List.length_append, List.length_singleton], fun i hi ↦ ?_⟩
  rw [htest i hi, getD_snoc]
  split
  · rename_i heq
    rw [List.getD_eq_default _ _ (Nat.le_of_eq heq.symm)]
  · rfl

/-- A set bit more. -/
theorem Holds.snoc_true (h : Holds words bits) :
    Holds ((Bitmap.extend words bits.length).modify (bits.length / 64) (· ||| mask bits.length))
      (bits ++ [true]) := by
  obtain ⟨hlength, htest⟩ := h.extend
  refine ⟨by rw [List.length_modify, hlength, List.length_append, List.length_singleton], fun i hi ↦ ?_⟩
  rw [List.length_modify] at hi
  rw [test_modify, htest i hi, Option.map_some, getD_snoc]
  split
  · rename_i heq
    rw [decide_eq_true heq.symm, Bool.or_true]
  · rename_i hne
    rw [decide_eq_false (Ne.symm hne), Bool.or_false]

end Bitmap
