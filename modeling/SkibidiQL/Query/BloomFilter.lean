import SkibidiQL.Base.Bitmap
import SkibidiQL.Base.ExceptRules
import SkibidiQL.Dataset.SnapshotPlan
import SkibidiQL.Storage.OrderedValues

/-!
# The Bloom filter of a hash join

A filter marks three bits for each value. It has no false negatives (`BloomFilter.Usable.addAll`) as long as
there is a word for every bit, which fails only when the rounding of the number of bits to words wraps
around (`usable_new_iff`).
-/

namespace SkibidiQL

open Bytes

/-- `bloomMinimumBits` and `bloomBitsPerValue`, which the environment may set to anything but zero. -/
structure BloomConfig where
  minimumBits : UInt64 := 64
  bitsPerValue : UInt64 := 12
  minimumBits_pos : 1 ≤ minimumBits := by decide
  bitsPerValue_pos : 1 ≤ bitsPerValue := by decide

/-- `class BloomFilter`. -/
structure BloomFilter where
  words : List UInt64
  bitMask : UInt64

namespace BloomFilter

/-- The loop `while (bits < wanted) bits <<= 1`, with a limit on its steps. -/
def growBits (wanted : UInt64) : Nat → UInt64 → Option UInt64
  | 0, bits => if bits < wanted then none else some bits
  | steps + 1, bits => if bits < wanted then growBits wanted steps (bits <<< 1) else some bits

/-- The number of bits of a filter. After 64 steps all bits are shifted out. -/
def filterBits (config : BloomConfig) (expectedValues : UInt64) : Option UInt64 :=
  let bits := config.minimumBits
  let wanted := if bits < expectedValues * config.bitsPerValue then expectedValues * config.bitsPerValue
    else bits
  growBits wanted 64 bits

/-- The constructor; none when its loop does not end. -/
def new (config : BloomConfig) (expectedValues : UInt64) : Option BloomFilter :=
  (filterBits config expectedValues).map fun bits ↦
    { words := List.replicate ((bits + 63) / 64).toNat 0, bitMask := bits - 1 }

/-- `mix`. -/
def mix (value : UInt64) : UInt64 :=
  avalanche64 value ||| 1

/-- The hashes whose bits a value marks. -/
def probes (hash : UInt64) : List UInt64 :=
  [hash, hash + mix hash, hash + mix (hash ^^^ goldenRatio64)]

/-- The position of the bit of a hash. -/
def bit (filter : BloomFilter) (hash : UInt64) : Nat :=
  (hash &&& filter.bitMask).toNat

/-- `set`. A word out of range is an error here. -/
def set (filter : BloomFilter) (hash : UInt64) : Except Error BloomFilter :=
  if filter.bit hash / 64 < filter.words.length then
    pure { filter with
      words := filter.words.modify (filter.bit hash / 64) (· ||| Bitmap.mask (filter.bit hash)) }
  else throw (lit "words_ is too short")

/-- `test`. -/
def test (filter : BloomFilter) (hash : UInt64) : Except Error Bool :=
  match Bitmap.test filter.words (filter.bit hash) with
  | some marked => pure marked
  | none => throw (lit "words_ is too short")

/-- `add`. -/
def add (std : StdHash) (filter : BloomFilter) (value : Value) : Except Error BloomFilter :=
  (probes (value.hash std)).foldlM set filter

/-- `mayContain`. -/
def mayContain (std : StdHash) (filter : BloomFilter) (value : Value) : Except Error Bool :=
  (probes (value.hash std)).allM filter.test

/-! ### The number of bits -/

/-- The loop stops at the first doubling that is not too small. -/
theorem growBits_eq (wanted : UInt64) (steps : Nat) (bits : UInt64) :
    growBits wanted steps bits =
      ((List.range (steps + 1)).map fun k ↦ UInt64.ofNat (bits.toNat * 2 ^ k)).find? fun b ↦ !decide (b < wanted) := by
  induction steps generalizing bits with
  | zero =>
    rw [growBits]
    by_cases hlt : bits < wanted <;> simp [hlt]
  | succ steps ih =>
    rw [growBits, List.range_succ_eq_map, List.map_cons, List.map_map, List.find?_cons, pow_zero, Nat.mul_one,
      UInt64.ofNat_toNat]
    by_cases hlt : bits < wanted
    · rw [if_pos hlt, decide_eq_true hlt, ih]
      refine congrArg (List.find? _) (List.map_congr_left fun k _ ↦ ?_)
      have hshift : (bits <<< 1).toNat = bits.toNat * 2 % 2 ^ 64 := by
        rw [UInt64.toNat_shiftLeft, Nat.shiftLeft_eq]
        rfl
      rw [Function.comp_apply, ← UInt64.toNat_inj, UInt64.toNat_ofNat', UInt64.toNat_ofNat', hshift,
        Nat.mod_mul_mod, Nat.mul_assoc, ← Nat.pow_succ']
    · rw [if_neg hlt, decide_eq_false hlt]
      rfl

/-- More than 64 steps make no difference: a loop that is not done by then has shifted all bits out. -/
theorem growBits_complete {wanted bits : UInt64} (hwanted : 0 < wanted) (h : growBits wanted 64 bits = none)
    (steps : Nat) : growBits wanted steps bits = none := by
  rw [growBits_eq, List.find?_eq_none] at h ⊢
  intro b hb
  obtain ⟨k, hk, rfl⟩ := List.mem_map.1 hb
  rcases Nat.lt_or_ge k 65 with hlt | hge
  · exact h _ (List.mem_map_of_mem (List.mem_range.2 hlt))
  · have hzero : UInt64.ofNat (bits.toNat * 2 ^ k) = 0 := by
      obtain ⟨j, rfl⟩ := Nat.exists_eq_add_of_le (Nat.le_of_succ_le hge)
      rw [← UInt64.toNat_inj, UInt64.toNat_ofNat', Nat.pow_add, Nat.mul_left_comm, Nat.mul_mod_right]
      rfl
    rw [hzero, decide_eq_true hwanted]
    exact Bool.false_ne_true

/-- The filter grows until it has the bits that are wanted. -/
theorem wanted_le_of_growBits {wanted bits result : UInt64} {steps : Nat}
    (h : growBits wanted steps bits = some result) : wanted ≤ result := by
  rw [growBits_eq] at h
  have hnot := List.find?_some h
  rw [Bool.not_eq_true', decide_eq_false_iff_not] at hnot
  exact UInt64.not_lt.1 hnot

/-- It has at least one bit. -/
theorem one_le_filterBits {config : BloomConfig} {expectedValues bits : UInt64}
    (h : filterBits config expectedValues = some bits) : 1 ≤ bits := by
  refine UInt64.le_trans config.minimumBits_pos (UInt64.le_trans ?_ (wanted_le_of_growBits h))
  split_ifs with hlt
  · exact UInt64.le_of_lt hlt
  · exact UInt64.le_refl _

/-! ### Marks -/

/-- There is a word for the bit of every hash. -/
def Usable (filter : BloomFilter) : Prop :=
  ∀ hash, filter.bit hash / 64 < filter.words.length

variable {filter : BloomFilter}

theorem exists_test (h : filter.Usable) (hash : UInt64) : ∃ marked, filter.test hash = .ok marked := by
  rw [test, Bitmap.test, List.getElem?_eq_getElem (h hash)]
  exact ⟨_, rfl⟩

/-- Marking a bit marks it and keeps the marks of the others. -/
theorem set_spec (h : filter.Usable) (hash : UInt64) :
    ∃ marked, filter.set hash = .ok marked ∧ marked.Usable ∧ marked.test hash = .ok true ∧
      ∀ other, filter.test other = .ok true → marked.test other = .ok true := by
  set marked : BloomFilter := { filter with
    words := filter.words.modify (filter.bit hash / 64) (· ||| Bitmap.mask (filter.bit hash)) } with hmarked
  have hbit (other : UInt64) : marked.bit other = filter.bit other := rfl
  have htest (other : UInt64) (bit : Bool) (hother : filter.test other = .ok bit) :
      marked.test other = .ok (bit || decide (filter.bit hash = filter.bit other)) := by
    rw [test, hbit, hmarked, Bitmap.test_modify]
    unfold test at hother
    rcases hword : Bitmap.test filter.words (filter.bit other) with _ | word <;> rw [hword] at hother <;>
      cases hother
    rfl
  have husable : marked.Usable := fun other ↦ by
    rw [hbit, hmarked, List.length_modify]
    exact h other
  obtain ⟨old, hold⟩ := exists_test h hash
  refine ⟨marked, if_pos (h hash), husable, ?_, fun other hother ↦ ?_⟩
  · rw [htest hash old hold, decide_eq_true rfl, Bool.or_true]
  · rw [htest other true hother, Bool.true_or]

/-- Marking several bits. -/
theorem foldlM_set_spec (h : filter.Usable) (hashes : List UInt64) :
    ∃ marked, hashes.foldlM set filter = .ok marked ∧ marked.Usable ∧
      (∀ hash ∈ hashes, marked.test hash = .ok true) ∧
      ∀ other, filter.test other = .ok true → marked.test other = .ok true := by
  induction hashes generalizing filter with
  | nil => exact ⟨filter, rfl, h, fun _ hmem ↦ absurd hmem List.not_mem_nil, fun _ hother ↦ hother⟩
  | cons hash hashes ih =>
    obtain ⟨first, hfirst, husable, hmarked, hkeeps⟩ := set_spec h hash
    obtain ⟨last, hlast, husable', hrest, hkeeps'⟩ := ih husable
    refine ⟨last, by rw [List.foldlM_cons, hfirst]; exact hlast, husable', ?_, fun other hother ↦
      hkeeps' other (hkeeps other hother)⟩
    intro other hmem
    rcases List.mem_cons.1 hmem with rfl | hmem
    · exact hkeeps' other hmarked
    · exact hrest other hmem

/-- Hashes that are marked pass. -/
theorem allM_test_of_marked {hashes : List UInt64} (h : ∀ hash ∈ hashes, filter.test hash = .ok true) :
    hashes.allM filter.test = .ok true := by
  induction hashes with
  | nil => rfl
  | cons hash hashes ih =>
    rw [List.allM, h hash List.mem_cons_self, Except.ok_bind]
    exact ih fun other hmem ↦ h other (List.mem_cons_of_mem _ hmem)

/-- Testing several hashes never fails. -/
theorem exists_allM_test (h : filter.Usable) (hashes : List UInt64) :
    ∃ marked, hashes.allM filter.test = .ok marked := by
  induction hashes with
  | nil => exact ⟨true, rfl⟩
  | cons hash hashes ih =>
    obtain ⟨bit, hbit⟩ := exists_test h hash
    rw [List.allM, hbit, Except.ok_bind]
    rcases bit with _ | _
    · exact ⟨false, rfl⟩
    · exact ih

variable {std : StdHash}

theorem exists_mayContain (std : StdHash) (h : filter.Usable) (value : Value) :
    ∃ marked, filter.mayContain std value = .ok marked :=
  exists_allM_test h _

/-- Adding values to a usable filter: every value equal to one of them may be contained. -/
theorem Usable.addAll (std : StdHash) (h : filter.Usable) (values : List Value) :
    ∃ full, values.foldlM (add std) filter = .ok full ∧ full.Usable ∧
      (∀ value ∈ values, ∀ key : Value, value == key → full.mayContain std key = .ok true) ∧
      ∀ hash, filter.test hash = .ok true → full.test hash = .ok true := by
  induction values generalizing filter with
  | nil => exact ⟨filter, rfl, h, fun _ hmem ↦ absurd hmem List.not_mem_nil, fun _ hhash ↦ hhash⟩
  | cons value values ih =>
    obtain ⟨first, hfirst, husable, hmarked, hkeeps⟩ := foldlM_set_spec h (probes (value.hash std))
    obtain ⟨full, hfull, husable', hrest, hkeeps'⟩ := ih husable
    refine ⟨full, ?_, husable', ?_, fun hash hhash ↦ hkeeps' hash (hkeeps hash hhash)⟩
    · rw [List.foldlM_cons, add, hfirst]
      exact hfull
    · intro other hmem key hequal
      rcases List.mem_cons.1 hmem with rfl | hmem
      · -- equal values have equal hashes, and so the same three bits
        rw [mayContain, ← Value.hash_congr std hequal]
        exact allM_test_of_marked fun hash hhash ↦ hkeeps' hash (hmarked hash hhash)
      · exact hrest other hmem key hequal

/-! ### Sizes -/

/-- A filter with these bits has a word for each of them, unless the rounding to words wraps around. -/
theorem usable_iff {bits : UInt64} (hpos : 1 ≤ bits) :
    Usable ⟨List.replicate ((bits + 63) / 64).toNat 0, bits - 1⟩ ↔ bits.toNat + 63 < 2 ^ 64 := by
  have hle := UInt64.le_iff_toNat_le.1 hpos
  have hlt := bits.toNat_lt
  have hwords : ((bits + 63) / 64).toNat = (bits.toNat + 63) % 2 ^ 64 / 64 := by
    rw [UInt64.toNat_div, UInt64.toNat_add]
    rfl
  have hmask : (bits - 1).toNat = bits.toNat - 1 := UInt64.toNat_sub_of_le _ _ hpos
  rw [show (1 : UInt64).toNat = 1 from rfl] at hle
  constructor
  · intro h
    have hword := h 0
    rw [List.length_replicate, hwords] at hword
    omega
  · intro hwrap hash
    have hbit : (hash &&& (bits - 1)).toNat ≤ (bits - 1).toNat := by
      rw [UInt64.toNat_and]
      exact Nat.and_le_right
    show (hash &&& (bits - 1)).toNat / 64 < (List.replicate _ (0 : UInt64)).length
    rw [List.length_replicate, hwords, Nat.mod_eq_of_lt hwrap]
    omega

/-- When the rounding wraps around, no word is left. -/
theorem words_eq_nil {bits : UInt64} (hwrap : 2 ^ 64 ≤ bits.toNat + 63) :
    List.replicate ((bits + 63) / 64).toNat (0 : UInt64) = [] := by
  have hlt := bits.toNat_lt
  have hzero : ((bits + 63) / 64).toNat = 0 := by
    rw [UInt64.toNat_div, UInt64.toNat_add]
    show (bits.toNat + 63) % 2 ^ 64 / 64 = 0
    omega
  rw [hzero, List.replicate_zero]

/-- A filter without words cannot be added to. -/
theorem add_fails (hempty : filter.words = []) (value : Value) : (filter.add std value).Fails := by
  have hset : filter.set (value.hash std) = throw (lit "words_ is too short") := by
    rw [set, hempty]
    exact if_neg (Nat.not_lt_zero _)
  rw [add, probes, List.foldlM_cons, hset]
  exact ⟨_, rfl⟩

/-- A filter without words cannot be asked. -/
theorem mayContain_fails (hempty : filter.words = []) (value : Value) : (filter.mayContain std value).Fails := by
  have htest : filter.test (value.hash std) = throw (lit "words_ is too short") := by
    rw [test, Bitmap.test, hempty, List.getElem?_nil]
    rfl
  rw [mayContain, probes, List.allM, htest]
  exact ⟨_, rfl⟩

/-- The filter has a number of bits, which can be rounded up to words. -/
def Fits (config : BloomConfig) (expectedValues : UInt64) : Prop :=
  ∃ bits, filterBits config expectedValues = some bits ∧ bits.toNat + 63 < 2 ^ 64

/-- A key equal to one that was added is never reported absent. -/
def NoFalseNegative (std : StdHash) (config : BloomConfig) (expectedValues : UInt64) : Prop :=
  ∃ filter, new config expectedValues = some filter ∧
    ∀ (values : List Value) (key : Value), (∃ value ∈ values, value == key) →
      ∃ full, values.foldlM (add std) filter = .ok full ∧ full.mayContain std key = .ok true

/-- A configuration that fits makes a usable filter. -/
theorem Fits.exists_new {config : BloomConfig} {expectedValues : UInt64} (h : Fits config expectedValues) :
    ∃ filter, new config expectedValues = some filter ∧ filter.Usable := by
  obtain ⟨bits, hbits, hwrap⟩ := h
  exact ⟨_, by rw [new, hbits]; rfl, (usable_iff (one_le_filterBits hbits)).2 hwrap⟩

/-- A filter whose size does not fit has no words. -/
theorem words_eq_nil_of_not_fits {config : BloomConfig} {expectedValues : UInt64}
    (hnew : new config expectedValues = some filter) (h : ¬Fits config expectedValues) : filter.words = [] := by
  obtain ⟨bits, hbits, rfl⟩ := Option.map_eq_some_iff.1 hnew
  exact words_eq_nil (Nat.le_of_not_lt fun hwrap ↦ h ⟨bits, hbits, hwrap⟩)

/-- There are no false negatives exactly if the size fits. -/
theorem noFalseNegative_iff (std : StdHash) (config : BloomConfig) (expectedValues : UInt64) :
    NoFalseNegative std config expectedValues ↔ Fits config expectedValues := by
  constructor
  · rintro ⟨filter, hnew, h⟩
    obtain ⟨full, hfull, -⟩ := h [.integer 0] (.integer 0) ⟨_, List.mem_singleton_self _, by decide +kernel⟩
    by_contra hnot
    rw [List.foldlM_cons] at hfull
    obtain ⟨first, hfirst, -⟩ := Except.bind_eq_ok.1 hfull
    have hfails : (filter.add std (.integer 0)).Fails := add_fails (words_eq_nil_of_not_fits hnew hnot) _
    exact Except.not_fails_iff.2 ⟨first, hfirst⟩ hfails
  · intro h
    obtain ⟨filter, hnew, husable⟩ := h.exists_new
    refine ⟨filter, hnew, fun values key ⟨value, hmem, hequal⟩ ↦ ?_⟩
    obtain ⟨full, hfull, -, hcontains, -⟩ := husable.addAll std values
    exact ⟨full, hfull, hcontains value hmem key hequal⟩

end BloomFilter

end SkibidiQL
