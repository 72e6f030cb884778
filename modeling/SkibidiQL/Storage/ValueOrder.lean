import Mathlib.Order.Compare
import SkibidiQL.Base.FloatOrder
import SkibidiQL.Storage.Value

/-!
# Equality and order of values

`Value::operator==` is an equivalence away from NaN, and `Value::compare` agrees with it. Numbers are equal
when they convert to the same double, so two integers can be equal without being the same. Between two
values of one type and a third value, `compare` is transitive; over all types it is not, because booleans
are numbers but come behind the texts.
-/

namespace SkibidiQL

namespace Value

variable {a b c : Value}

theorem isNaN_integer (n : Int64) : (integer n).isNaN = false :=
  Float.ofInt_isNaN n.toInt

theorem isNaN_of_not_isNumeric (h : a.isNumeric = false) : a.isNaN = false := by
  rw [isNaN, h, Bool.false_and]

/-- A value that is not NaN converts to a double that is not. -/
theorem toFloat_isNaN (hnumeric : a.isNumeric) (h : a.isNaN = false) : a.toFloat.isNaN = false := by
  rw [isNaN, hnumeric, Bool.true_and] at h
  exact h

theorem isNumeric_of_isNaN (h : a.isNaN) : a.isNumeric := by
  rw [isNaN, Bool.and_eq_true] at h
  exact h.1

theorem isNull_iff : a.isNull ↔ a = null := by
  cases a <;> simp [isNull, type]

theorem not_isNull_of_isNumeric (h : a.isNumeric) : a.isNull = false := by
  cases a <;> simp_all [isNull, isNumeric, type]

/-! ### Equality -/

theorem beq_null_left : (null == a) = a.isNull := by
  show Value.beq null a = _
  rw [Value.beq]
  simp [isNull, type]

/-- Numbers are equal when their doubles are. -/
theorem beq_numeric (ha : a.isNumeric) (hb : b.isNumeric) : (a == b) = (a.toFloat == b.toFloat) := by
  show Value.beq a b = _
  rw [Value.beq, not_isNull_of_isNumeric ha, not_isNull_of_isNumeric hb, ha, hb]
  rfl

/-- Everything else is equal when it is the same. -/
theorem beq_of_not_numeric (h : a.isNumeric = false ∨ b.isNumeric = false) : a == b ↔ a = b := by
  show Value.beq a b = true ↔ _
  rw [Value.beq]
  split
  · rename_i hnull
    cases a <;> cases b <;> simp_all [isNull, type]
  · split
    · rename_i hboth
      rcases h with h | h <;> rw [h] at hboth <;> simp at hboth
    · rw [decide_eq_true_iff]

/-- Equality is transitive. -/
theorem beq_trans (hab : a == b) (hbc : b == c) : a == c := by
  by_cases hnumeric : a.isNumeric ∧ b.isNumeric
  · obtain ⟨ha, hb⟩ := hnumeric
    by_cases hc : c.isNumeric
    · rw [beq_numeric ha hb] at hab
      rw [beq_numeric hb hc] at hbc
      rw [beq_numeric ha hc]
      have hnan {x y : Float} (h : x == y) : x.isNaN = false ∧ y.isNaN = false := by
        rw [← Bool.not_eq_true, ← Bool.not_eq_true, ← not_or]
        exact fun hor ↦ Float.not_beq_of_isNaN hor h
      have hab' := hnan hab
      have hbc' := hnan hbc
      rw [Float.beq_iff_rank hab'.1 hab'.2] at hab
      rw [Float.beq_iff_rank hbc'.1 hbc'.2] at hbc
      rw [Float.beq_iff_rank hab'.1 hbc'.2, hab, hbc]
    · obtain rfl := (beq_of_not_numeric (.inr (Bool.eq_false_iff.2 hc))).1 hbc
      exact hab
  · rw [not_and_or] at hnumeric
    obtain rfl := (beq_of_not_numeric (hnumeric.imp Bool.eq_false_iff.2 Bool.eq_false_iff.2)).1 hab
    exact hbc

/-! ### The comparison of doubles -/

/-- Away from NaN, doubles compare by their place. -/
theorem compareFloat_eq {x y : Float} (hx : x.isNaN = false) (hy : y.isNaN = false) :
    compareFloat x y = Ord.compare x.rank y.rank := by
  rw [compareFloat]
  split
  · rename_i hlt
    exact (compare_lt_iff_lt.2 ((Float.lt_iff_rank hx hy).1 hlt)).symm
  · rename_i hlt
    split
    · rename_i hgt
      exact (compare_gt_iff_gt.2 ((Float.lt_iff_rank hy hx).1 hgt)).symm
    · rename_i hgt
      rw [Float.lt_iff_rank hx hy] at hlt
      rw [Float.lt_iff_rank hy hx] at hgt
      exact (compare_eq_iff_eq.2 (le_antisymm (not_lt.1 hgt) (not_lt.1 hlt))).symm

theorem compareFloat_isNaN {x y : Float} (h : x.isNaN ∨ y.isNaN) : compareFloat x y = .eq := by
  rw [compareFloat, if_neg (Float.not_lt_of_isNaN h), if_neg (Float.not_lt_of_isNaN h.symm)]

/-- Swapping two doubles swaps their comparison. -/
theorem compareFloat_swap (x y : Float) : compareFloat y x = (compareFloat x y).swap := by
  by_cases h : x.isNaN ∨ y.isNaN
  · rw [compareFloat_isNaN h, compareFloat_isNaN h.symm]
    rfl
  · obtain ⟨hx, hy⟩ := not_or.1 h
    rw [compareFloat_eq (Bool.eq_false_iff.2 hx) (Bool.eq_false_iff.2 hy),
      compareFloat_eq (Bool.eq_false_iff.2 hy) (Bool.eq_false_iff.2 hx)]
    exact Std.OrientedCmp.eq_swap

/-! ### The comparison of values -/

theorem compare_numeric (ha : a.isNumeric) (hb : b.isNumeric) :
    a.compare b = compareFloat a.toFloat b.toFloat := by
  rw [compare.eq_def, not_isNull_of_isNumeric ha, not_isNull_of_isNumeric hb, ha, hb]
  rfl

theorem compare_text (s t : Bytes) : (text s).compare (text t) = Ord.compare s t :=
  rfl

theorem compare_blob (s t : Bytes) : (blob s).compare (blob t) = Ord.compare s t :=
  rfl

/-- Values of different kinds compare by the place of their type. -/
theorem compare_of_type (ha : a.isNumeric = false ∨ b.isNumeric = false) (hne : a.type ≠ b.type) :
    a.compare b = Ord.compare a.type.toNat b.type.toNat := by
  cases a <;> cases b <;> simp_all [isNumeric, type] <;> rfl

/-- The values of one type: none, numbers, texts or blobs. -/
theorem cases_of_type_eq (h : a.type = b.type) :
    (a = null ∧ b = null) ∨ (a.isNumeric ∧ b.isNumeric) ∨ (∃ s t, a = text s ∧ b = text t) ∨
      ∃ s t, a = blob s ∧ b = blob t := by
  cases a <;> cases b <;> simp_all [isNumeric, type]

/-- Any two values: two numbers, two of one type, or two that compare by their types. -/
theorem compare_cases (a b : Value) :
    (a.isNumeric ∧ b.isNumeric ∧ a.compare b = compareFloat a.toFloat b.toFloat) ∨
    (a = null ∧ b = null ∧ a.compare b = .eq) ∨
    (∃ s t, ((a = text s ∧ b = text t) ∨ (a = blob s ∧ b = blob t)) ∧ a.compare b = Ord.compare s t) ∨
    ((a.isNumeric = false ∨ b.isNumeric = false) ∧ a.type ≠ b.type ∧
      a.compare b = Ord.compare a.type.toNat b.type.toNat) := by
  by_cases hnumeric : a.isNumeric ∧ b.isNumeric
  · exact .inl ⟨hnumeric.1, hnumeric.2, compare_numeric hnumeric.1 hnumeric.2⟩
  · by_cases htype : a.type = b.type
    · rcases cases_of_type_eq htype with ⟨rfl, rfl⟩ | h | ⟨s, t, rfl, rfl⟩ | ⟨s, t, rfl, rfl⟩
      · exact .inr (.inl ⟨rfl, rfl, rfl⟩)
      · exact absurd h hnumeric
      · exact .inr (.inr (.inl ⟨s, t, .inl ⟨rfl, rfl⟩, rfl⟩))
      · exact .inr (.inr (.inl ⟨s, t, .inr ⟨rfl, rfl⟩, rfl⟩))
    · have hor : a.isNumeric = false ∨ b.isNumeric = false := by
        rw [not_and_or] at hnumeric
        exact hnumeric.imp Bool.eq_false_iff.2 Bool.eq_false_iff.2
      exact .inr (.inr (.inr ⟨hor, htype, compare_of_type hor htype⟩))

/-- The comparison is antisymmetric. -/
theorem compare_swap (a b : Value) : b.compare a = (a.compare b).swap := by
  rcases compare_cases a b with ⟨ha, hb, h⟩ | ⟨rfl, rfl, h⟩ | ⟨s, t, ⟨rfl, rfl⟩ | ⟨rfl, rfl⟩, h⟩ | ⟨hor, hne, h⟩
  · rw [h, compare_numeric hb ha]
    exact compareFloat_swap _ _
  · rfl
  · rw [h, compare_text]
    exact Std.OrientedCmp.eq_swap
  · rw [h, compare_blob]
    exact Std.OrientedCmp.eq_swap
  · rw [h, compare_of_type hor.symm hne.symm]
    exact Std.OrientedCmp.eq_swap

theorem toNat_inj {t u : ValueType} (h : t.toNat = u.toNat) : t = u := by
  cases t <;> cases u <;> first | rfl | exact absurd h (by decide)

/-- Away from NaN, values compare as equal when they are equal. -/
theorem compare_eq_iff (ha : a.isNaN = false) (hb : b.isNaN = false) : a.compare b = .eq ↔ a == b := by
  rcases compare_cases a b with
    ⟨hna, hnb, h⟩ | ⟨rfl, rfl, h⟩ | ⟨s, t, ⟨rfl, rfl⟩ | ⟨rfl, rfl⟩, h⟩ | ⟨hor, hne, h⟩
  · rw [h, beq_numeric hna hnb, compareFloat_eq (toFloat_isNaN hna ha) (toFloat_isNaN hnb hb),
      compare_eq_iff_eq, Float.beq_iff_rank (toFloat_isNaN hna ha) (toFloat_isNaN hnb hb)]
  · exact iff_of_true h (by decide)
  · rw [h, beq_of_not_numeric (.inl rfl)]
    simp
  · rw [h, beq_of_not_numeric (.inl rfl)]
    simp
  · rw [h, beq_of_not_numeric hor, compare_eq_iff_eq]
    exact iff_of_false (fun h ↦ hne (toNat_inj h)) fun h ↦ hne (congrArg type h)

/-- Equality is symmetric. -/
theorem beq_comm (a b : Value) : (a == b) = (b == a) := by
  by_cases hnumeric : a.isNumeric ∧ b.isNumeric
  · rw [beq_numeric hnumeric.1 hnumeric.2, beq_numeric hnumeric.2 hnumeric.1, Bool.eq_iff_iff,
      Float.beq_iff_compare, Float.beq_iff_compare]
    by_cases h : a.toFloat.isNaN ∨ b.toFloat.isNaN
    · rw [← Float.beq_iff_compare, ← Float.beq_iff_compare]
      exact iff_of_false (Float.not_beq_of_isNaN h) (Float.not_beq_of_isNaN h.symm)
    · obtain ⟨ha, hb⟩ := not_or.1 h
      rw [← Float.beq_iff_compare, ← Float.beq_iff_compare,
        Float.beq_iff_rank (Bool.eq_false_iff.2 ha) (Bool.eq_false_iff.2 hb),
        Float.beq_iff_rank (Bool.eq_false_iff.2 hb) (Bool.eq_false_iff.2 ha), eq_comm]
  · have hor : a.isNumeric = false ∨ b.isNumeric = false := by
      rw [not_and_or] at hnumeric
      exact hnumeric.imp Bool.eq_false_iff.2 Bool.eq_false_iff.2
    rw [Bool.eq_iff_iff, beq_of_not_numeric hor, beq_of_not_numeric hor.symm, eq_comm]

/-- Equal values are equal to the same values. -/
theorem beq_congr (hab : a == b) : (a == c) = (b == c) := by
  rw [Bool.eq_iff_iff]
  exact ⟨fun hac ↦ beq_trans (beq_comm a b ▸ hab) hac, beq_trans hab⟩

/-- A value compares alike with two that compare as equal, when it has the type of the first. -/
theorem compare_congr_left (htype : c.type = a.type) (ha : a.isNaN = false) (hb : b.isNaN = false)
    (h : a.compare b = .eq) : c.compare b = c.compare a := by
  by_cases hnumeric : a.isNumeric ∧ b.isNumeric
  · obtain ⟨hna, hnb⟩ := hnumeric
    have hnc : c.isNumeric := by rwa [isNumeric, htype]
    rw [compare_numeric hna hnb, compareFloat_eq (toFloat_isNaN hna ha) (toFloat_isNaN hnb hb),
      compare_eq_iff_eq] at h
    rw [compare_numeric hnc hna, compare_numeric hnc hnb]
    by_cases hc : c.toFloat.isNaN
    · rw [compareFloat_isNaN (.inl hc), compareFloat_isNaN (.inl hc)]
    · have hc' := Bool.eq_false_iff.2 hc
      rw [compareFloat_eq hc' (toFloat_isNaN hna ha), compareFloat_eq hc' (toFloat_isNaN hnb hb), h]
  · rw [not_and_or] at hnumeric
    rw [(beq_of_not_numeric (hnumeric.imp Bool.eq_false_iff.2 Bool.eq_false_iff.2)).1
      ((compare_eq_iff ha hb).1 h)]

/-- A NaN compares as equal with every number. -/
theorem compare_isNaN (ha : a.isNumeric) (hb : b.isNumeric) (h : a.isNaN ∨ b.isNaN) :
    a.compare b = .eq := by
  rw [isNaN, isNaN, ha, hb, Bool.true_and, Bool.true_and] at h
  rw [compare_numeric ha hb, compareFloat_isNaN h]

/-- A NaN equals nothing. -/
theorem not_beq_isNaN (h : a.isNaN ∨ b.isNaN) : ¬(a == b) := by
  by_cases hnumeric : a.isNumeric ∧ b.isNumeric
  · rw [isNaN, isNaN, hnumeric.1, hnumeric.2, Bool.true_and, Bool.true_and] at h
    rw [beq_numeric hnumeric.1 hnumeric.2]
    exact Float.not_beq_of_isNaN h
  · have hor : a.isNumeric = false ∨ b.isNumeric = false := by
      rw [not_and_or] at hnumeric
      exact hnumeric.imp Bool.eq_false_iff.2 Bool.eq_false_iff.2
    rw [beq_of_not_numeric hor]
    rintro rfl
    rcases h with h | h <;> rcases hor with hn | hn <;>
      exact Bool.false_ne_true ((isNaN_of_not_isNumeric hn).symm.trans h)

/-- Values of one type are in the same order with a value of another kind. -/
theorem compare_const (htype : a.type = b.type) (hc : a.isNumeric = false ∨ c.isNumeric = false)
    (hne : a.type ≠ c.type) : a.compare c = b.compare c := by
  have hb : b.isNumeric = false ∨ c.isNumeric = false := by
    rwa [isNumeric, htype] at hc
  rw [compare_of_type hc hne, compare_of_type hb (htype ▸ hne), htype]

theorem compare_bytes_trans {r s t : Bytes} (hrs : Ord.compare r s ≠ .gt)
    (hst : Ord.compare s t = .lt) : Ord.compare r t = .lt :=
  Std.TransCmp.lt_of_isLE_of_lt (Ordering.ne_gt_iff_isLE.1 hrs) hst

/-- Between two values of one type and a third, the comparison is transitive. -/
theorem compare_trans (htype : a.type = b.type) (ha : a.isNaN = false) (hb : b.isNaN = false)
    (hc : c.isNaN = false) (hab : a.compare b ≠ .gt) (hbc : b.compare c = .lt) : a.compare c = .lt := by
  rcases compare_cases a c with
    ⟨hna, hnc, h⟩ | ⟨rfl, rfl, -⟩ | ⟨s, t, hst, -⟩ | ⟨hor, hne, -⟩
  · have hnb : b.isNumeric := by rwa [isNumeric, ← htype]
    rw [compare_numeric hna hnb, compareFloat_eq (toFloat_isNaN hna ha) (toFloat_isNaN hnb hb),
      compare_le_iff_le] at hab
    rw [compare_numeric hnb hnc, compareFloat_eq (toFloat_isNaN hnb hb) (toFloat_isNaN hnc hc),
      compare_lt_iff_lt] at hbc
    rw [h, compareFloat_eq (toFloat_isNaN hna ha) (toFloat_isNaN hnc hc), compare_lt_iff_lt]
    exact hab.trans_lt hbc
  · cases b <;> simp [type] at htype
    exact hbc
  · rcases hst with ⟨rfl, rfl⟩ | ⟨rfl, rfl⟩ <;> cases b <;> simp [type] at htype
    · exact compare_bytes_trans hab hbc
    · exact compare_bytes_trans hab hbc
  · rwa [compare_const htype hor hne]

/-- Every value compares as equal to itself. -/
theorem compare_self (a : Value) : a.compare a = .eq := by
  rcases compare_cases a a with ⟨hn, -, h⟩ | ⟨-, -, h⟩ | ⟨s, t, hst, h⟩ | ⟨-, hne, -⟩
  · by_cases ha : a.isNaN
    · exact compare_isNaN hn hn (.inl ha)
    · have hfloat := toFloat_isNaN hn (Bool.eq_false_iff.2 ha)
      rw [h, compareFloat_eq hfloat hfloat, compare_eq_iff_eq]
  · exact h
  · have heq : s = t := by
      rcases hst with ⟨hs, ht⟩ | ⟨hs, ht⟩ <;> simpa using hs.symm.trans ht
    rw [h, heq]
    exact Std.ReflCmp.compare_self
  · exact absurd rfl hne

/-- Values that compare as equal are the same, unless they are numbers. -/
theorem eq_of_compare_eq (h : a.isNumeric = false ∨ b.isNumeric = false) (heq : a.compare b = .eq) :
    a = b := by
  rcases compare_cases a b with ⟨ha, hb, -⟩ | ⟨rfl, rfl, -⟩ | ⟨s, t, hst, h⟩ | ⟨-, hne, h⟩
  · rw [ha, hb, or_self] at h
    cases h
  · rfl
  · have hsame : s = t := by simpa using h.symm.trans heq
    rcases hst with ⟨rfl, rfl⟩ | ⟨rfl, rfl⟩ <;> rw [hsame]
  · rw [heq, eq_comm, compare_eq_iff_eq] at h
    exact absurd (toNat_inj h) hne

theorem compare_lt_of_gt (h : a.compare b = .gt) : b.compare a = .lt := by
  rw [compare_swap, h]
  rfl

/-- The order is transitive within a type, NaN apart. -/
theorem compare_trans' (htype : b.type = c.type) (ha : a.isNaN = false) (hb : b.isNaN = false)
    (hc : c.isNaN = false) (hab : a.compare b = .lt) (hbc : b.compare c ≠ .gt) : a.compare c = .lt := by
  cases h : a.compare c with
  | lt => rfl
  | gt =>
    have hba := compare_trans htype hb hc ha hbc (compare_lt_of_gt h)
    rw [compare_swap, hba] at hab
    cases hab
  | eq =>
    have hac : a == c := (compare_eq_iff ha hc).1 h
    by_cases hnumeric : a.isNumeric ∧ c.isNumeric
    · obtain ⟨hna, hnc⟩ := hnumeric
      have hnb : b.isNumeric := by rwa [isNumeric, htype]
      rw [compare_numeric hna hnb, compareFloat_eq (toFloat_isNaN hna ha) (toFloat_isNaN hnb hb),
        compare_lt_iff_lt] at hab
      rw [compare_numeric hnb hnc, compareFloat_eq (toFloat_isNaN hnb hb) (toFloat_isNaN hnc hc),
        compare_le_iff_le] at hbc
      rw [compare_numeric hna hnc, compareFloat_eq (toFloat_isNaN hna ha) (toFloat_isNaN hnc hc),
        compare_eq_iff_eq] at h
      exact absurd (hab.trans_le hbc) (h ▸ lt_irrefl _)
    · rw [not_and_or] at hnumeric
      obtain rfl := (beq_of_not_numeric (hnumeric.imp Bool.eq_false_iff.2 Bool.eq_false_iff.2)).1 hac
      rw [compare_swap, hab] at hbc
      exact absurd rfl hbc

/-- The order of numbers is transitive, NaN apart. -/
theorem compare_numeric_trans (hna : a.isNumeric) (hnb : b.isNumeric) (hnc : c.isNumeric)
    (hab : a.compare b = .lt) (hbc : b.compare c = .lt) : a.compare c = .lt := by
  have hnan : ∀ {x y : Value}, x.isNumeric → y.isNumeric → x.compare y = .lt →
      x.isNaN = false ∧ y.isNaN = false := by
    intro x y hx hy h
    rw [← Bool.not_eq_true, ← Bool.not_eq_true, ← not_or]
    intro hor
    rw [compare_isNaN hx hy hor] at h
    cases h
  obtain ⟨ha, hb⟩ := hnan hna hnb hab
  have hc := (hnan hnb hnc hbc).2
  rw [compare_numeric hna hnb, compareFloat_eq (toFloat_isNaN hna ha) (toFloat_isNaN hnb hb),
    compare_lt_iff_lt] at hab
  rw [compare_numeric hnb hnc, compareFloat_eq (toFloat_isNaN hnb hb) (toFloat_isNaN hnc hc),
    compare_lt_iff_lt] at hbc
  rw [compare_numeric hna hnc, compareFloat_eq (toFloat_isNaN hna ha) (toFloat_isNaN hnc hc),
    compare_lt_iff_lt]
  exact hab.trans hbc

/-- The strict comparison is transitive on three values of at most two types, NaN or not. -/
theorem compare_lt_trans (htype : a.type = b.type ∨ b.type = c.type ∨ a.type = c.type)
    (hab : a.compare b = .lt) (hbc : b.compare c = .lt) : a.compare c = .lt := by
  by_cases hnumeric : a.isNumeric ∧ b.isNumeric ∧ c.isNumeric
  · exact compare_numeric_trans hnumeric.1 hnumeric.2.1 hnumeric.2.2 hab hbc
  · by_cases hab' : a.type = b.type
    · have hb : a.isNumeric = b.isNumeric := by rw [isNumeric, hab', isNumeric]
      by_cases hac : a.type = c.type
      · have hc : a.isNumeric = c.isNumeric := by rw [isNumeric, hac, isNumeric]
        have ha : a.isNumeric = false := by
          rw [← hb, ← hc, and_self, and_self, Bool.not_eq_true] at hnumeric
          exact hnumeric
        exact compare_trans hab' (isNaN_of_not_isNumeric ha) (isNaN_of_not_isNumeric (hb ▸ ha))
          (isNaN_of_not_isNumeric (hc ▸ ha)) (by rw [hab]; nofun) hbc
      · rw [compare_const hab' ?_ hac]
        · exact hbc
        · rw [← hb, ← and_assoc, and_self, not_and_or] at hnumeric
          exact hnumeric.imp Bool.eq_false_iff.2 Bool.eq_false_iff.2
    -- Values of different types are ordered by their types, so two of the three are interchangeable.
    · rcases htype with htype | htype | htype
      · exact absurd htype hab'
      · have hc : b.isNumeric = c.isNumeric := by rw [isNumeric, htype, isNumeric]
        have hor : b.isNumeric = false ∨ a.isNumeric = false := by
          rw [← hc, and_self, not_and_or, or_comm] at hnumeric
          exact hnumeric.imp Bool.eq_false_iff.2 Bool.eq_false_iff.2
        rw [compare_swap, ← compare_const htype hor (Ne.symm hab'), ← compare_swap]
        exact hab
      · have hc : a.isNumeric = c.isNumeric := by rw [isNumeric, htype, isNumeric]
        have hor : a.isNumeric = false ∨ b.isNumeric = false := by
          rw [← hc, and_comm (a := b.isNumeric = true), ← and_assoc, and_self, not_and_or] at hnumeric
          exact hnumeric.imp Bool.eq_false_iff.2 Bool.eq_false_iff.2
        rw [compare_const htype hor hab', compare_swap, hbc] at hab
        cases hab

end Value

end SkibidiQL
