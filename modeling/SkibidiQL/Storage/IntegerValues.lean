import SkibidiQL.Base.IntegerDouble
import SkibidiQL.Query.Eval
import SkibidiQL.Storage.ValueOrder

/-!
# Integers as values

Values compare integers through the doubles that they convert to, so two integers that round to one double
are equal values. Those that do not compare as integers.
-/

namespace SkibidiQL

/-- Rounding that keeps two integers apart keeps their order. -/
theorem compare_nearestDouble {a b : ℤ} (h : nearestDouble a ≠ nearestDouble b) :
    compare (nearestDouble a) (nearestDouble b) = compare a b := by
  rcases Int.lt_trichotomy a b with hlt | rfl | hgt
  · rw [compare_lt_iff_lt.2 hlt, compare_lt_iff_lt.2 (lt_of_le_of_ne (nearestDouble_mono hlt.le) h)]
  · exact absurd rfl h
  · rw [compare_gt_iff_gt.2 hgt, compare_gt_iff_gt.2 (lt_of_le_of_ne (nearestDouble_mono hgt.le) h.symm)]

/-- The six comparisons. -/
def BinaryOperator.IsComparison (op : BinaryOperator) : Prop :=
  op ∈ [.lt, .gt, .le, .ge, .eq, .ne]

namespace Value

theorem toFloat_integer (n : Int64) : (integer n).toFloat.IsInteger (nearestDouble n.toInt) :=
  Float.isInteger_ofInt64 n

/-- Integers compare as their doubles. -/
theorem compare_integer (m n : Int64) :
    (integer m).compare (integer n) = Ord.compare (nearestDouble m.toInt) (nearestDouble n.toInt) := by
  have hm := toFloat_integer m
  have hn := toFloat_integer n
  rw [compare_numeric rfl rfl, compareFloat]
  rcases Int.lt_trichotomy (nearestDouble m.toInt) (nearestDouble n.toInt) with hlt | heq | hgt
  · rw [if_pos ((hm.lt_iff hn).2 hlt), compare_lt_iff_lt.2 hlt]
  · rw [heq, if_neg fun h ↦ ((hm.lt_iff hn).1 h).ne heq, if_neg fun h ↦ ((hn.lt_iff hm).1 h).ne heq.symm,
      compare_eq_iff_eq.2 rfl]
  · rw [if_neg fun h ↦ lt_asymm hgt ((hm.lt_iff hn).1 h), if_pos ((hn.lt_iff hm).2 hgt), compare_gt_iff_gt.2 hgt]

theorem compare_integer_eq_iff {m n : Int64} :
    (integer m).compare (integer n) = .eq ↔ nearestDouble m.toInt = nearestDouble n.toInt := by
  rw [compare_integer, compare_eq_iff_eq]

/-- The comparisons of two integers look at the doubles. -/
theorem applyBinary_integer {op : BinaryOperator} (hop : op.IsComparison) (m n : Int64) :
    applyBinary op (integer m) (integer n) =
      .ok (.boolean (op.holds (Ord.compare (nearestDouble m.toInt) (nearestDouble n.toInt)))) := by
  have hbeq : (integer m == integer n) =
      (Ord.compare (nearestDouble m.toInt) (nearestDouble n.toInt)).isEq := by
    rw [Bool.eq_iff_iff, ← compare_eq_iff (isNaN_integer m) (isNaN_integer n), compare_integer,
      Ordering.isEq_iff_eq_eq]
  simp only [BinaryOperator.IsComparison, List.mem_cons, List.not_mem_nil, or_false] at hop
  rcases hop with rfl | rfl | rfl | rfl | rfl | rfl
  · rw [← compare_integer]
    rfl
  · rw [← compare_integer]
    rfl
  · rw [← compare_integer]
    rfl
  · rw [← compare_integer]
    rfl
  · rw [BinaryOperator.holds, ← hbeq]
    rfl
  · show Except.ok (boolean (integer m != integer n)) = _
    rw [bne, hbeq]
    rcases Ord.compare (nearestDouble m.toInt) (nearestDouble n.toInt) <;> rfl

end Value

end SkibidiQL
