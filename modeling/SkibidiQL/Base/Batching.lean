import Mathlib.Data.List.Basic

/-!
# Lists in batches

The consecutive pieces of a list of a fixed size, and how many of them there are.
-/

namespace List

variable {α : Type} {l : List α} {size i : Nat}

/-- The piece of the list with this number. -/
def batch (size i : Nat) (l : List α) : List α :=
  (l.drop (i * size)).take size

/-- The number of pieces of this size that a list of length `n` has. -/
def batchCount (size n : Nat) : Nat :=
  (n + size - 1) / size

theorem lt_batchCount_iff {n : Nat} (hsize : 0 < size) : i < batchCount size n ↔ i * size < n := by
  rw [batchCount, ← Nat.succ_le_iff, Nat.le_div_iff_mul_le hsize, Nat.succ_mul]
  omega

theorem batch_eq_nil_iff (hsize : 0 < size) : l.batch size i = [] ↔ l.length ≤ i * size := by
  rw [batch, take_eq_nil_iff, drop_eq_nil_iff]
  exact or_iff_right (Nat.ne_of_gt hsize)

/-- Behind the last batch all are empty. -/
theorem batch_eq_nil_of_count_le (hsize : 0 < size) (h : batchCount size l.length ≤ i) :
    l.batch size i = [] :=
  (batch_eq_nil_iff hsize).2 (Nat.le_of_not_lt fun hlt ↦
    Nat.not_lt.2 h ((lt_batchCount_iff hsize).2 hlt))

/-- The first pieces are a prefix of the list. -/
theorem flatten_batch_range (size k : Nat) (l : List α) :
    ((range k).map fun i ↦ l.batch size i).flatten = l.take (k * size) := by
  induction k with
  | zero => rw [range_zero, map_nil, flatten_nil, Nat.zero_mul, take_zero]
  | succ k ih =>
    rw [range_succ, map_append, flatten_append, ih, Nat.succ_mul, take_add, map_singleton,
      flatten_singleton, batch]

/-- All pieces together are the list. -/
theorem flatten_batches (hsize : 0 < size) (l : List α) :
    ((range (batchCount size l.length)).map fun i ↦ l.batch size i).flatten = l := by
  rw [flatten_batch_range, take_of_length_le]
  exact (batch_eq_nil_iff hsize).1 (batch_eq_nil_of_count_le hsize (Nat.le_refl _))

theorem batch_map {β : Type} {f : α → β} : (l.map f).batch size i = (l.batch size i).map f := by
  rw [batch, batch, ← map_drop, ← map_take]

end List
