import Mathlib

/-!
# Greedy selection within a budget

Items are taken in the order of a list as long as they fit; one that does not fit is passed over, and the
ones behind it are still tried. What is taken stays within the budget (`total_accept_le`), nothing that was
passed over would fit in the end (`lt_total_accept_add`), and a larger budget never yields less in total
(`total_accept_mono`) although it may yield fewer items.
-/

namespace GreedyBudget

variable {α : Type} (cost : α → ℕ)

/-- The costs of some items together. -/
def total (items : List α) : ℕ :=
  (items.map cost).sum

/-- The items that are taken when `left` of the budget is left. -/
def accept : ℕ → List α → List α
  | _, [] => []
  | left, item :: items =>
    if cost item ≤ left then item :: accept (left - cost item) items else accept left items

/-- The items that are passed over. -/
def passOver : ℕ → List α → List α
  | _, [] => []
  | left, item :: items =>
    if cost item ≤ left then passOver (left - cost item) items else item :: passOver left items

variable {cost}

@[simp]
theorem total_nil : total cost [] = 0 := rfl

@[simp]
theorem total_cons (item : α) (items : List α) : total cost (item :: items) = cost item + total cost items := by
  rw [total, List.map_cons, List.sum_cons, total]

theorem accept_cons_of_le {left : ℕ} {item : α} (h : cost item ≤ left) (items : List α) :
    accept cost left (item :: items) = item :: accept cost (left - cost item) items := by
  rw [accept, if_pos h]

theorem accept_cons_of_lt {left : ℕ} {item : α} (h : left < cost item) (items : List α) :
    accept cost left (item :: items) = accept cost left items := by
  rw [accept, if_neg (Nat.not_le.2 h)]

theorem passOver_cons_of_le {left : ℕ} {item : α} (h : cost item ≤ left) (items : List α) :
    passOver cost left (item :: items) = passOver cost (left - cost item) items := by
  rw [passOver, if_pos h]

theorem passOver_cons_of_lt {left : ℕ} {item : α} (h : left < cost item) (items : List α) :
    passOver cost left (item :: items) = item :: passOver cost left items := by
  rw [passOver, if_neg (Nat.not_le.2 h)]

/-- The accepted items are some of the items, in order. -/
theorem accept_sublist (left : ℕ) (items : List α) : (accept cost left items).Sublist items := by
  induction items generalizing left with
  | nil => exact .slnil
  | cons item items ih =>
    rcases Nat.lt_or_ge left (cost item) with hlt | hle
    · rw [accept_cons_of_lt hlt]
      exact (ih left).cons item
    · rw [accept_cons_of_le hle]
      exact (ih _).cons_cons item

/-- Every item is taken or passed over. -/
theorem accept_append_passOver_perm (left : ℕ) (items : List α) :
    (accept cost left items ++ passOver cost left items).Perm items := by
  induction items generalizing left with
  | nil => exact .nil
  | cons item items ih =>
    rcases Nat.lt_or_ge left (cost item) with hlt | hle
    · rw [accept_cons_of_lt hlt, passOver_cons_of_lt hlt]
      exact List.perm_middle.trans ((ih left).cons item)
    · rw [accept_cons_of_le hle, passOver_cons_of_le hle]
      exact (ih _).cons item

/-- What is taken stays within the budget. -/
theorem total_accept_le (left : ℕ) (items : List α) : total cost (accept cost left items) ≤ left := by
  induction items generalizing left with
  | nil => exact Nat.zero_le left
  | cons item items ih =>
    rcases Nat.lt_or_ge left (cost item) with hlt | hle
    · rw [accept_cons_of_lt hlt]
      exact ih left
    · rw [accept_cons_of_le hle, total_cons]
      have hrest := ih (left - cost item)
      omega

/-- An item that was passed over does not fit in what remains in the end: it did not fit when less was
spent. -/
theorem lt_total_accept_add {left : ℕ} {items : List α} {item : α} (h : item ∈ passOver cost left items) :
    left < total cost (accept cost left items) + cost item := by
  induction items generalizing left with
  | nil => exact absurd h List.not_mem_nil
  | cons first items ih =>
    rcases Nat.lt_or_ge left (cost first) with hlt | hle
    · rw [passOver_cons_of_lt hlt] at h
      rw [accept_cons_of_lt hlt]
      rcases List.mem_cons.1 h with rfl | h
      · omega
      · exact ih h
    · rw [passOver_cons_of_le hle] at h
      rw [accept_cons_of_le hle, total_cons]
      have hrest := ih h
      omega

/-- A larger budget never yields less in total. At the first item on which two budgets differ, the larger
one takes what the smaller one cannot pay for, which is more than the smaller one will ever spend. -/
theorem total_accept_mono {left left' : ℕ} (h : left ≤ left') (items : List α) :
    total cost (accept cost left items) ≤ total cost (accept cost left' items) := by
  induction items generalizing left left' with
  | nil => exact Nat.le_refl 0
  | cons item items ih =>
    rcases Nat.lt_or_ge left (cost item) with hlt | hle
    · rw [accept_cons_of_lt hlt]
      rcases Nat.lt_or_ge left' (cost item) with hlt' | hle'
      · rw [accept_cons_of_lt hlt']
        exact ih h
      · rw [accept_cons_of_le hle', total_cons]
        have hspent : total cost (accept cost left items) ≤ left := total_accept_le left items
        omega
    · rw [accept_cons_of_le hle, accept_cons_of_le (Nat.le_trans hle h), total_cons, total_cons]
      exact Nat.add_le_add_left (ih (Nat.sub_le_sub_right h _)) _

/-- A budget that covers all items takes all of them. -/
theorem accept_of_total_le {left : ℕ} {items : List α} (h : total cost items ≤ left) :
    accept cost left items = items := by
  induction items generalizing left with
  | nil => rfl
  | cons item items ih =>
    rw [total_cons] at h
    rw [accept_cons_of_le (by omega), ih (by omega)]

/-- Fewer items cost no more. -/
theorem total_le_of_sublist {items items' : List α} (h : items.Sublist items') :
    total cost items ≤ total cost items' := by
  induction h with
  | slnil => exact Nat.le_refl 0
  | cons item _ ih =>
    rw [total_cons]
    exact Nat.le_add_left_of_le ih
  | cons_cons item _ ih =>
    rw [total_cons, total_cons]
    exact Nat.add_le_add_left ih _

end GreedyBudget
