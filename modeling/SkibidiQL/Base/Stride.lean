import Mathlib.Data.Int.CardIntervalMod
import Mathlib.Data.List.Perm.Basic

/-!
# Strides of a list

The entries of a list dealt out to `n` ranks in turn: rank `r` gets those at the positions `r`, `r + n`,
`r + 2 * n` and so on. Every entry goes to one rank, and the shares have equal lengths up to one entry.
-/

namespace List

variable {α : Type} {n r : Nat} {l : List α} {a : α}

/-- The entries whose position is `r` modulo `n`. -/
def stride (n r : Nat) (l : List α) : List α :=
  (l.zipIdx.filter fun entry ↦ entry.2 % n == r).map (·.1)

theorem mem_stride : a ∈ stride n r l ↔ ∃ i : Nat, l[i]? = some a ∧ i % n = r := by
  simp only [stride, mem_map, mem_filter, beq_iff_eq, Prod.exists, exists_and_right, exists_eq_right,
    mem_zipIdx_iff_getElem?]

theorem stride_map {β : Type} {f : α → β} : (l.map f).stride n r = (l.stride n r).map f := by
  rw [stride, stride, zipIdx_map, filter_map, map_map, map_map]
  rfl

/-- Two shares of a list without repetitions have no entry in common. -/
theorem notMem_stride {r' : Nat} (hl : l.Nodup) (hr : r ≠ r') (ha : a ∈ stride n r l) :
    a ∉ stride n r' l := by
  intro ha'
  obtain ⟨i, hi, rfl⟩ := mem_stride.1 ha
  obtain ⟨j, hj, rfl⟩ := mem_stride.1 ha'
  obtain ⟨hi', hgeti⟩ := getElem?_eq_some_iff.1 hi
  obtain ⟨hj', hgetj⟩ := getElem?_eq_some_iff.1 hj
  exact hr (congrArg (· % n) (hl.getElem_inj_iff.1 (hgeti.trans hgetj.symm)))

/-- The shares have equal lengths up to one entry. -/
theorem length_stride (hr : r < n) :
    (stride n r l).length = l.length / n + if r < l.length % n then 1 else 0 := by
  have hcount (m : Nat) : (range m).countP (fun i ↦ i % n == r) = m.count (· ≡ r [MOD n]) := by
    induction m with
    | zero => rfl
    | succ m ih =>
      rw [range_succ, countP_append, ih, Nat.count_succ, countP_singleton]
      simp only [Nat.ModEq, Nat.mod_eq_of_lt hr, beq_iff_eq]
  have hsnd : l.zipIdx.countP (fun entry ↦ entry.2 % n == r) =
      (range l.length).countP fun i ↦ i % n == r := by
    rw [range_eq_range', ← zipIdx_map_snd 0 l, countP_map]
    rfl
  rw [stride, length_map, ← countP_eq_length_filter, hsnd, hcount,
    Nat.count_modEq_card _ (Nat.zero_lt_of_lt hr), Nat.mod_eq_of_lt hr]

/-- One more entry in one of the classes. -/
theorem flatMap_insert_perm {k : Nat} (hk : k < n) (g : Nat → List α) :
    ((range n).flatMap fun r ↦ if k = r then a :: g r else g r).Perm (a :: (range n).flatMap g) := by
  induction n with
  | zero => exact absurd hk (Nat.not_lt_zero _)
  | succ n ih =>
    rw [range_succ, flatMap_append, flatMap_append, flatMap_singleton, flatMap_singleton]
    by_cases heq : k = n
    · have hbelow : ((range n).flatMap fun r ↦ if k = r then a :: g r else g r) =
          (range n).flatMap g :=
        flatMap_congr fun r hr ↦ if_neg (heq ▸ Nat.ne_of_gt (mem_range.1 hr))
      rw [if_pos heq, hbelow]
      exact perm_middle
    · rw [if_neg heq]
      exact (ih (Nat.lt_of_le_of_ne (Nat.le_of_lt_succ hk) heq)).append_right _

/-- A list dealt out to classes, put together again. -/
theorem flatMap_filter_perm {f : α → Nat} (hf : ∀ a ∈ l, f a < n) :
    ((range n).flatMap fun r ↦ l.filter (f · == r)).Perm l := by
  induction l with
  | nil => simp
  | cons a l ih =>
    have hcons (r : Nat) : (a :: l).filter (f · == r) =
        if f a = r then a :: l.filter (f · == r) else l.filter (f · == r) := by
      simp only [filter_cons, beq_iff_eq]
    simp only [hcons]
    exact (flatMap_insert_perm (hf a mem_cons_self) _).trans
      ((ih fun b hb ↦ hf b (mem_cons_of_mem _ hb)).cons a)

/-- The shares of all ranks are the list. -/
theorem flatMap_stride_perm (hn : 0 < n) : ((range n).flatMap fun r ↦ stride n r l).Perm l := by
  have hperm := (flatMap_filter_perm (l := l.zipIdx) (f := fun entry ↦ entry.2 % n)
    fun _ _ ↦ Nat.mod_lt _ hn).map (·.1)
  rwa [map_flatMap, zipIdx_map_fst] at hperm

end List
