import SkibidiQL.Index.BPlusTreeKeys

/-!
# B+ trees over values

The instance of the B+ tree that the engine builds: keys are `Value`s, compared by `Value::compare`.
That comparison is not an order on all values, since an integer column and a text column compare by
type and numbers compare as doubles, so the contract is stated for the domains on which it is one;
the texts are such a domain.
-/

namespace SkibidiQL

open BPlusTree

/-- `Value::compare` orders texts strictly and totally. -/
theorem strictTotalOn_text : StrictTotalOn Value.compare {v | ∃ s, v = .text s} where
  eq_iff := by
    rintro _ ⟨s, rfl⟩ _ ⟨t, rfl⟩
    show compare s t = .eq ↔ _
    simp
  swap_eq := by
    rintro _ ⟨s, rfl⟩ _ ⟨t, rfl⟩
    show compare t s = (compare s t).swap
    exact Std.OrientedCmp.eq_swap
  lt_trans := by
    rintro _ ⟨s, rfl⟩ _ ⟨t, rfl⟩ _ ⟨r, rfl⟩ hst htr
    have htrans : compare s t = .lt → compare t r = .lt → compare s r = .lt :=
      Std.TransCmp.lt_trans
    exact htrans hst htr

/-- Insertions leave the order of the tree. -/
@[simp]
theorem BPlusTree.insertAll_maxKeys {κ : Type*} (cmp : κ → κ → Ordering) (tree : BPlusTree κ)
    (ops : List (κ × RowId)) : (tree.insertAll cmp ops).maxKeys = tree.maxKeys := by
  induction ops generalizing tree with
  | nil => rfl
  | cons op ops ih =>
    have hstep : (tree.insert cmp op.1 op.2).1.maxKeys = tree.maxKeys := by
      simp only [insert]
      split <;> rfl
    simpa [insertAll, hstep] using ih (tree.insert cmp op.1 op.2).1

/-- Every tree of values that a run of inserts builds is balanced, sorted and linked, and answers
`find`, `range`, `size` and further inserts from the pairs that the run stored. -/
theorem valueIndex_correct {D : Set Value} (hD : StrictTotalOn Value.compare D) (maxKeys : Nat)
    {ops : List (Value × RowId)} (hops : ∀ op ∈ ops, op.1 ∈ D) :
    ((new maxKeys).insertAll Value.compare ops).maxKeys = max 3 maxKeys ∧
      ∃ pairs, pairs.Perm (inserted Value.compare ops) ∧
        Indexes Value.compare D ((new maxKeys).insertAll Value.compare ops) pairs :=
  ⟨by simp [new], indexes_insertAll hD maxKeys hops⟩

/-- Three texts in a tree of three keys a node. -/
theorem valueIndex_correct_texts :
    ∃ pairs, pairs.Perm (inserted Value.compare
        [(.text (lit "b"), ⟨0, 1⟩), (.text (lit "a"), ⟨0, 0⟩), (.text (lit "b"), ⟨0, 2⟩)]) ∧
      Indexes Value.compare {v | ∃ s, v = .text s}
        ((new 2).insertAll Value.compare
          [(.text (lit "b"), ⟨0, 1⟩), (.text (lit "a"), ⟨0, 0⟩), (.text (lit "b"), ⟨0, 2⟩)])
        pairs :=
  (valueIndex_correct strictTotalOn_text 2 (by simp)).2

end SkibidiQL
