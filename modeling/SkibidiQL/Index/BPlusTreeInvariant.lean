import SkibidiQL.Index.BPlusTree
import Mathlib.Order.Compare
import Mathlib.Order.Defs.LinearOrder
import Mathlib.Tactic.Order

/-!
# The invariant of the B+ tree

`WellFormed cmp maxKeys h lo hi node` says that `node` roots a subtree of height `h` over the keys
of the half-open interval from `lo` to `hi`. A leaf holds sorted keys of that interval, each with its
row; an internal node cuts the interval at its separators and gives one piece to every child
(`Spans`). The leaves of one tree are linked in the order of their owners (`Chained`).

The proofs are made over a linear order and its `compare`. `insertNode_spec` is the step lemma: an
insert changes exactly one leaf, the one the search for the key ends at, by the leaf branch of the
source, and everything else follows from what that branch does to one leaf (`insertLeaf_spec`).
-/

namespace SkibidiQL

namespace BPlusTree

universe u

section Definitions

variable {κ : Type u} (cmp : κ → κ → Ordering)

/-- The key is not below `lo` and is below `hi`; a missing bound is no constraint. -/
def Between (lo hi : Option κ) (key : κ) : Prop :=
  (∀ l ∈ lo, cmp l key ≠ .gt) ∧ ∀ h ∈ hi, cmp key h = .lt

/-- The bounds are in order. -/
def Bounds (lo hi : Option κ) : Prop :=
  ∀ l ∈ lo, ∀ h ∈ hi, cmp l h = .lt

/-- The separators `keys` cut the interval from `lo` to `hi` into as many pieces as there are
children, and each child satisfies `P` on its piece. -/
def Spans (P : Option κ → Option κ → Node κ → Prop) :
    Option κ → List κ → List (Node κ) → Option κ → Prop
  | lo, [], [child], hi => Bounds cmp lo hi ∧ P lo hi child
  | lo, key :: keys, child :: children, hi =>
    Bounds cmp lo (some key) ∧ P lo (some key) child ∧ Spans P (some key) keys children hi
  | _, _, _, _ => False

/-- The node roots a subtree whose leaves are all at depth `h` and whose keys lie between `lo` and
`hi`, with sorted nodes of at most `maxKeys` keys. -/
def WellFormed (maxKeys : Nat) : Nat → Option κ → Option κ → Node κ → Prop
  | 1, lo, hi, .leaf l =>
    l.keys.Pairwise (cmp · · = .lt) ∧ (∀ k ∈ l.keys, Between cmp lo hi k) ∧
      l.rows.length = l.keys.length ∧ l.keys.length ≤ maxKeys
  | h + 2, lo, hi, .inner keys children =>
    keys.Pairwise (cmp · · = .lt) ∧ keys.length ≤ maxKeys ∧
      Spans cmp (WellFormed maxKeys (h + 1)) lo keys children hi
  | _, _, _, _ => False

/-- Every leaf points to the one after it, and the last one to none. -/
def Chained : List (Leaf κ) → Prop
  | [] => True
  | l :: ls => l.next = ls.head?.map (·.addr) ∧ Chained ls

/-- The pairs a leaf indexes. -/
def Leaf.entries (l : Leaf κ) : List (κ × RowId) :=
  l.keys.zip l.rows

/-- The pairs a node indexes, in the order of its leaves. -/
def entries (node : Node κ) : List (κ × RowId) :=
  (leaves node).flatMap Leaf.entries

/-- The leaves of a node and of the sibling it may have split off. -/
def outcomeLeaves (node : Node κ) (split : Option (Split κ)) : List (Leaf κ) :=
  leaves node ++ split.elim [] fun s ↦ leaves s.right

/-- A node and the sibling it may have split off are well formed on the two sides of the
separator. -/
def SplitWellFormed (maxKeys h : Nat) (lo hi : Option κ) (node : Node κ) :
    Option (Split κ) → Prop
  | none => WellFormed cmp maxKeys h lo hi node
  | some s => Bounds cmp lo (some s.separator) ∧ Bounds cmp (some s.separator) hi ∧
      WellFormed cmp maxKeys h lo (some s.separator) node ∧
      WellFormed cmp maxKeys h (some s.separator) hi s.right

/-- The vectors `keys` and `rows` are those of `leaf` with the pair `(key, row)` put among them: the keys
stay sorted and between `lo` and `hi`. -/
structure Joins (lo hi : Option κ) (leaf : Leaf κ) (key : κ) (row : RowId) (keys : List κ)
    (rows : List RowId) : Prop where
  sorted : keys.Pairwise (cmp · · = .lt)
  within : ∀ k ∈ keys, Between cmp lo hi k
  rows_length : rows.length = keys.length
  keys_length : keys.length = leaf.keys.length + 1
  entries : ∃ below above, leaf.entries = below ++ above ∧ keys.zip rows = below ++ (key, row) :: above

/-- The leaves `ls` take the place of `leaf` once it has received the pair `(key, row)`: they hold
its pairs and the new one, and the links into and out of the group are those of `leaf`. -/
structure Replaces (leaf : Leaf κ) (key : κ) (row : RowId) (fresh : Nat) (ls : List (Leaf κ)) :
    Prop where
  entries : ∃ below above, leaf.entries = below ++ above ∧
    ls.flatMap Leaf.entries = below ++ (key, row) :: above
  links : (∃ l, ls = [l] ∧ l.addr = leaf.addr ∧ l.next = leaf.next) ∨
    ∃ l r, ls = [l, r] ∧ l.addr = leaf.addr ∧ l.next = some fresh ∧ r.addr = fresh ∧
      r.next = leaf.next

/-- `leaf` is the one leaf of the list that may hold `key`: `before` holds smaller keys and `after`
larger ones. -/
structure Located (key : κ) (ls before : List (Leaf κ)) (leaf : Leaf κ) (after : List (Leaf κ)) :
    Prop where
  leaves_eq : ls = before ++ leaf :: after
  before_lt : ∀ l ∈ before, ∀ k ∈ l.keys, cmp k key = .lt
  after_gt : ∀ l ∈ after, ∀ k ∈ l.keys, cmp key k = .lt
  sorted : leaf.keys.Pairwise (cmp · · = .lt)
  rows_length : leaf.rows.length = leaf.keys.length

/-- What `insert` does to a subtree: it changes the leaf that the search for the key ends at, or
throws if that leaf holds the key. -/
def InsertSpec (maxKeys h : Nat) (lo hi : Option κ) (key : κ) (row : RowId) (fresh : Nat)
    (node : Node κ) (outcome : Outcome κ) : Prop :=
  ∃ before leaf after, Located cmp key (leaves node) before leaf after ∧
    findLeaf cmp key node = some leaf ∧
    ((key ∈ leaf.keys ∧ outcome = (node, .error (lit "Duplicate B+ tree key"))) ∨
      (key ∉ leaf.keys ∧ ∃ node' split, outcome = (node', .ok split) ∧
        SplitWellFormed cmp maxKeys h lo hi node' split ∧
        ∃ ls, outcomeLeaves node' split = before ++ ls ++ after ∧
          Replaces leaf key row fresh ls))

/-- The separators and children of an internal node once the child at `childIndex` has split. -/
def splice (keys : List κ) (children : List (Node κ)) (childIndex : Nat) :
    Option (Split κ) → List κ × List (Node κ)
  | none => (keys, children)
  | some s => (keys.insertIdx childIndex s.separator, children.insertIdx (childIndex + 1) s.right)

variable {cmp}

/-- The leaves of the children, list by list. -/
theorem childLeaves_append (xs ys : List (Node κ)) :
    childLeaves (xs ++ ys) = childLeaves xs ++ childLeaves ys := by
  induction xs with
  | nil => rfl
  | cons x xs ih => simp [childLeaves, ih]

/-- A leaf below the children is one of a child. -/
theorem mem_childLeaves {l : Leaf κ} {children : List (Node κ)} :
    l ∈ childLeaves children ↔ ∃ c ∈ children, l ∈ leaves c := by
  induction children with
  | nil => simp [childLeaves]
  | cons c children ih => simp [childLeaves, ih]

/-- Every child of a span has a piece of its own. -/
theorem Spans.child {P : Option κ → Option κ → Node κ → Prop} {lo hi : Option κ} {keys : List κ}
    {children : List (Node κ)} (h : Spans cmp P lo keys children hi) {c : Node κ}
    (hc : c ∈ children) : ∃ lo' hi', P lo' hi' c := by
  induction keys generalizing lo children with
  | nil =>
    match children, h with
    | [d], ⟨_, hd⟩ =>
      obtain rfl := List.mem_singleton.1 hc
      exact ⟨lo, hi, hd⟩
  | cons s keys ih =>
    match children, h with
    | d :: children, ⟨_, hd, hrest⟩ =>
      rcases List.mem_cons.1 hc with rfl | hc
      · exact ⟨lo, some s, hd⟩
      · exact ih hrest hc

/-- A well-formed node has a leaf. -/
theorem WellFormed.leaves_ne_nil {maxKeys h : Nat} {lo hi : Option κ}
    {node : Node κ} (hnode : WellFormed cmp maxKeys h lo hi node) : leaves node ≠ [] := by
  induction h using Nat.strong_induction_on generalizing lo hi node with
  | _ h ih =>
    match h, node, hnode with
    | 1, .leaf l, _ => simp [leaves]
    | h + 2, .inner [] [c], ⟨_, _, hspans⟩ =>
      simpa [leaves, childLeaves] using ih (h + 1) (by omega) hspans.2
    | h + 2, .inner (k :: keys) (c :: children), ⟨_, _, hspans⟩ =>
      simp [leaves, childLeaves, ih (h + 1) (by omega) hspans.2.1]

/-- Every leaf has a row for each of its keys. -/
theorem WellFormed.rows_length {maxKeys h : Nat} {lo hi : Option κ} {node : Node κ}
    (hnode : WellFormed cmp maxKeys h lo hi node) :
    ∀ l ∈ leaves node, l.rows.length = l.keys.length := by
  induction h using Nat.strong_induction_on generalizing lo hi node with
  | _ h ih =>
    match h, node, hnode with
    | 1, .leaf l, hleaf => simpa [leaves] using hleaf.2.2.1
    | h + 2, .inner keys children, ⟨_, _, hspans⟩ =>
      intro l hl
      obtain ⟨c, hc, hl⟩ := mem_childLeaves.1 hl
      obtain ⟨lo', hi', hwell⟩ := hspans.child hc
      exact ih (h + 1) (by omega) hwell l hl

end Definitions

variable {κ : Type u} [LinearOrder κ]

/-! ### Bounds and separators -/

@[simp]
theorem between_compare {lo hi : Option κ} {k : κ} :
    Between compare lo hi k ↔ (∀ l ∈ lo, l ≤ k) ∧ ∀ h ∈ hi, k < h := by
  simp [Between, compare_gt_iff_gt, compare_lt_iff_lt]

@[simp]
theorem bounds_compare {lo hi : Option κ} :
    Bounds compare lo hi ↔ ∀ l ∈ lo, ∀ h ∈ hi, l < h := by
  simp [Bounds, compare_lt_iff_lt]

/-- The search behind equal keys, one separator at a time. -/
theorem upperBound_cons (s : κ) (keys : List κ) (key : κ) :
    upperBound compare (s :: keys) key =
      if key < s then 0 else upperBound compare keys key + 1 := by
  unfold upperBound
  by_cases h : key < s
  · simp [h, compare_lt_iff_lt.2 h]
  · have hne : compare key s ≠ .lt := fun hlt ↦ h (compare_lt_iff_lt.1 hlt)
    simp [h, hne]

/-- The search before equal keys, one key at a time. -/
theorem lowerBound_cons (s : κ) (keys : List κ) (key : κ) :
    lowerBound compare (s :: keys) key =
      if s < key then lowerBound compare keys key + 1 else 0 := by
  unfold lowerBound
  by_cases h : s < key
  · simp [h, compare_lt_iff_lt.2 h]
  · have hne : compare s key ≠ .lt := fun hlt ↦ h (compare_lt_iff_lt.1 hlt)
    simp [h, hne]

/-- The outer separators of children are in order. -/
theorem Spans.bounds {P : Option κ → Option κ → Node κ → Prop} {lo hi : Option κ} {keys : List κ}
    {children : List (Node κ)} (h : Spans compare P lo keys children hi) :
    Bounds compare lo hi := by
  induction keys generalizing lo children with
  | nil =>
    match children, h with
    | [_], h => exact h.1
  | cons k keys ih =>
    match children, h with
    | _ :: _, ⟨hlo, _, hrest⟩ =>
      have htail := ih hrest
      simp only [bounds_compare, Option.mem_some_iff, forall_eq'] at hlo htail ⊢
      exact fun l hl u hu ↦ lt_trans (hlo l hl) (htail u hu)

/-- The separators of a span lie strictly inside it. -/
theorem Spans.keys_between {P : Option κ → Option κ → Node κ → Prop} {lo hi : Option κ}
    {keys : List κ} {children : List (Node κ)} (h : Spans compare P lo keys children hi) :
    ∀ k ∈ keys, (∀ l ∈ lo, l < k) ∧ ∀ u ∈ hi, k < u := by
  induction keys generalizing lo children with
  | nil => simp
  | cons s keys ih =>
    match children, h with
    | _ :: _, ⟨hlo, _, hrest⟩ =>
      have htail := hrest.bounds
      simp only [bounds_compare, Option.mem_some_iff, forall_eq'] at hlo htail
      intro k hk
      rcases List.mem_cons.1 hk with rfl | hk
      · exact ⟨hlo, htail⟩
      · have hsk := ih hrest k hk
        simp only [Option.mem_some_iff, forall_eq'] at hsk
        exact ⟨fun l hl ↦ lt_trans (hlo l hl) hsk.1, hsk.2⟩

/-- The separators between the children ascend. -/
theorem Spans.sorted {P : Option κ → Option κ → Node κ → Prop} {lo hi : Option κ}
    {keys : List κ} {children : List (Node κ)} (h : Spans compare P lo keys children hi) :
    keys.Pairwise (compare · · = .lt) := by
  induction keys generalizing lo children with
  | nil => exact .nil
  | cons s keys ih =>
    match children, h with
    | _ :: _, ⟨_, _, hrest⟩ =>
      refine .cons (fun k hk ↦ ?_) (ih hrest)
      exact compare_lt_iff_lt.2 ((hrest.keys_between k hk).1 s rfl)

/-- Cutting a span at one of its separators. -/
theorem Spans.cut {P : Option κ → Option κ → Node κ → Prop} {lo hi : Option κ} {s : κ}
    {left right : List κ} {children : List (Node κ)}
    (h : Spans compare P lo (left ++ s :: right) children hi) :
    Spans compare P lo left (children.take (left.length + 1)) (some s) ∧
      Spans compare P (some s) right (children.drop (left.length + 1)) hi := by
  induction left generalizing lo children with
  | nil =>
    match children, h with
    | _ :: _, ⟨hlo, hc, hrest⟩ => exact ⟨⟨hlo, hc⟩, hrest⟩
  | cons k left ih =>
    match children, h with
    | _ :: _, ⟨hlo, hc, hrest⟩ =>
      obtain ⟨hl, hr⟩ := ih hrest
      exact ⟨⟨hlo, hc, hl⟩, hr⟩

/-! ### The leaf branch -/

/-- The pairs of a leaf whose keys are sorted split at the position of the key. -/
theorem lowerBound_split {keys : List κ} (hsorted : keys.Pairwise (compare · · = .lt)) (key : κ) :
    ∃ below above, keys = below ++ above ∧ lowerBound compare keys key = below.length ∧
      (∀ k ∈ below, k < key) ∧ ∀ k ∈ above, key ≤ k := by
  induction keys with
  | nil => exact ⟨[], [], rfl, rfl, by simp, by simp⟩
  | cons s keys ih =>
    obtain ⟨hs, hkeys⟩ := List.pairwise_cons.1 hsorted
    rw [lowerBound_cons]
    by_cases hlt : s < key
    · obtain ⟨below, above, rfl, hlength, hbelow, habove⟩ := ih hkeys
      refine ⟨s :: below, above, rfl, by simp [hlt, hlength], ?_, habove⟩
      simpa using ⟨hlt, hbelow⟩
    · refine ⟨[], s :: keys, rfl, by simp [hlt], by simp, ?_⟩
      intro k hk
      rcases List.mem_cons.1 hk with rfl | hk
      · exact not_lt.1 hlt
      · exact le_trans (not_lt.1 hlt) (le_of_lt (compare_lt_iff_lt.1 (hs k hk)))

/-- Inserting behind a first part. -/
theorem insertIdx_append_length {α : Type*} (xs ys : List α) (x : α) :
    (xs ++ ys).insertIdx xs.length x = xs ++ x :: ys := by
  induction xs with
  | nil => simp
  | cons y xs ih => simp [ih]

/-- Cutting an overfull leaf in front of `separator`. -/
theorem splitLeaf_wellFormed {maxKeys : Nat} {lo hi : Option κ} {left right : Leaf κ}
    {separator : κ} {rest : List κ} (hright : right.keys = separator :: rest)
    (hleft : left.keys ≠ [])
    (hsorted : (left.keys ++ right.keys).Pairwise (compare · · = .lt))
    (hwithin : ∀ k ∈ left.keys ++ right.keys, Between compare lo hi k)
    (hrows : left.rows.length = left.keys.length ∧ right.rows.length = right.keys.length)
    (hbound : left.keys.length ≤ maxKeys ∧ right.keys.length ≤ maxKeys) :
    SplitWellFormed compare maxKeys 1 lo hi (.leaf left) (some ⟨separator, .leaf right⟩) := by
  obtain ⟨hsortedLeft, hsortedRight, hcross⟩ := List.pairwise_append.1 hsorted
  simp only [compare_lt_iff_lt, between_compare, List.mem_append] at hcross hwithin
  have hmem : separator ∈ right.keys := by rw [hright]; exact List.mem_cons_self
  have hleast : ∀ k ∈ right.keys, separator ≤ k := by
    rw [hright] at hsortedRight ⊢
    intro k hk
    rcases List.mem_cons.1 hk with rfl | hk
    · exact le_refl _
    · exact le_of_lt (compare_lt_iff_lt.1 ((List.pairwise_cons.1 hsortedRight).1 k hk))
  obtain ⟨first, hfirst⟩ := List.exists_mem_of_ne_nil _ hleft
  refine ⟨?_, ?_, ⟨hsortedLeft, ?_, hrows.1, hbound.1⟩, ⟨hsortedRight, ?_, hrows.2, hbound.2⟩⟩
  · simp only [bounds_compare, Option.mem_some_iff, forall_eq']
    exact fun l hl ↦ lt_of_le_of_lt ((hwithin first (.inl hfirst)).1 l hl)
      (hcross first hfirst separator hmem)
  · simp only [bounds_compare, Option.mem_some_iff, forall_eq']
    exact (hwithin separator (.inr hmem)).2
  · simp only [between_compare, Option.mem_some_iff, forall_eq']
    exact fun k hk ↦ ⟨(hwithin k (.inl hk)).1, hcross k hk separator hmem⟩
  · simp only [between_compare, Option.mem_some_iff, forall_eq']
    exact fun k hk ↦ ⟨hleast k hk, (hwithin k (.inr hk)).2⟩

/-- A sorted list stays sorted with a new key between the smaller keys and the larger ones. -/
theorem sorted_insert {below above : List κ} {key : κ} (hsorted : (below ++ above).Pairwise (compare · · = .lt))
    (hbelow : ∀ k ∈ below, k < key) (habove : ∀ k ∈ above, key < k) :
    (below ++ key :: above).Pairwise (compare · · = .lt) := by
  obtain ⟨hb, ha, -⟩ := List.pairwise_append.1 hsorted
  refine List.pairwise_append.2 ⟨hb, .cons (fun k hk ↦ compare_lt_iff_lt.2 (habove k hk)) ha, ?_⟩
  intro b hb' a ha'
  rcases List.mem_cons.1 ha' with rfl | ha'
  · exact compare_lt_iff_lt.2 (hbelow b hb')
  · exact compare_lt_iff_lt.2 (lt_trans (hbelow b hb') (habove a ha'))

/-- What the two `insert` calls of the leaf branch make of the vectors of a leaf whose keys do not
include the new one. -/
theorem joins_insertIdx {lo hi : Option κ} {leaf : Leaf κ} {key : κ} {below above : List κ}
    (hsorted : leaf.keys.Pairwise (compare · · = .lt)) (hwithin : ∀ k ∈ leaf.keys, Between compare lo hi k)
    (hrows : leaf.rows.length = leaf.keys.length) (hkeys : leaf.keys = below ++ above)
    (hbelow : ∀ k ∈ below, k < key) (habove : ∀ k ∈ above, key < k) (hkey : Between compare lo hi key)
    (row : RowId) : Joins compare lo hi leaf key row (leaf.keys.insertIdx below.length key)
      (leaf.rows.insertIdx below.length row) := by
  have hlengthLe : below.length ≤ leaf.rows.length := by rw [hrows, hkeys]; simp
  have hrowsEq : leaf.rows.insertIdx below.length row =
      leaf.rows.take below.length ++ row :: leaf.rows.drop below.length := by
    have hsplit := insertIdx_append_length (leaf.rows.take below.length)
      (leaf.rows.drop below.length) row
    rwa [List.take_append_drop, List.length_take_of_le hlengthLe] at hsplit
  have hkeysEq : leaf.keys.insertIdx below.length key = below ++ key :: above := by
    rw [hkeys, insertIdx_append_length]
  have hlength : leaf.rows.length = below.length + above.length := by rw [hrows, hkeys, List.length_append]
  rw [hrowsEq, hkeysEq]
  constructor
  case sorted => exact sorted_insert (hkeys ▸ hsorted) hbelow habove
  case within =>
    intro k hk
    rcases List.mem_append.1 hk with hk | hk
    · exact hwithin k (hkeys ▸ List.mem_append_left _ hk)
    · rcases List.mem_cons.1 hk with rfl | hk
      · exact hkey
      · exact hwithin k (hkeys ▸ List.mem_append_right _ hk)
  case rows_length =>
    simp only [List.length_append, List.length_take, List.length_cons, List.length_drop]
    omega
  case keys_length =>
    rw [hkeys, List.length_append, List.length_cons, List.length_append, Nat.add_assoc]
  case entries =>
    -- The rows are cut where the keys are.
    refine ⟨below.zip (leaf.rows.take below.length), above.zip (leaf.rows.drop below.length), ?_, ?_⟩
    · rw [← List.zip_append (by rw [List.length_take_of_le hlengthLe]), ← hkeys,
        List.take_append_drop]
      rfl
    · rw [List.zip_append (by rw [List.length_take_of_le hlengthLe])]
      rfl

/-- Cutting the vectors of an overfull leaf in the middle gives two leaves that take its place. -/
theorem Joins.split {maxKeys : Nat} {lo hi : Option κ} {leaf : Leaf κ} {key : κ} {row : RowId} {keys : List κ}
    {rows : List RowId} (h : Joins compare lo hi leaf key row keys rows) (hmax : 3 ≤ maxKeys)
    (hbound : leaf.keys.length ≤ maxKeys) (hfull : maxKeys < keys.length) {left right : Leaf κ} {separator : κ}
    {rest : List κ} (hright : right.keys = separator :: rest) {fresh : Nat}
    (hleftEq : left = { leaf with
      keys := keys.take (keys.length / 2), rows := rows.take (keys.length / 2), next := some fresh })
    (hrightEq : right =
      { addr := fresh, keys := keys.drop (keys.length / 2), rows := rows.drop (keys.length / 2), next := leaf.next }) :
    SplitWellFormed compare maxKeys 1 lo hi (.leaf left) (some ⟨separator, .leaf right⟩) ∧
      Replaces leaf key row fresh [left, right] := by
  have hlengths := h.keys_length
  have hrows := h.rows_length
  subst hleftEq hrightEq
  refine ⟨splitLeaf_wellFormed hright ?_ ?_ ?_ ?_ ?_, ?_, .inr ⟨_, _, rfl, rfl, rfl, rfl, rfl⟩⟩
  · rw [← List.length_pos_iff, List.length_take]
    omega
  · rw [List.take_append_drop]
    exact h.sorted
  · rw [List.take_append_drop]
    exact h.within
  · simp [hrows]
  · simp only [List.length_take, List.length_drop]
    omega
  · obtain ⟨below, above, hold, hzip⟩ := h.entries
    refine ⟨below, above, hold, ?_⟩
    simp only [Leaf.entries, List.flatMap_cons, List.flatMap_nil, List.append_nil]
    rw [← List.zip_append (by simp [hrows]), List.take_append_drop, List.take_append_drop, hzip]

/-- The leaf branch, on a leaf of the interval from `lo` to `hi`: a key it holds makes it throw; any
other key joins its pairs, and a split links the new leaf behind the old one. -/
theorem insertLeaf_spec {maxKeys : Nat} {lo hi : Option κ} {leaf : Leaf κ} {key : κ}
    (hleaf : WellFormed compare maxKeys 1 lo hi (.leaf leaf)) (hkey : Between compare lo hi key)
    (hmax : 3 ≤ maxKeys) (row : RowId) (fresh : Nat) :
    InsertSpec compare maxKeys 1 lo hi key row fresh (.leaf leaf)
      (insertLeaf compare maxKeys leaf key row fresh) := by
  obtain ⟨hsorted, hwithin, hrows, hbound⟩ := hleaf
  obtain ⟨below, above, hkeys, hposition, hbelow, habove⟩ := lowerBound_split hsorted key
  have hlookup : leaf.keys[lowerBound compare leaf.keys key]? = above.head? := by
    rw [hposition, hkeys, List.getElem?_append_right (le_refl _)]
    simp [List.head?_eq_getElem?]
  refine ⟨[], leaf, [], ⟨by simp [leaves], by simp, by simp, hsorted, hrows⟩, rfl, ?_⟩
  by_cases hfound : above.head? = some key
  · refine .inl ⟨?_, ?_⟩
    · rw [hkeys]
      exact List.mem_append_right _ (List.mem_of_mem_head? hfound)
    · simp [insertLeaf, hlookup, hfound, throw, throwThe, MonadExceptOf.throw]
  -- The first key that is not below the new one is not the new one, so all keys from there on lie above it.
  have hlt : ∀ k ∈ above, key < k := by
    intro k hk
    have hsortedAbove : above.Pairwise (compare · · = .lt) :=
      hsorted.sublist (hkeys ▸ List.sublist_append_right below above)
    obtain ⟨a, above', rfl⟩ := List.exists_cons_of_ne_nil (List.ne_nil_of_mem hk)
    have ha : key < a := lt_of_le_of_ne (habove a List.mem_cons_self) (by simpa [eq_comm] using hfound)
    rcases List.mem_cons.1 hk with rfl | hk
    · exact ha
    · exact lt_trans ha (compare_lt_iff_lt.1 ((List.pairwise_cons.1 hsortedAbove).1 k hk))
  have hmiss : ((above.head?).any fun k ↦ compare k key == .eq) = false := by
    rcases above with - | ⟨a, above⟩
    · rfl
    · simpa using (hlt a List.mem_cons_self).ne'
  have hnew : key ∉ leaf.keys := by
    rw [hkeys, List.mem_append]
    rintro (hk | hk)
    · exact lt_irrefl _ (hbelow key hk)
    · exact lt_irrefl _ (hlt key hk)
  have hjoins := joins_insertIdx hsorted hwithin hrows hkeys hbelow hlt hkey row
  rw [← hposition] at hjoins
  -- The vectors after the two `insert` calls.
  set keys := leaf.keys.insertIdx (lowerBound compare leaf.keys key) key with hkeysDef
  set rows := leaf.rows.insertIdx (lowerBound compare leaf.keys key) row with hrowsDef
  refine .inr ⟨hnew, ?_⟩
  by_cases hfits : keys.length ≤ maxKeys
  · obtain ⟨b, a, hold, hzip⟩ := hjoins.entries
    refine ⟨.leaf { leaf with keys, rows }, none, ?_, ⟨hjoins.sorted, hjoins.within, hjoins.rows_length, hfits⟩,
      _, rfl, ⟨b, a, hold, ?_⟩, .inl ⟨_, rfl, rfl, rfl⟩⟩
    · simp [insertLeaf, hlookup, hmiss, ← hkeysDef, ← hrowsDef, hfits, pure, Except.pure]
    · simp [Leaf.entries, hzip]
  · have hlengths := hjoins.keys_length
    have hmiddle : keys.length / 2 < keys.length := by omega
    obtain ⟨separator, rest, hdrop⟩ : ∃ s rest, keys.drop (keys.length / 2) = s :: rest :=
      ⟨_, _, List.drop_eq_getElem_cons hmiddle⟩
    obtain ⟨hwell, hreplaces⟩ := hjoins.split hmax hbound (not_le.1 hfits) hdrop rfl rfl
    refine ⟨_, _, ?_, hwell, _, ?_, hreplaces⟩
    · simp only [insertLeaf, hlookup, hmiss, ← hkeysDef, ← hrowsDef, hfits, hdrop, pure, Except.pure]
      simp
    · simp [outcomeLeaves, leaves]

/-! ### Internal nodes -/

/-- The keys below a child lie between the separators around it. -/
theorem Spans.leaves_between {P : Option κ → Option κ → Node κ → Prop}
    (hP : ∀ lo hi node, P lo hi node → ∀ l ∈ leaves node, ∀ k ∈ l.keys, Between compare lo hi k)
    {lo hi : Option κ} {keys : List κ} {children : List (Node κ)}
    (h : Spans compare P lo keys children hi) :
    ∀ l ∈ childLeaves children, ∀ k ∈ l.keys, Between compare lo hi k := by
  induction keys generalizing lo children with
  | nil =>
    match children, h with
    | [c], ⟨_, hc⟩ => simpa [childLeaves] using hP lo hi c hc
  | cons s keys ih =>
    match children, h with
    | c :: children, ⟨hlo, hc, hrest⟩ =>
      have hbounds := hrest.bounds
      have hleft := hP lo _ c hc
      have hright := ih hrest
      simp only [bounds_compare, between_compare, Option.mem_some_iff, forall_eq'] at *
      intro l hl k hk
      rcases List.mem_append.1 hl with hl | hl
      · exact ⟨(hleft l hl k hk).1, fun u hu ↦ lt_trans (hleft l hl k hk).2 (hbounds u hu)⟩
      · exact ⟨fun b hb ↦ le_trans (le_of_lt (hlo b hb)) (hright l hl k hk).1,
          (hright l hl k hk).2⟩

/-- The keys of a well-formed node lie between its separators. -/
theorem WellFormed.leaves_between {maxKeys h : Nat} {lo hi : Option κ} {node : Node κ}
    (hnode : WellFormed compare maxKeys h lo hi node) :
    ∀ l ∈ leaves node, ∀ k ∈ l.keys, Between compare lo hi k := by
  induction h using Nat.strong_induction_on generalizing lo hi node with
  | _ h ih =>
    match h, node, hnode with
    | 1, .leaf l, hleaf => simpa [leaves] using hleaf.2.1
    | h + 2, .inner keys children, ⟨_, _, hspans⟩ =>
      exact hspans.leaves_between fun lo hi c hc ↦ ih (h + 1) (by omega) hc

/-- What the recursive call does to the children of an internal node that it descends from at
`childIndex`. -/
def InsertChildSpec (maxKeys h : Nat) (lo hi : Option κ) (key : κ) (row : RowId) (fresh : Nat)
    (keys : List κ) (children : List (Node κ)) (childIndex : Nat) : Prop :=
  ∃ before leaf after, Located compare key (childLeaves children) before leaf after ∧
    findLeafChild compare key children childIndex = some leaf ∧
    ((key ∈ leaf.keys ∧ insertChild compare maxKeys key row fresh children childIndex =
        (children, .error (lit "Duplicate B+ tree key"))) ∨
      (key ∉ leaf.keys ∧ ∃ children' split,
        insertChild compare maxKeys key row fresh children childIndex = (children', .ok split) ∧
        Spans compare (WellFormed compare maxKeys h) lo
          (splice keys children' childIndex split).1
          (splice keys children' childIndex split).2 hi ∧
        ∃ ls, childLeaves (splice keys children' childIndex split).2 = before ++ ls ++ after ∧
          Replaces leaf key row fresh ls))

/-- The recursive call on the first child, whose piece of the interval ends at `mid`. -/
theorem insertChild_head {maxKeys h : Nat} {lo mid hi : Option κ} {key : κ} {row : RowId}
    {fresh : Nat} {keys : List κ} {child : Node κ} {children : List (Node κ)}
    (hchild : InsertSpec compare maxKeys h lo mid key row fresh child
      (insertNode compare maxKeys key row fresh child))
    (habove : ∀ l ∈ childLeaves children, ∀ k ∈ l.keys, key < k)
    (hkeep : ∀ child, WellFormed compare maxKeys h lo mid child →
      Spans compare (WellFormed compare maxKeys h) lo keys (child :: children) hi)
    (hsplit : ∀ child s,
      SplitWellFormed compare maxKeys h lo mid child (some s) →
      Spans compare (WellFormed compare maxKeys h) lo (s.separator :: keys)
        (child :: s.right :: children) hi) :
    InsertChildSpec maxKeys h lo hi key row fresh keys (child :: children) 0 := by
  obtain ⟨before, leaf, after, hlocated, hfind, houtcome⟩ := hchild
  refine ⟨before, leaf, after ++ childLeaves children, ?_, hfind, ?_⟩
  · refine { hlocated with leaves_eq := ?_, after_gt := ?_ }
    · simp [childLeaves, hlocated.leaves_eq]
    · intro l hl k hk
      rcases List.mem_append.1 hl with hl | hl
      · exact hlocated.after_gt l hl k hk
      · exact compare_lt_iff_lt.2 (habove l hl k hk)
  · rcases houtcome with ⟨hmem, herror⟩ | ⟨hnew, child', split, hok, hwell, ls, hleaves, hls⟩
    · exact .inl ⟨hmem, by simp [insertChild, herror]⟩
    · refine .inr ⟨hnew, child' :: children, split, by simp [insertChild, hok], ?_⟩
      -- The child stays one, or its right half becomes the next child.
      cases split with
      | none =>
        refine ⟨hkeep child' hwell, ls, ?_, hls⟩
        simp only [outcomeLeaves, Option.elim, List.append_nil] at hleaves
        simp [splice, childLeaves, hleaves]
      | some s =>
        refine ⟨hsplit child' s hwell, ls, ?_, hls⟩
        simp only [outcomeLeaves, Option.elim] at hleaves
        simp [splice, childLeaves, ← List.append_assoc, hleaves]

/-- The recursive call on a later child. -/
theorem insertChild_tail {maxKeys h : Nat} {lo hi : Option κ} {key separator : κ} {row : RowId}
    {fresh : Nat} {keys : List κ} {child : Node κ} {children : List (Node κ)} {childIndex : Nat}
    (htail : InsertChildSpec maxKeys h (some separator) hi key row fresh keys children childIndex)
    (hbelow : ∀ l ∈ leaves child, ∀ k ∈ l.keys, k < key)
    (hlo : Bounds compare lo (some separator))
    (hchild : WellFormed compare maxKeys h lo (some separator) child) :
    InsertChildSpec maxKeys h lo hi key row fresh (separator :: keys) (child :: children)
      (childIndex + 1) := by
  obtain ⟨before, leaf, after, hlocated, hfind, houtcome⟩ := htail
  refine ⟨leaves child ++ before, leaf, after, ?_, hfind, ?_⟩
  · refine { hlocated with leaves_eq := ?_, before_lt := ?_ }
    · simp [childLeaves, hlocated.leaves_eq]
    · intro l hl k hk
      rcases List.mem_append.1 hl with hl | hl
      · exact compare_lt_iff_lt.2 (hbelow l hl k hk)
      · exact hlocated.before_lt l hl k hk
  · rcases houtcome with ⟨hmem, herror⟩ | ⟨hnew, children', split, hok, hspans, ls, hleaves, hls⟩
    · exact .inl ⟨hmem, by simp [insertChild, herror]⟩
    · refine .inr ⟨hnew, child :: children', split, by simp [insertChild, hok], ?_⟩
      cases split with
      | none =>
        refine ⟨⟨hlo, hchild, hspans⟩, ls, ?_, hls⟩
        simp only [splice] at hleaves
        simp [splice, childLeaves, hleaves]
      | some s =>
        refine ⟨⟨hlo, hchild, hspans⟩, ls, ?_, hls⟩
        simp only [splice] at hleaves
        simp [splice, childLeaves, hleaves]

/-- The recursive call of an internal node, on the child between the separators around the key. -/
theorem insertChild_spec {maxKeys h : Nat} {key : κ} {row : RowId} {fresh : Nat}
    (step : ∀ lo hi child, WellFormed compare maxKeys h lo hi child → Between compare lo hi key →
      InsertSpec compare maxKeys h lo hi key row fresh child
        (insertNode compare maxKeys key row fresh child))
    {lo hi : Option κ} {keys : List κ} {children : List (Node κ)}
    (hspans : Spans compare (WellFormed compare maxKeys h) lo keys children hi)
    (hkey : Between compare lo hi key) :
    InsertChildSpec maxKeys h lo hi key row fresh keys children
      (upperBound compare keys key) := by
  induction keys generalizing lo children with
  | nil =>
    match children, hspans with
    | [c], ⟨hbounds, hc⟩ =>
      refine insertChild_head (step lo hi c hc hkey) (by simp [childLeaves])
        (fun _ hc' ↦ ⟨hbounds, hc'⟩) fun _ s hs ↦ ?_
      exact ⟨hs.1, hs.2.2.1, hs.2.1, hs.2.2.2⟩
  | cons s keys ih =>
    match children, hspans with
    | c :: children, ⟨hlo, hc, hrest⟩ =>
      rw [upperBound_cons]
      -- The key belongs to this child, or to one behind the separator.
      by_cases hlt : key < s
      · rw [if_pos hlt]
        have hkeyLeft : Between compare lo (some s) key := by
          simp only [between_compare, Option.mem_some_iff, forall_eq'] at hkey ⊢
          exact ⟨hkey.1, hlt⟩
        refine insertChild_head (step lo _ c hc hkeyLeft) ?_ (fun _ hc' ↦ ⟨hlo, hc', hrest⟩)
          fun _ t ht ↦ ⟨ht.1, ht.2.2.1, ht.2.1, ht.2.2.2, hrest⟩
        intro l hl k hk
        have hk := hrest.leaves_between (fun _ _ _ ↦ WellFormed.leaves_between) l hl k hk
        simp only [between_compare, Option.mem_some_iff, forall_eq'] at hk
        exact lt_of_lt_of_le hlt hk.1
      · rw [if_neg hlt]
        have hkeyRight : Between compare (some s) hi key := by
          simp only [between_compare, Option.mem_some_iff, forall_eq'] at hkey ⊢
          exact ⟨not_lt.1 hlt, hkey.2⟩
        refine insertChild_tail (ih hrest hkeyRight) ?_ hlo hc
        intro l hl k hk
        have hk := hc.leaves_between l hl k hk
        simp only [between_compare, Option.mem_some_iff, forall_eq'] at hk
        exact lt_of_lt_of_le hk.2 (not_lt.1 hlt)

theorem upperBound_le_length (keys : List κ) (key : κ) :
    upperBound compare keys key ≤ keys.length :=
  (List.takeWhile_sublist _).length_le

/-- An internal node that absorbs the split of a child stays well formed, or splits at its middle
separator, and keeps its leaves. -/
theorem absorbSplit_spec {maxKeys h : Nat} {lo hi : Option κ} {keys : List κ}
    {children : List (Node κ)} {childIndex : Nat} {split : Option (Split κ)}
    (hlength : keys.length ≤ maxKeys) (hindex : childIndex ≤ keys.length)
    (hspans : Spans compare (WellFormed compare maxKeys (h + 1)) lo
      (splice keys children childIndex split).1 (splice keys children childIndex split).2 hi) :
    SplitWellFormed compare maxKeys (h + 2) lo hi
        (absorbSplit maxKeys keys children childIndex split).1
        (absorbSplit maxKeys keys children childIndex split).2 ∧
      outcomeLeaves (absorbSplit maxKeys keys children childIndex split).1
          (absorbSplit maxKeys keys children childIndex split).2 =
        childLeaves (splice keys children childIndex split).2 := by
  cases split with
  | none =>
    exact ⟨⟨hspans.sorted, hlength, hspans⟩, by simp [absorbSplit, outcomeLeaves, leaves, splice]⟩
  | some s =>
    simp only [splice] at hspans ⊢
    simp only [absorbSplit]
    set keys' := keys.insertIdx childIndex s.separator with hkeys'
    set children' := children.insertIdx (childIndex + 1) s.right
    have hlength' : keys'.length = keys.length + 1 := by
      rw [hkeys', List.length_insertIdx_of_le_length hindex]
    by_cases hfits : keys'.length ≤ maxKeys
    · rw [if_pos hfits]
      exact ⟨⟨hspans.sorted, hfits, hspans⟩, by simp [outcomeLeaves, leaves]⟩
    · rw [if_neg hfits]
      have hmiddle : keys'.length / 2 < keys'.length := by omega
      rw [List.getElem?_eq_getElem hmiddle]
      -- The middle separator moves up, and each half keeps the separators on its side of it.
      have hcutKeys : keys' = keys'.take (keys'.length / 2) ++
          keys'[keys'.length / 2] :: keys'.drop (keys'.length / 2 + 1) := by
        rw [← List.drop_eq_getElem_cons hmiddle, List.take_append_drop]
      have htake : (keys'.take (keys'.length / 2)).length = keys'.length / 2 :=
        List.length_take_of_le (by omega)
      have hcut := hspans
      rw [hcutKeys] at hcut
      obtain ⟨hleft, hright⟩ := hcut.cut
      rw [htake] at hleft hright
      refine ⟨⟨hleft.bounds, hright.bounds, ⟨hleft.sorted, ?_, hleft⟩,
        ⟨hright.sorted, ?_, hright⟩⟩, ?_⟩
      · omega
      · rw [List.length_drop]
        omega
      · simp only [outcomeLeaves, leaves, Option.elim]
        rw [← childLeaves_append, List.take_append_drop]

/-- An insert changes the one leaf that the search for its key ends at. -/
theorem insertNode_spec {maxKeys h : Nat} {lo hi : Option κ} {node : Node κ} {key : κ}
    (hnode : WellFormed compare maxKeys h lo hi node) (hkey : Between compare lo hi key)
    (hmax : 3 ≤ maxKeys) (row : RowId) (fresh : Nat) :
    InsertSpec compare maxKeys h lo hi key row fresh node
      (insertNode compare maxKeys key row fresh node) := by
  induction h using Nat.strong_induction_on generalizing lo hi node with
  | _ h ih =>
    match h, node, hnode with
    | 1, .leaf l, hleaf => exact insertLeaf_spec hleaf hkey hmax row fresh
    | h + 2, .inner keys children, ⟨_, hlength, hspans⟩ =>
      have hstep := fun lo hi c (hc : WellFormed compare maxKeys (h + 1) lo hi c)
        (hk : Between compare lo hi key) ↦ ih (h + 1) (by omega) hc hk
      obtain ⟨before, leaf, after, hlocated, hfind, houtcome⟩ := insertChild_spec hstep hspans hkey
      refine ⟨before, leaf, after, by simpa [leaves] using hlocated, by simpa [findLeaf] using hfind,
        ?_⟩
      rcases houtcome with ⟨hmem, herror⟩ | ⟨hnew, children', split, hok, hspans', ls, hleaves, hls⟩
      · exact .inl ⟨hmem, by simp [insertNode, herror]⟩
      · obtain ⟨hwell, hsame⟩ := absorbSplit_spec hlength (upperBound_le_length keys key) hspans'
        exact .inr ⟨hnew, _, _, by simp only [insertNode, hok], hwell, ls, hsame.trans hleaves, hls⟩

end BPlusTree

end SkibidiQL
