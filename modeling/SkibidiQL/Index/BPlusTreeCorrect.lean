import SkibidiQL.Index.BPlusTreeInvariant

/-!
# Correctness of the B+ tree

Over a linear order, a tree keeps `Invariant` under `insert`, and its operations answer from the
sorted list of the pairs it indexes (`entries`): `find` looks a key up in it, `range` takes the
consecutive pairs between two bounds, by following the chain of the leaves.

The results reach every comparison that orders the keys in use in `SkibidiQL.Index.BPlusTreeKeys`.
-/

namespace SkibidiQL

namespace BPlusTree

universe u

/-- The leaves visited from a leaf by following `next`. The fuel bounds their number. -/
def chain {κ : Type u} (heap : List (Leaf κ)) : Nat → Option (Leaf κ) → List (Leaf κ)
  | 0, _ => []
  | _ + 1, none => []
  | fuel + 1, some leaf => leaf :: chain heap fuel (deref heap leaf.next)

/-- The tree after the inserts `ops`, the throwing ones included. -/
def insertAll {κ : Type u} (cmp : κ → κ → Ordering) (tree : BPlusTree κ) (ops : List (κ × RowId)) :
    BPlusTree κ :=
  ops.foldl (fun tree op ↦ (tree.insert cmp op.1 op.2).1) tree

/-- The key is not above the optional inclusive bound `upper`. -/
def notAbove {κ : Type u} (cmp : κ → κ → Ordering) (upper : Option κ) (key : κ) : Bool :=
  upper.all fun u ↦ cmp key u != .gt

/-- The key satisfies the optional inclusive bounds of `range`. -/
def inRange {κ : Type u} (cmp : κ → κ → Ordering) (lower upper : Option κ) (key : κ) : Bool :=
  (lower.all fun l ↦ cmp key l != .lt) && notAbove cmp upper key

/-- The row that a list of pairs gives for `key`: the one of the first pair with that key. -/
def lookupRow {κ : Type u} (cmp : κ → κ → Ordering) (pairs : List (κ × RowId)) (key : κ) :
    Option RowId :=
  (pairs.find? fun p ↦ cmp p.1 key == .eq).map Prod.snd

/-! ### The chain of the leaves -/

section Chain

variable {κ : Type u}

/-- The later leaves of a chain are chained. -/
theorem Chained.of_append {xs ys : List (Leaf κ)} (h : Chained (xs ++ ys)) : Chained ys := by
  induction xs with
  | nil => exact h
  | cons x xs ih => exact ih h.2

/-- A chain may be continued by any chain that starts at the same address. -/
theorem Chained.append_replace {xs ys zs : List (Leaf κ)} (h : Chained (xs ++ ys))
    (hhead : zs.head?.map (·.addr) = ys.head?.map (·.addr)) (hzs : Chained zs) :
    Chained (xs ++ zs) := by
  induction xs with
  | nil => exact hzs
  | cons x xs ih =>
    refine ⟨?_, ih h.2⟩
    have hx := h.1
    cases xs with
    | nil => simpa [hhead] using hx
    | cons x' xs => simpa using hx

/-- The leaf that a chain links to is the one its list continues with. -/
theorem deref_next {heap before after : List (Leaf κ)} {leaf : Leaf κ}
    (hheap : heap = before ++ leaf :: after) (hchained : Chained heap)
    (hnodup : (heap.map (·.addr)).Nodup) : deref heap leaf.next = after.head? := by
  subst hheap
  have hnext : leaf.next = after.head?.map (·.addr) := (hchained.of_append).1
  rw [hnext]
  cases after with
  | nil => rfl
  | cons l after =>
    simp only [List.head?_cons, Option.map_some, deref, Option.bind_some, List.find?_append]
    have hdistinct : ∀ x ∈ before ++ [leaf], x.addr ≠ l.addr := by
      intro x hx hEq
      rw [show before ++ leaf :: l :: after = (before ++ [leaf]) ++ l :: after by simp,
        List.map_append, List.nodup_append] at hnodup
      exact hnodup.2.2 x.addr (List.mem_map_of_mem hx) l.addr (by simp) hEq
    have hbefore : before.find? (·.addr == l.addr) = none :=
      List.find?_eq_none.2 fun x hx ↦ by
        simpa using hdistinct x (List.mem_append_left _ hx)
    have hleaf : leaf.addr ≠ l.addr := hdistinct leaf (by simp)
    simp [hbefore, hleaf]

/-- Following the chain from a leaf visits the leaves from there on. -/
theorem chain_eq {heap : List (Leaf κ)} (hchained : Chained heap)
    (hnodup : (heap.map (·.addr)).Nodup) {before rest : List (Leaf κ)}
    (hheap : heap = before ++ rest) {fuel : Nat} (hfuel : rest.length ≤ fuel) :
    chain heap fuel rest.head? = rest := by
  induction rest generalizing before fuel with
  | nil => cases fuel <;> rfl
  | cons l rest ih =>
    obtain ⟨fuel, rfl⟩ : ∃ n, fuel = n + 1 := ⟨fuel - 1, by simp at hfuel; omega⟩
    simp only [List.head?_cons, chain, deref_next hheap hchained hnodup]
    have hnext : heap = (before ++ [l]) ++ rest := by simp [hheap]
    rw [ih hnext (by simpa using hfuel)]

/-- The first leaf of a node. -/
theorem frontLeaf_eq {cmp : κ → κ → Ordering} {maxKeys h : Nat} {lo hi : Option κ} {node : Node κ}
    (hnode : WellFormed cmp maxKeys h lo hi node) : frontLeaf node = (leaves node).head? := by
  induction h using Nat.strong_induction_on generalizing lo hi node with
  | _ h ih =>
    match h, node, hnode with
    | 1, .leaf l, _ => rfl
    | h + 2, .inner [] [c], ⟨_, _, hspans⟩ =>
      simp [frontLeaf, leaves, childLeaves, ih (h + 1) (by omega) hspans.2]
    | h + 2, .inner (k :: keys) (c :: children), ⟨_, _, hspans⟩ =>
      have hc := ih (h + 1) (by omega) hspans.2.1
      have hne : leaves c ≠ [] := (hspans.2.1).leaves_ne_nil
      simp [frontLeaf, leaves, childLeaves, hc, List.head?_append, List.head?_eq_some_head hne]

/-- Replacing one leaf in a chain keeps the chain, its addresses distinct and in use. -/
theorem Replaces.chain {leaf : Leaf κ} {key : κ} {row : RowId} {fresh : Nat}
    {ls before after : List (Leaf κ)} (hls : Replaces leaf key row fresh ls)
    (hchained : Chained (before ++ leaf :: after))
    (hnodup : ((before ++ leaf :: after).map (·.addr)).Nodup)
    (hfresh : ∀ l ∈ before ++ leaf :: after, l.addr < fresh) :
    Chained (before ++ ls ++ after) ∧ ((before ++ ls ++ after).map (·.addr)).Nodup ∧
      ∀ l ∈ before ++ ls ++ after, l.addr < fresh + 1 := by
  have hleaf := hchained.of_append
  rw [List.append_assoc]
  rcases hls.links with ⟨l, rfl, haddr, hnext⟩ | ⟨l, r, rfl, haddr, hnext, hraddr, hrnext⟩
  · refine ⟨?_, ?_, ?_⟩
    · exact hchained.append_replace (by simp [haddr]) ⟨hnext.trans hleaf.1, hleaf.2⟩
    · simpa [haddr] using hnodup
    · intro x hx
      simp only [List.mem_append, List.mem_cons, List.not_mem_nil, or_false] at hx hfresh
      grind
  · refine ⟨?_, ?_, ?_⟩
    · exact hchained.append_replace (by simp [haddr])
        ⟨by simp [hnext, hraddr], hrnext.trans hleaf.1, hleaf.2⟩
    · simp only [List.map_append, List.map_cons, haddr, hraddr, List.nodup_append,
        List.nodup_cons, List.mem_cons, List.mem_map, List.mem_append, List.cons_append, List.nil_append] at hnodup hfresh ⊢
      grind
    · intro x hx
      simp only [List.mem_append, List.mem_cons, List.not_mem_nil, or_false] at hx hfresh
      grind

end Chain

section LinearOrder

variable {κ : Type u} [LinearOrder κ]

/-! ### The pairs in key order -/

/-- The keys of the leaves of a span increase from leaf to leaf. -/
theorem Spans.leaves_sorted {P : Option κ → Option κ → Node κ → Prop}
    (hbetween : ∀ lo hi node, P lo hi node →
      ∀ l ∈ leaves node, ∀ k ∈ l.keys, Between compare lo hi k)
    (hsorted : ∀ lo hi node, P lo hi node → ((leaves node).flatMap (·.keys)).Pairwise (· < ·))
    {lo hi : Option κ} {keys : List κ} {children : List (Node κ)}
    (h : Spans compare P lo keys children hi) :
    ((childLeaves children).flatMap (·.keys)).Pairwise (· < ·) := by
  induction keys generalizing lo children with
  | nil =>
    rcases children with - | ⟨c, - | ⟨_, _⟩⟩
    · cases h
    · simpa [childLeaves] using hsorted lo hi c h.2
    · cases h
  | cons s keys ih =>
    rcases children with - | ⟨c, children⟩
    · cases h
    · obtain ⟨-, hc, hrest⟩ := h
      rw [childLeaves, List.flatMap_append]
      refine List.pairwise_append.2 ⟨hsorted lo _ c hc, ih hrest, fun x hx y hy ↦ ?_⟩
      obtain ⟨l, hl, hx⟩ := List.mem_flatMap.1 hx
      obtain ⟨r, hr, hy⟩ := List.mem_flatMap.1 hy
      have hleft := hbetween lo _ c hc l hl x hx
      have hright := hrest.leaves_between hbetween r hr y hy
      simp only [between_compare, Option.mem_some_iff, forall_eq'] at hleft hright
      exact lt_of_lt_of_le hleft.2 hright.1

/-- The keys of the leaves ascend. -/
theorem WellFormed.leaves_sorted {maxKeys h : Nat} {lo hi : Option κ} {node : Node κ}
    (hnode : WellFormed compare maxKeys h lo hi node) :
    ((leaves node).flatMap (·.keys)).Pairwise (· < ·) := by
  induction h using Nat.strong_induction_on generalizing lo hi node with
  | _ h ih =>
    match h, node, hnode with
    | 1, .leaf l, hleaf =>
      simpa [leaves, compare_lt_iff_lt] using hleaf.1
    | h + 2, .inner keys children, ⟨_, _, hspans⟩ =>
      exact hspans.leaves_sorted (fun _ _ _ ↦ WellFormed.leaves_between)
        fun lo hi c hc ↦ ih (h + 1) (by omega) hc

/-- The keys of the entries are those of the leaves. -/
theorem WellFormed.map_entries {maxKeys h : Nat} {lo hi : Option κ} {node : Node κ}
    (hnode : WellFormed compare maxKeys h lo hi node) :
    (entries node).map Prod.fst = (leaves node).flatMap (·.keys) := by
  rw [entries, List.map_flatMap]
  refine List.flatMap_congr fun l hl ↦ ?_
  rw [Leaf.entries, List.map_fst_zip]
  exact (hnode.rows_length l hl).ge

/-- The indexed pairs are in strictly increasing order of their keys. -/
theorem WellFormed.entries_sorted {maxKeys h : Nat} {lo hi : Option κ} {node : Node κ}
    (hnode : WellFormed compare maxKeys h lo hi node) :
    (entries node).Pairwise (·.1 < ·.1) := by
  rw [← List.pairwise_map (f := Prod.fst), hnode.map_entries]
  exact hnode.leaves_sorted

/-! ### Inserting -/

/-- What every tree built by `insert` satisfies. -/
structure Invariant (tree : BPlusTree κ) : Prop where
  three_le : 3 ≤ tree.maxKeys
  wellFormed : ∃ h, WellFormed compare tree.maxKeys h none none tree.root
  chained : Chained (leaves tree.root)
  addr_nodup : ((leaves tree.root).map (·.addr)).Nodup
  addr_lt : ∀ l ∈ leaves tree.root, l.addr < tree.fresh
  size_eq : tree.size = (entries tree.root).length

/-- The invariant holds of a new tree. -/
theorem invariant_new (maxKeys : Nat) : Invariant (new maxKeys : BPlusTree κ) where
  three_le := le_max_left 3 maxKeys
  wellFormed := ⟨1, by simp [new, WellFormed]⟩
  chained := by simp [new, leaves, Chained]
  addr_nodup := by simp [new, leaves]
  addr_lt := by simp [new, leaves]
  size_eq := by simp [new, leaves, entries, Leaf.entries]

omit [LinearOrder κ] in
theorem entries_of_leaves {node : Node κ} {ls : List (Leaf κ)} (h : leaves node = ls) :
    entries node = ls.flatMap Leaf.entries := by
  rw [entries, h]

/-- The keys of the tree that may equal `key` are those of the located leaf. -/
theorem Located.mem_keys {key : κ} {ls before after : List (Leaf κ)} {leaf : Leaf κ}
    (h : Located compare key ls before leaf after) :
    key ∈ ls.flatMap (·.keys) ↔ key ∈ leaf.keys := by
  rw [h.leaves_eq, List.flatMap_append, List.flatMap_cons, List.mem_append, List.mem_append]
  constructor
  · rintro (hk | hk | hk)
    · obtain ⟨l, hl, hk⟩ := List.mem_flatMap.1 hk
      exact absurd (compare_lt_iff_lt.1 (h.before_lt l hl key hk)) (lt_irrefl _)
    · exact hk
    · obtain ⟨l, hl, hk⟩ := List.mem_flatMap.1 hk
      exact absurd (compare_lt_iff_lt.1 (h.after_gt l hl key hk)) (lt_irrefl _)
  · exact fun hk ↦ .inr (.inl hk)

/-- One `insert`: it throws on an indexed key and changes nothing, and adds any other pair. -/
theorem insert_spec {tree : BPlusTree κ} (h : Invariant tree) (key : κ) (row : RowId) :
    (key ∈ (entries tree.root).map Prod.fst ∧
        insert compare tree key row = (tree, .error (lit "Duplicate B+ tree key"))) ∨
      (key ∉ (entries tree.root).map Prod.fst ∧ ∃ tree',
        insert compare tree key row = (tree', .ok ()) ∧ Invariant tree' ∧
        ∃ below above, entries tree.root = below ++ above ∧
          entries tree'.root = below ++ (key, row) :: above) := by
  obtain ⟨height, hwell⟩ := h.wellFormed
  obtain ⟨before, leaf, after, hlocated, -, houtcome⟩ := insertNode_spec hwell
    (by simp : Between compare none none key) h.three_le row tree.fresh
  rw [hwell.map_entries, hlocated.mem_keys]
  rcases houtcome with ⟨hmem, herror⟩ | ⟨hnew, root, split, hok, hsplit, ls, hleaves, hls⟩
  · exact .inl ⟨hmem, by simp [insert, herror]⟩
  refine .inr ⟨hnew, ?_⟩
  have hchained := h.chained
  have hnodup := h.addr_nodup
  have hfresh := h.addr_lt
  rw [hlocated.leaves_eq] at hchained hnodup hfresh
  obtain ⟨hchained', hnodup', hfresh'⟩ := hls.chain hchained hnodup hfresh
  obtain ⟨below, above, hold, hnew'⟩ := hls.entries
  -- The pair goes between the entries of its leaf, whatever root the leaves end up under.
  have hentries : ∀ root' : Node κ, leaves root' = before ++ ls ++ after →
      entries tree.root = (before.flatMap Leaf.entries ++ below) ++
        (above ++ after.flatMap Leaf.entries) ∧
      entries root' = (before.flatMap Leaf.entries ++ below) ++ (key, row) ::
        (above ++ after.flatMap Leaf.entries) := fun root' hroot' ↦
    ⟨by simp [entries_of_leaves hlocated.leaves_eq, hold],
      by simp [entries_of_leaves hroot', hnew', List.flatMap_append]⟩
  have hinvariant : ∀ root' : Node κ, leaves root' = before ++ ls ++ after →
      (∃ height, WellFormed compare tree.maxKeys height none none root') →
      Invariant { tree with root := root', size := tree.size + 1, fresh := tree.fresh + 1 } :=
    fun root' hroot' hwell' ↦
    { three_le := h.three_le
      wellFormed := hwell'
      chained := hroot' ▸ hchained'
      addr_nodup := hroot' ▸ hnodup'
      addr_lt := hroot' ▸ hfresh'
      size_eq := by
        obtain ⟨hbefore, hafter⟩ := hentries root' hroot'
        have hsize := h.size_eq
        rw [hbefore] at hsize
        simp [hsize, hafter, Nat.add_assoc] }
  -- A split that reaches the root makes a new one above it.
  cases split with
  | none =>
    simp only [outcomeLeaves, Option.elim, List.append_nil] at hleaves
    exact ⟨_, by simp only [insert, hok], hinvariant root hleaves ⟨height, hsplit⟩, _, _,
      hentries root hleaves⟩
  | some s =>
    have hroot' : leaves (.inner [s.separator] [root, s.right]) = before ++ ls ++ after := by
      simpa [leaves, childLeaves, outcomeLeaves] using hleaves
    have hwell' : ∃ height, WellFormed compare tree.maxKeys height none none
        (.inner [s.separator] [root, s.right]) := by
      obtain ⟨height, rfl⟩ : ∃ n, height = n + 1 := by
        cases height with
        | zero => cases hwell
        | succ n => exact ⟨n, rfl⟩
      refine ⟨height + 2, by simp, ?_, hsplit.1, hsplit.2.2.1, hsplit.2.1, hsplit.2.2.2⟩
      simpa using (by have := h.three_le; omega : 1 ≤ tree.maxKeys)
    exact ⟨_, by simp only [insert, hok], hinvariant _ hroot' hwell', _, _, hentries _ hroot'⟩

/-! ### Looking up -/

/-- The pairs of a leaf, cut where the search for `key` in the leaf ends. -/
theorem Located.cut {key : κ} {ls before after : List (Leaf κ)} {leaf : Leaf κ}
    (h : Located compare key ls before leaf after) :
    (∀ p ∈ leaf.entries.take (lowerBound compare leaf.keys key), p.1 < key) ∧
      (∀ p ∈ leaf.entries.drop (lowerBound compare leaf.keys key), key ≤ p.1) := by
  obtain ⟨below, above, hkeys, hposition, hbelow, habove⟩ := lowerBound_split h.sorted key
  have htake : ∀ p ∈ leaf.entries.take below.length, p.1 ∈ below := by
    intro p hp
    have hmem := List.mem_map_of_mem (f := Prod.fst) hp
    rw [List.map_take, Leaf.entries, List.map_fst_zip h.rows_length.ge, hkeys,
      List.take_left] at hmem
    exact hmem
  have hdrop : ∀ p ∈ leaf.entries.drop below.length, p.1 ∈ above := by
    intro p hp
    have hmem := List.mem_map_of_mem (f := Prod.fst) hp
    rw [List.map_drop, Leaf.entries, List.map_fst_zip h.rows_length.ge, hkeys,
      List.drop_left] at hmem
    exact hmem
  rw [hposition]
  exact ⟨fun p hp ↦ hbelow _ (htake p hp), fun p hp ↦ habove _ (hdrop p hp)⟩

/-- The indexed pairs around the position that the search for `key` ends at. -/
theorem Located.entries_cut {key : κ} {node : Node κ} {before after : List (Leaf κ)}
    {leaf : Leaf κ} (h : Located compare key (leaves node) before leaf after) :
    ∃ below, entries node = below ++
        (leaf.entries.drop (lowerBound compare leaf.keys key) ++ after.flatMap Leaf.entries) ∧
      (∀ p ∈ below, p.1 < key) ∧
      ∀ p ∈ leaf.entries.drop (lowerBound compare leaf.keys key) ++ after.flatMap Leaf.entries,
        key ≤ p.1 := by
  refine ⟨before.flatMap Leaf.entries ++ leaf.entries.take (lowerBound compare leaf.keys key),
    ?_, ?_, ?_⟩
  · simp [entries_of_leaves h.leaves_eq, ← List.append_assoc _ (leaf.entries.drop _)]
  · intro p hp
    rcases List.mem_append.1 hp with hp | hp
    · obtain ⟨l, hl, hp⟩ := List.mem_flatMap.1 hp
      exact compare_lt_iff_lt.1 (h.before_lt l hl p.1 (List.of_mem_zip hp).1)
    · exact h.cut.1 p hp
  · intro p hp
    rcases List.mem_append.1 hp with hp | hp
    · exact h.cut.2 p hp
    · obtain ⟨l, hl, hp⟩ := List.mem_flatMap.1 hp
      exact le_of_lt (compare_lt_iff_lt.1 (h.after_gt l hl p.1 (List.of_mem_zip hp).1))

/-- The search for a key ends at a leaf of the tree. -/
theorem Invariant.located {tree : BPlusTree κ} (h : Invariant tree) (key : κ) :
    ∃ before leaf after, Located compare key (leaves tree.root) before leaf after ∧
      findLeaf compare key tree.root = some leaf := by
  obtain ⟨height, hwell⟩ := h.wellFormed
  obtain ⟨before, leaf, after, hlocated, hfind, -⟩ := insertNode_spec hwell
    (by simp : Between compare none none key) h.three_le ⟨0, 0⟩ 0
  exact ⟨before, leaf, after, hlocated, hfind⟩

theorem Invariant.entries_sorted {tree : BPlusTree κ} (h : Invariant tree) :
    (entries tree.root).Pairwise (·.1 < ·.1) :=
  h.wellFormed.elim fun _ hwell ↦ hwell.entries_sorted

/-- In a sorted list whose keys are not below `key`, only the first pair can be the one of `key`. -/
theorem find?_eq_head? {pairs : List (κ × RowId)} {key : κ}
    (hsorted : pairs.Pairwise (·.1 < ·.1)) (hle : ∀ p ∈ pairs, key ≤ p.1) :
    pairs.find? (fun p ↦ compare p.1 key == .eq) =
      pairs.head?.filter fun p ↦ compare p.1 key == .eq := by
  cases pairs with
  | nil => rfl
  | cons p pairs =>
    by_cases hp : compare p.1 key = .eq
    · simp [hp, Option.filter_some]
    · have hlt : key < p.1 := lt_of_le_of_ne (hle p List.mem_cons_self)
        fun hEq ↦ hp (compare_eq_iff_eq.2 hEq.symm)
      have hrest : ∀ q ∈ pairs, ¬(compare q.1 key == .eq) = true := by
        intro q hq hEq
        have hq := lt_trans hlt ((List.pairwise_cons.1 hsorted).1 q hq)
        exact absurd (compare_eq_iff_eq.1 (by simpa using hEq)) hq.ne'
      simp [hp, List.find?_eq_none.2 hrest, Option.filter_some]

/-- `find` looks the key up among the indexed pairs. -/
theorem find_eq {tree : BPlusTree κ} (h : Invariant tree) (key : κ) :
    find compare tree key = lookupRow compare (entries tree.root) key := by
  obtain ⟨before, leaf, after, hlocated, hfind⟩ := h.located key
  obtain ⟨below, hentries, hbelow, -⟩ := hlocated.entries_cut
  have hsorted := h.entries_sorted
  rw [hentries, ← List.append_assoc] at hsorted
  -- The key can only be in the located leaf: smaller keys stand in front and larger ones behind.
  have hbelowNone : below.find? (fun p ↦ compare p.1 key == .eq) = none :=
    List.find?_eq_none.2 fun p hp hEq ↦
      absurd (compare_eq_iff_eq.1 (by simpa using hEq)) (hbelow p hp).ne
  have hafterNone : (after.flatMap Leaf.entries).find? (fun p ↦ compare p.1 key == .eq) = none := by
    refine List.find?_eq_none.2 fun p hp hEq ↦ ?_
    obtain ⟨l, hl, hp⟩ := List.mem_flatMap.1 hp
    have hgt := compare_lt_iff_lt.1 (hlocated.after_gt l hl p.1 (List.of_mem_zip hp).1)
    exact absurd (compare_eq_iff_eq.1 (by simpa using hEq)) hgt.ne'
  have hsortedLeaf := (List.pairwise_append.1 (List.pairwise_append.1 hsorted).1).2.1
  rw [lookupRow, hentries, List.find?_append, hbelowNone, Option.none_or, List.find?_append,
    hafterNone, Option.or_none, find?_eq_head? hsortedLeaf hlocated.cut.2, List.head?_drop]
  simp only [find, hfind]
  set position := lowerBound compare leaf.keys key
  by_cases hposition : position < leaf.keys.length
  · have hrow : position < leaf.rows.length := hlocated.rows_length.ge.trans_lt' hposition
    have hpair : leaf.entries[position]? = some (leaf.keys[position], leaf.rows[position]) :=
      List.getElem?_zip_eq_some.2 ⟨List.getElem?_eq_getElem hposition, List.getElem?_eq_getElem hrow⟩
    rw [List.getElem?_eq_getElem hposition, hpair, Option.filter_some,
      List.getElem?_eq_getElem hrow]
    by_cases hEq : compare leaf.keys[position] key = .eq <;> simp [hEq]
  · have hnone : leaf.keys[position]? = none := List.getElem?_eq_none (not_lt.1 hposition)
    have hpair : leaf.entries[position]? = none := by
      refine List.getElem?_eq_none ?_
      rw [Leaf.entries, List.length_zip]
      omega
    simp [hnone, hpair]

/-! ### Ranges -/

/-- The keys up to a bound come first in a sorted list. -/
theorem takeWhile_notAbove {pairs : List (κ × RowId)} (hsorted : pairs.Pairwise (·.1 < ·.1))
    (upper : Option κ) :
    pairs.takeWhile (fun p ↦ notAbove compare upper p.1) =
      pairs.filter fun p ↦ notAbove compare upper p.1 := by
  induction pairs with
  | nil => rfl
  | cons p pairs ih =>
    obtain ⟨hp, hpairs⟩ := List.pairwise_cons.1 hsorted
    by_cases hin : notAbove compare upper p.1
    · simp [hin, ih hpairs]
    · cases upper with
      | none => exact absurd rfl hin
      | some u =>
        have hout : ∀ q ∈ pairs, ¬notAbove compare (some u) q.1 = true := by
          intro q hq
          have hlt : u < p.1 := by simpa [notAbove, compare_gt_iff_gt] using hin
          simpa [notAbove, compare_gt_iff_gt] using lt_trans hlt (hp q hq)
        simp [hin, List.filter_eq_nil_iff.2 hout]

omit [LinearOrder κ] in
/-- The inner loop pushes the rows of the keys up to the bound, and stops early at the first key
above it. -/
theorem scanLeaf_eq (cmp : κ → κ → Ordering) (upper : Option κ) (keys : List κ)
    (rows : List RowId) :
    scanLeaf cmp upper keys rows =
      (((keys.zip rows).takeWhile fun p ↦ notAbove cmp upper p.1).map Prod.snd,
        !(keys.zip rows).all fun p ↦ notAbove cmp upper p.1) := by
  induction keys generalizing rows with
  | nil => simp [scanLeaf]
  | cons key keys ih =>
    cases rows with
    | nil => simp [scanLeaf]
    | cons row rows =>
      have hnot : (upper.any fun u ↦ cmp key u == .gt) = !notAbove cmp upper key := by
        cases upper <;> simp [notAbove, bne]
      rw [scanLeaf, hnot, ih]
      by_cases hin : notAbove cmp upper key <;> simp [hin]

omit [LinearOrder κ] in
/-- The outer loop, from position `start` of the first leaf of `rest`. -/
theorem walk_eq (cmp : κ → κ → Ordering) {heap : List (Leaf κ)} (hchained : Chained heap)
    (hnodup : (heap.map (·.addr)).Nodup) (upper : Option κ) {before rest : List (Leaf κ)}
    (hheap : heap = before ++ rest) {fuel : Nat} (hfuel : rest.length ≤ fuel) (start : Nat) :
    walk cmp heap upper fuel rest.head? start =
      (((rest.head?.elim [] fun l ↦ l.entries.drop start) ++
        rest.tail.flatMap Leaf.entries).takeWhile fun p ↦ notAbove cmp upper p.1).map Prod.snd := by
  induction rest generalizing before fuel start with
  | nil => cases fuel <;> rfl
  | cons l rest ih =>
    obtain ⟨fuel, rfl⟩ : ∃ n, fuel = n + 1 := ⟨fuel - 1, by simp at hfuel; omega⟩
    have hdrop : (l.keys.drop start).zip (l.rows.drop start) = l.entries.drop start := by
      simp [Leaf.entries, List.zip, List.drop_zipWith]
    have hheap' : heap = (before ++ [l]) ++ rest := by simp [hheap]
    have hrest := ih hheap' (by simpa using hfuel) 0
    simp only [List.head?_cons, walk, scanLeaf_eq, hdrop, deref_next hheap hchained hnodup, hrest]
    -- The walk goes on to the next leaf only when no entry of this one is above the bound.
    by_cases hall : (l.entries.drop start).all fun p ↦ notAbove cmp upper p.1
    · have hfirst := List.all_eq_true.1 hall
      have htake : (l.entries.drop start).takeWhile (fun p ↦ notAbove cmp upper p.1) =
          l.entries.drop start := by
        have happend := @List.takeWhile_append_of_pos _ _ _ [] hfirst
        simpa using happend
      rw [hall, List.tail_cons, Option.elim_some, List.takeWhile_append_of_pos hfirst]
      cases rest <;> simp [htake]
    · have hshort : ((l.entries.drop start).takeWhile fun p ↦ notAbove cmp upper p.1).length ≠
          (l.entries.drop start).length := fun hlength ↦ by
        have hself := (List.takeWhile_prefix _).eq_of_length hlength
        exact hall (hself ▸ List.all_takeWhile)
      have htake : (l.entries.drop start ++ rest.flatMap Leaf.entries).takeWhile
          (fun p ↦ notAbove cmp upper p.1) =
          (l.entries.drop start).takeWhile fun p ↦ notAbove cmp upper p.1 :=
        List.takeWhile_append.trans (if_neg hshort)
      simp only [List.tail_cons, Option.elim_some, htake, Bool.eq_false_of_not_eq_true hall,
        Bool.not_false]

/-- `range` returns the rows of the indexed keys within the bounds, in key order. -/
theorem range_eq {tree : BPlusTree κ} (h : Invariant tree) (lower upper : Option κ) :
    range compare tree lower upper =
      ((entries tree.root).filter fun p ↦ inRange compare lower upper p.1).map Prod.snd := by
  have hsorted := h.entries_sorted
  cases lower with
  | none =>
    obtain ⟨height, hwell⟩ := h.wellFormed
    have hwalk := walk_eq compare h.chained h.addr_nodup upper
      (List.nil_append (leaves tree.root)).symm le_rfl 0
    simp only [range, frontLeaf_eq hwell, hwalk, inRange, Option.all_none, Bool.true_and]
    rw [← takeWhile_notAbove hsorted]
    congr 2
    cases hleaves : leaves tree.root with
    | nil => exact absurd hleaves hwell.leaves_ne_nil
    | cons l ls => simp [entries, hleaves]
  | some key =>
    obtain ⟨before, leaf, after, hlocated, hfind⟩ := h.located key
    obtain ⟨below, hentries, hbelow, habove⟩ := hlocated.entries_cut
    have hlength : (leaf :: after).length ≤ (leaves tree.root).length := by
      rw [hlocated.leaves_eq]
      simp
    have hwalk := walk_eq compare h.chained h.addr_nodup upper hlocated.leaves_eq hlength
      (lowerBound compare leaf.keys key)
    rw [hentries] at hsorted
    -- The walk starts inside the located leaf: all in front of it is below the bound, all from it on is not.
    have hbelowNone : below.filter (fun p ↦ inRange compare (some key) upper p.1) = [] :=
      List.filter_eq_nil_iff.2 fun p hp ↦ by
        simp [inRange, compare_lt_iff_lt.2 (hbelow p hp)]
    have haboveFilter : ∀ p ∈ leaf.entries.drop (lowerBound compare leaf.keys key) ++
        after.flatMap Leaf.entries,
        inRange compare (some key) upper p.1 = notAbove compare upper p.1 := by
      intro p hp
      have hnot : compare p.1 key ≠ .lt := fun hlt ↦
        absurd (compare_lt_iff_lt.1 hlt) (not_lt.2 (habove p hp))
      simp [inRange, hnot]
    simp only [range, hfind, Option.elim_some]
    rw [hentries, List.filter_append, hbelowNone, List.nil_append, List.filter_congr haboveFilter,
      ← takeWhile_notAbove (List.pairwise_append.1 hsorted).2.1]
    simpa using hwalk

end LinearOrder

end BPlusTree

end SkibidiQL
