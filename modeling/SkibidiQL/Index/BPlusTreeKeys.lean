import SkibidiQL.Index.BPlusTreeCorrect
import Mathlib.Data.List.InsertIdx
import Mathlib.Order.Antisymmetrization

/-!
# B+ trees over the keys of a domain

A map of the keys that preserves the comparison commutes with every operation of the tree
(`insert_map`, `find_map`, `range_map`). A comparison that is a total preorder on a set `D` of keys,
whatever it does elsewhere, therefore gives trees that behave on `D` like trees over a linear order
(`indexes_insertAll`): embed `D` in the key type, and collapse its equivalent keys.

`Indexes cmp D tree pairs` is the contract of the component: the tree answers every query with keys
of `D` from the sorted list `pairs`.
-/

namespace SkibidiQL

namespace BPlusTree

universe u

section Map

variable {κ ι : Type u} (f : κ → ι)

/-- The leaf with its keys mapped. -/
def Leaf.map (l : Leaf κ) : Leaf ι where
  addr := l.addr
  keys := l.keys.map f
  rows := l.rows
  next := l.next

mutual

/-- The node with all its keys mapped. -/
def Node.map : Node κ → Node ι
  | .leaf l => .leaf (l.map f)
  | .inner keys children => .inner (keys.map f) (mapChildren children)

/-- The children with all their keys mapped. -/
def mapChildren : List (Node κ) → List (Node ι)
  | [] => []
  | c :: cs => Node.map c :: mapChildren cs

end

/-- The split with all its keys mapped. -/
def Split.map (s : Split κ) : Split ι :=
  ⟨f s.separator, s.right.map f⟩

/-- The outcome with all its keys mapped. -/
def Outcome.map (outcome : Outcome κ) : Outcome ι :=
  (outcome.1.map f, Functor.map (Option.map (Split.map f)) outcome.2)

/-- The tree with all its keys mapped. -/
def map (tree : BPlusTree κ) : BPlusTree ι where
  maxKeys := tree.maxKeys
  size := tree.size
  root := tree.root.map f
  fresh := tree.fresh

variable {f} {cmp : κ → κ → Ordering} {cmp' : ι → ι → Ordering}
  (hf : ∀ a b, cmp' (f a) (f b) = cmp a b)

/-- Mapping the children is mapping a list. -/
theorem mapChildren_eq (children : List (Node κ)) :
    mapChildren f children = children.map (Node.map f) := by
  induction children with
  | nil => rfl
  | cons c cs ih => simp [mapChildren, ih]

mutual

/-- The leaves of a mapped node are the mapped leaves. -/
theorem leaves_map : ∀ node : Node κ, leaves (node.map f) = (leaves node).map (Leaf.map f)
  | .leaf l => rfl
  | .inner keys children => by
    rw [Node.map, leaves, leaves, childLeaves_map children]

theorem childLeaves_map : ∀ children : List (Node κ),
    childLeaves (mapChildren f children) = (childLeaves children).map (Leaf.map f)
  | [] => rfl
  | c :: cs => by
    rw [mapChildren, childLeaves, childLeaves, leaves_map c, childLeaves_map cs, List.map_append]

end

include hf

/-- A search goes to the same place under a map that keeps the order. -/
theorem lowerBound_map (keys : List κ) (key : κ) :
    lowerBound cmp' (keys.map f) (f key) = lowerBound cmp keys key := by
  simp only [lowerBound, List.takeWhile_map, Function.comp_def, hf, List.length_map]

/-- A search behind equal keys goes to the same place under such a map. -/
theorem upperBound_map (keys : List κ) (key : κ) :
    upperBound cmp' (keys.map f) (f key) = upperBound cmp keys key := by
  simp only [upperBound, List.takeWhile_map, Function.comp_def, hf, List.length_map]

/-- Inserting into a leaf commutes with the map. -/
theorem insertLeaf_map (maxKeys : Nat) (leaf : Leaf κ) (key : κ) (row : RowId) (fresh : Nat) :
    insertLeaf cmp' maxKeys (leaf.map f) (f key) row fresh =
      Outcome.map f (insertLeaf cmp maxKeys leaf key row fresh) := by
  have hposition : lowerBound cmp' (leaf.map f).keys (f key) = lowerBound cmp leaf.keys key :=
    lowerBound_map hf leaf.keys key
  have hlookup : ((leaf.map f).keys[lowerBound cmp leaf.keys key]?).any
      (fun k ↦ cmp' k (f key) == .eq) =
      (leaf.keys[lowerBound cmp leaf.keys key]?).any fun k ↦ cmp k key == .eq := by
    rw [Leaf.map, List.getElem?_map]
    cases leaf.keys[lowerBound cmp leaf.keys key]? <;> simp [hf]
  have hkeys : (leaf.map f).keys.insertIdx (lowerBound cmp leaf.keys key) (f key) =
      (leaf.keys.insertIdx (lowerBound cmp leaf.keys key) key).map f :=
    (List.map_insertIdx f leaf.keys _ key).symm
  simp only [insertLeaf, hposition, hlookup, hkeys, List.length_map]
  split_ifs with hdup hfits
  · rfl
  · rfl
  · simp only [← List.map_drop, ← List.map_take]
    rcases (leaf.keys.insertIdx (lowerBound cmp leaf.keys key) key).drop
      ((leaf.keys.insertIdx (lowerBound cmp leaf.keys key) key).length / 2) with - | ⟨s, rest⟩ <;> rfl

omit hf in
/-- Taking up a split commutes with the map. -/
theorem absorbSplit_map (maxKeys : Nat) (keys : List κ) (children : List (Node κ))
    (childIndex : Nat) (split : Option (Split κ)) :
    absorbSplit maxKeys (keys.map f) (children.map (Node.map f)) childIndex
        (split.map (Split.map f)) =
      ((absorbSplit maxKeys keys children childIndex split).1.map f,
        (absorbSplit maxKeys keys children childIndex split).2.map (Split.map f)) := by
  cases split with
  | none => simp [absorbSplit, Node.map, mapChildren_eq]
  | some s =>
    simp only [absorbSplit, Option.map_some, Split.map, ← List.map_insertIdx, List.length_map,
      List.getElem?_map]
    split_ifs with hfits
    · simp [Node.map, mapChildren_eq]
    · rcases (keys.insertIdx childIndex s.separator)[
        (keys.insertIdx childIndex s.separator).length / 2]? with - | separator
      · simp [Node.map, mapChildren_eq]
      · simp [Node.map, mapChildren_eq, Split.map, List.map_take, List.map_drop]

set_option linter.unusedSectionVars false in
mutual

/-- Inserting into a node commutes with the map. -/
theorem insertNode_map (maxKeys : Nat) (key : κ) (row : RowId) (fresh : Nat) : ∀ node : Node κ,
    insertNode cmp' maxKeys (f key) row fresh (node.map f) =
      Outcome.map f (insertNode cmp maxKeys key row fresh node)
  | .leaf l => insertLeaf_map hf maxKeys l key row fresh
  | .inner keys children => by
    have hchild := insertChild_map maxKeys key row fresh children (upperBound cmp keys key)
    simp only [Node.map, insertNode, upperBound_map hf, hchild]
    rcases insertChild cmp maxKeys key row fresh children (upperBound cmp keys key) with
      ⟨children', e | split⟩
    · rfl
    · have habsorb := absorbSplit_map (f := f) maxKeys keys children' (upperBound cmp keys key) split
      rw [← mapChildren_eq] at habsorb
      simp only [Functor.map, Except.map, habsorb, Outcome.map]

/-- Inserting into a child commutes with the map. -/
theorem insertChild_map (maxKeys : Nat) (key : κ) (row : RowId) (fresh : Nat) :
    ∀ (children : List (Node κ)) (i : Nat),
      insertChild cmp' maxKeys (f key) row fresh (mapChildren f children) i =
        (mapChildren f (insertChild cmp maxKeys key row fresh children i).1,
          Functor.map (Option.map (Split.map f))
            (insertChild cmp maxKeys key row fresh children i).2)
  | [], _ => rfl
  | c :: cs, 0 => by
    simp only [mapChildren, insertChild, insertNode_map maxKeys key row fresh c, Outcome.map]
  | c :: cs, i + 1 => by
    simp only [mapChildren, insertChild, insertChild_map maxKeys key row fresh cs i]

end

set_option linter.unusedSectionVars false in
mutual

/-- The leaf that is found is the mapped leaf. -/
theorem findLeaf_map (key : κ) : ∀ node : Node κ,
    findLeaf cmp' (f key) (node.map f) = (findLeaf cmp key node).map (Leaf.map f)
  | .leaf l => rfl
  | .inner keys children => by
    simp only [Node.map, findLeaf, upperBound_map hf]
    exact findLeafChild_map key children _

theorem findLeafChild_map (key : κ) : ∀ (children : List (Node κ)) (i : Nat),
    findLeafChild cmp' (f key) (mapChildren f children) i =
      (findLeafChild cmp key children i).map (Leaf.map f)
  | [], _ => rfl
  | c :: _, 0 => findLeaf_map key c
  | _ :: cs, i + 1 => findLeafChild_map key cs i

end

/-- `insert` commutes with a map of the keys that preserves the comparison. -/
theorem insert_map (tree : BPlusTree κ) (key : κ) (row : RowId) :
    (tree.map f).insert cmp' (f key) row =
      ((tree.insert cmp key row).1.map f, (tree.insert cmp key row).2) := by
  have hnode := insertNode_map hf tree.maxKeys key row tree.fresh tree.root
  simp only [insert, map, hnode]
  rcases insertNode cmp tree.maxKeys key row tree.fresh tree.root with ⟨root, e | (- | split)⟩
  · rfl
  · rfl
  · rfl

/-- `find` commutes with a map of the keys that preserves the comparison. -/
theorem find_map (tree : BPlusTree κ) (key : κ) :
    (tree.map f).find cmp' (f key) = tree.find cmp key := by
  simp only [find, map, findLeaf_map hf]
  rcases findLeaf cmp key tree.root with - | leaf
  · rfl
  · have hposition : lowerBound cmp' (leaf.map f).keys (f key) = lowerBound cmp leaf.keys key :=
      lowerBound_map hf leaf.keys key
    simp only [Option.map_some, hposition]
    simp only [Leaf.map, List.getElem?_map]
    rcases leaf.keys[lowerBound cmp leaf.keys key]? with - | found
    · rfl
    · simp [hf]

omit hf in
/-- Following a pointer commutes with the map. -/
theorem deref_map (heap : List (Leaf κ)) (addr : Option Nat) :
    deref (heap.map (Leaf.map f)) addr = (deref heap addr).map (Leaf.map f) := by
  cases addr with
  | none => rfl
  | some a => simp [deref, List.find?_map, Function.comp_def, Leaf.map]

/-- Scanning a leaf finds the same rows. -/
theorem scanLeaf_map (upper : Option κ) (keys : List κ) (rows : List RowId) :
    scanLeaf cmp' (upper.map f) (keys.map f) rows = scanLeaf cmp upper keys rows := by
  induction keys generalizing rows with
  | nil => simp [scanLeaf]
  | cons key keys ih =>
    cases rows with
    | nil => simp [scanLeaf]
    | cons row rows =>
      rw [List.map_cons, scanLeaf, scanLeaf, ih]
      cases upper <;> simp [hf]

/-- Walking along the leaves finds the same rows. -/
theorem walk_map (heap : List (Leaf κ)) (upper : Option κ) (fuel : Nat) (leaf : Option (Leaf κ))
    (start : Nat) :
    walk cmp' (heap.map (Leaf.map f)) (upper.map f) fuel (leaf.map (Leaf.map f)) start =
      walk cmp heap upper fuel leaf start := by
  induction fuel generalizing leaf start with
  | zero => rfl
  | succ fuel ih =>
    cases leaf with
    | none => rfl
    | some leaf =>
      have hscan := scanLeaf_map hf upper (leaf.keys.drop start) (leaf.rows.drop start)
      rw [List.map_drop] at hscan
      simp only [Option.map_some, walk, deref_map, Leaf.map, hscan, ih]

omit hf in
/-- The first leaf of a mapped node is the mapped first leaf. -/
theorem frontLeaf_map : ∀ node : Node κ,
    frontLeaf (node.map f) = (frontLeaf node).map (Leaf.map f)
  | .leaf _ => rfl
  | .inner _ [] => rfl
  | .inner _ (c :: _) => frontLeaf_map c

/-- `range` commutes with a map of the keys that preserves the comparison. -/
theorem range_map (tree : BPlusTree κ) (lower upper : Option κ) :
    (tree.map f).range cmp' (lower.map f) (upper.map f) = tree.range cmp lower upper := by
  cases lower with
  | none =>
    have hwalk := walk_map hf (leaves tree.root) upper (leaves tree.root).length
      (frontLeaf tree.root) 0
    simpa [range, map, leaves_map, frontLeaf_map] using hwalk
  | some key =>
    have hwalk := walk_map hf (leaves tree.root) upper (leaves tree.root).length
      (findLeaf cmp key tree.root)
      ((findLeaf cmp key tree.root).elim 0 fun l ↦ lowerBound cmp l.keys key)
    have hstart : (Option.map (Leaf.map f) (findLeaf cmp key tree.root)).elim 0
        (fun l ↦ lowerBound cmp' l.keys (f key)) =
        (findLeaf cmp key tree.root).elim 0 fun l ↦ lowerBound cmp l.keys key := by
      cases findLeaf cmp key tree.root with
      | none => rfl
      | some l => exact lowerBound_map hf l.keys key
    simpa [range, map, leaves_map, findLeaf_map hf, hstart] using hwalk

theorem between_map (lo hi : Option κ) (key : κ) :
    Between cmp' (lo.map f) (hi.map f) (f key) ↔ Between cmp lo hi key := by
  simp [Between, hf]

theorem bounds_map (lo hi : Option κ) :
    Bounds cmp' (lo.map f) (hi.map f) ↔ Bounds cmp lo hi := by
  simp [Bounds, hf]

/-- What the children span is kept and reflected. -/
theorem spans_map {P' : Option ι → Option ι → Node ι → Prop} {P : Option κ → Option κ → Node κ → Prop}
    (hP : ∀ lo hi c, P' (lo.map f) (hi.map f) (c.map f) ↔ P lo hi c) (lo hi : Option κ)
    (keys : List κ) (children : List (Node κ)) :
    Spans cmp' P' (lo.map f) (keys.map f) (children.map (Node.map f)) (hi.map f) ↔
      Spans cmp P lo keys children hi := by
  induction keys generalizing lo children with
  | nil =>
    match children with
    | [] => simp [Spans]
    | [c] => simp [Spans, hP, bounds_map hf]
    | _ :: _ :: _ => simp [Spans]
  | cons k keys ih =>
    match children with
    | [] => simp [Spans]
    | c :: children =>
      have hbounds := bounds_map hf lo (some k)
      have hc := hP lo (some k) c
      have hrest := ih (some k) children
      simp only [Option.map_some] at hbounds hc hrest
      simp [Spans, hbounds, hc, hrest]

/-- A mapped node is well formed exactly when the node is. -/
theorem wellFormed_map (maxKeys h : Nat) (lo hi : Option κ) (node : Node κ) :
    WellFormed cmp' maxKeys h (lo.map f) (hi.map f) (node.map f) ↔
      WellFormed cmp maxKeys h lo hi node := by
  induction h using Nat.strong_induction_on generalizing lo hi node with
  | _ h ih =>
    match h, node with
    | 0, _ => simp [WellFormed]
    | 1, .leaf l => simp [WellFormed, Node.map, Leaf.map, List.pairwise_map, hf, between_map hf]
    | 1, .inner _ _ => simp [WellFormed, Node.map]
    | _ + 2, .leaf _ => simp [WellFormed, Node.map]
    | h + 2, .inner keys children =>
      simp [WellFormed, Node.map, mapChildren_eq, List.pairwise_map, hf,
        spans_map hf (fun lo hi c ↦ ih (h + 1) (by omega) lo hi c)]

end Map

/-! ### The contract -/

section Contract

variable {κ : Type u} (cmp : κ → κ → Ordering)

/-- Storing a pair, unless its key is already stored. -/
def insertPair (pairs : List (κ × RowId)) (op : κ × RowId) : List (κ × RowId) :=
  if (lookupRow cmp pairs op.1).isSome then pairs else pairs ++ [op]

/-- The pairs that a run of inserts stores, in the order of their inserts. -/
def inserted (ops : List (κ × RowId)) : List (κ × RowId) :=
  ops.foldl (insertPair cmp) []

/-- The tree indexes exactly `pairs`: it is well formed, and it answers every query about keys of `D`
from the sorted list `pairs`. -/
structure Indexes (D : Set κ) (tree : BPlusTree κ) (pairs : List (κ × RowId)) : Prop where
  /-- All leaves are at one depth; every node is sorted, small enough and between the separators
  around it. -/
  wellFormed : ∃ h, WellFormed cmp tree.maxKeys h none none tree.root
  sorted : pairs.Pairwise (cmp ·.1 ·.1 = .lt)
  /-- Following `next` from the first leaf visits every key exactly once. -/
  chain_eq : ∀ fuel, (leaves tree.root).length ≤ fuel →
    (chain (leaves tree.root) fuel (frontLeaf tree.root)).flatMap (·.keys) = pairs.map Prod.fst
  find_eq : ∀ key ∈ D, tree.find cmp key = lookupRow cmp pairs key
  range_eq : ∀ lower upper : Option κ, (∀ l ∈ lower, l ∈ D) → (∀ u ∈ upper, u ∈ D) →
    tree.range cmp lower upper = (pairs.filter fun p ↦ inRange cmp lower upper p.1).map Prod.snd
  size_eq : tree.size = pairs.length
  /-- A stored key is refused, and the tree stays as it is; any other key is accepted. -/
  insert_eq : ∀ key ∈ D, ∀ row,
    if (lookupRow cmp pairs key).isSome then
      tree.insert cmp key row = (tree, .error (lit "Duplicate B+ tree key"))
    else (tree.insert cmp key row).2 = .ok ()

end Contract

section Transfer

variable {κ ι : Type u} {f : κ → ι} {cmp : κ → κ → Ordering} {cmp' : ι → ι → Ordering}
  (hf : ∀ a b, cmp' (f a) (f b) = cmp a b)

/-- The pairs with their keys mapped. -/
abbrev mapPairs (f : κ → ι) (pairs : List (κ × RowId)) : List (ι × RowId) :=
  pairs.map (Prod.map f id)

include hf

theorem lookupRow_map (pairs : List (κ × RowId)) (key : κ) :
    lookupRow cmp' (mapPairs f pairs) (f key) = lookupRow cmp pairs key := by
  simp [lookupRow, List.find?_map, Function.comp_def, hf]

/-- Adding a pair commutes with the map. -/
theorem insertPair_map (pairs : List (κ × RowId)) (op : κ × RowId) :
    insertPair cmp' (mapPairs f pairs) (Prod.map f id op) = mapPairs f (insertPair cmp pairs op) := by
  simp only [insertPair, Prod.map_fst, lookupRow_map hf]
  split <;> simp

/-- Adding several pairs commutes with the map. -/
theorem inserted_map (ops : List (κ × RowId)) :
    inserted cmp' (mapPairs f ops) = mapPairs f (inserted cmp ops) := by
  have hstep : ∀ pairs : List (κ × RowId),
      (mapPairs f ops).foldl (insertPair cmp') (mapPairs f pairs) =
        mapPairs f (ops.foldl (insertPair cmp) pairs) := by
    induction ops with
    | nil => exact fun _ ↦ rfl
    | cons op ops ih => exact fun pairs ↦ by simp [insertPair_map hf, ih]
  exact hstep []

/-- Inserting mapped keys gives the mapped tree. -/
theorem insertAll_map (tree : BPlusTree κ) (ops : List (κ × RowId)) :
    insertAll cmp' (tree.map f) (mapPairs f ops) = (insertAll cmp tree ops).map f := by
  induction ops generalizing tree with
  | nil => rfl
  | cons op ops ih =>
    have hop := insert_map hf tree op.1 op.2
    simp only [insertAll, mapPairs, List.map_cons, List.foldl_cons, Prod.map_fst, Prod.map_snd,
      id] at ih hop ⊢
    rw [hop, ih]

omit hf in
/-- The chain of leaves is mapped. -/
theorem chain_map (heap : List (Leaf κ)) (fuel : Nat) (leaf : Option (Leaf κ)) :
    chain (heap.map (Leaf.map f)) fuel (leaf.map (Leaf.map f)) =
      (chain heap fuel leaf).map (Leaf.map f) := by
  induction fuel generalizing leaf with
  | zero => rfl
  | succ fuel ih =>
    cases leaf with
    | none => rfl
    | some leaf => simp only [Option.map_some, chain, Leaf.map, deref_map, ih, List.map_cons]

theorem inRange_map (lower upper : Option κ) (key : κ) :
    inRange cmp' (lower.map f) (upper.map f) (f key) = inRange cmp lower upper key := by
  cases lower <;> cases upper <;> simp [inRange, notAbove, hf]

/-- The contract does not depend on how the keys are represented. -/
theorem Indexes.map {tree : BPlusTree κ} {pairs : List (κ × RowId)}
    (h : Indexes cmp Set.univ tree pairs) :
    Indexes cmp' (Set.range f) (tree.map f) (mapPairs f pairs) where
  wellFormed := h.wellFormed.imp fun height hwell ↦
    (wellFormed_map hf tree.maxKeys height none none tree.root).2 hwell
  sorted := by
    rw [mapPairs, List.pairwise_map]
    simpa [hf] using h.sorted
  chain_eq := by
    intro fuel hfuel
    simp only [BPlusTree.map, leaves_map, List.length_map] at hfuel ⊢
    have hchain := congrArg (List.map f) (h.chain_eq fuel hfuel)
    rw [frontLeaf_map, chain_map, List.flatMap_map]
    simpa [List.map_flatMap, Leaf.map, Function.comp_def] using hchain
  find_eq := by
    rintro _ ⟨key, rfl⟩
    rw [find_map hf, h.find_eq key trivial, lookupRow_map hf]
  -- A bound in the range of `f` is the image of a bound, or absent on both sides.
  range_eq := by
    intro lower upper hlower hupper
    obtain ⟨lower, rfl⟩ : ∃ l : Option κ, l.map f = lower := by
      cases lower with
      | none => exact ⟨none, rfl⟩
      | some _ =>
        obtain ⟨l, hl⟩ := hlower _ rfl
        exact ⟨some l, congrArg some hl⟩
    obtain ⟨upper, rfl⟩ : ∃ u : Option κ, u.map f = upper := by
      cases upper with
      | none => exact ⟨none, rfl⟩
      | some _ =>
        obtain ⟨u, hu⟩ := hupper _ rfl
        exact ⟨some u, congrArg some hu⟩
    rw [range_map hf, h.range_eq lower upper (fun _ _ ↦ trivial) fun _ _ ↦ trivial]
    simp [mapPairs, List.filter_map, Function.comp_def, inRange_map hf]
  size_eq := by
    rw [mapPairs, List.length_map]
    exact h.size_eq
  insert_eq := by
    rintro _ ⟨key, rfl⟩ row
    have hinsert := h.insert_eq key trivial row
    rw [insert_map hf]
    simp only [lookupRow_map hf]
    split_ifs at hinsert ⊢ with hstored
    · rw [hinsert]
    · exact hinsert

end Transfer

/-! ### Runs of inserts -/

section LinearOrder

variable {κ : Type u} [LinearOrder κ]

/-- A row is found exactly for the keys of the pairs. -/
theorem lookupRow_isSome {pairs : List (κ × RowId)} {key : κ} :
    (lookupRow compare pairs key).isSome ↔ key ∈ pairs.map Prod.fst := by
  simp [lookupRow]

/-- What a tree with the invariant answers. -/
theorem Invariant.indexes {tree : BPlusTree κ} (h : Invariant tree) :
    Indexes compare Set.univ tree (entries tree.root) where
  wellFormed := h.wellFormed
  sorted := h.entries_sorted.imp compare_lt_iff_lt.2
  chain_eq := by
    intro fuel hfuel
    obtain ⟨height, hwell⟩ := h.wellFormed
    rw [frontLeaf_eq hwell, chain_eq h.chained h.addr_nodup (List.nil_append _).symm hfuel,
      hwell.map_entries]
  find_eq := fun key _ ↦ find_eq h key
  range_eq := fun lower upper _ _ ↦ range_eq h lower upper
  size_eq := h.size_eq
  insert_eq := by
    intro key _ row
    rcases insert_spec h key row with ⟨hmem, herror⟩ | ⟨hnew, tree', hok, -⟩
    · rw [if_pos (lookupRow_isSome.2 hmem), herror]
    · rw [if_neg (fun hsome ↦ hnew (lookupRow_isSome.1 hsome)), hok]

/-- Every insert stores its pair in the tree when `insertPair` stores it in the list. -/
theorem insertAll_invariant {tree : BPlusTree κ} (h : Invariant tree) {pairs : List (κ × RowId)}
    (hperm : (entries tree.root).Perm pairs) (ops : List (κ × RowId)) :
    Invariant (tree.insertAll compare ops) ∧
      (entries (tree.insertAll compare ops).root).Perm (ops.foldl (insertPair compare) pairs) := by
  induction ops generalizing tree pairs with
  | nil => exact ⟨h, hperm⟩
  | cons op ops ih =>
    have hmem : op.1 ∈ (entries tree.root).map Prod.fst ↔ (lookupRow compare pairs op.1).isSome := by
      rw [lookupRow_isSome]
      exact (hperm.map Prod.fst).mem_iff
    simp only [insertAll, List.foldl_cons] at ih ⊢
    rcases insert_spec h op.1 op.2 with ⟨hstored, herror⟩ | ⟨hnew, tree', hok, htree', b, a, hb, ha⟩
    · rw [herror, insertPair, if_pos (hmem.1 hstored)]
      exact ih h hperm
    · rw [hok, insertPair, if_neg (fun hsome ↦ hnew (hmem.2 hsome))]
      refine ih htree' ?_
      rw [ha]
      rw [hb] at hperm
      exact List.perm_middle.trans ((hperm.cons _).trans (List.perm_append_singleton _ _).symm)

end LinearOrder

section Domain

variable {κ : Type u} {cmp : κ → κ → Ordering} {D : Set κ}

/-- The comparison is a strict total order on the keys of `D`. -/
structure StrictTotalOn (cmp : κ → κ → Ordering) (D : Set κ) : Prop where
  eq_iff : ∀ a ∈ D, ∀ b ∈ D, cmp a b = .eq ↔ a = b
  swap_eq : ∀ a ∈ D, ∀ b ∈ D, cmp b a = (cmp a b).swap
  lt_trans : ∀ a ∈ D, ∀ b ∈ D, ∀ c ∈ D, cmp a b = .lt → cmp b c = .lt → cmp a c = .lt

/-- The keys of `D`, ordered by the comparison. -/
abbrev StrictTotalOn.linearOrder (h : StrictTotalOn cmp D) : LinearOrder D where
  le a b := cmp a b ≠ .gt
  lt a b := cmp a b = .lt
  le_refl a := by simp [(h.eq_iff a a.2 a a.2).2 rfl]
  le_trans a b c hab hbc := by
    have hab' := h.eq_iff a a.2 b b.2
    have hbc' := h.eq_iff b b.2 c c.2
    have htrans := h.lt_trans a a.2 b b.2 c c.2
    rcases hcab : cmp a b <;> rcases hcbc : cmp b c <;> simp_all
  le_antisymm a b hab hba := by
    have hswap := h.swap_eq a a.2 b b.2
    have heq := h.eq_iff a a.2 b b.2
    rcases hcab : cmp a b <;> simp_all [Subtype.ext_iff]
  lt_iff_le_not_ge a b := by
    have hswap := h.swap_eq a a.2 b b.2
    rcases hcab : cmp a b <;> simp_all
  le_total a b := by
    have hswap := h.swap_eq a a.2 b b.2
    rcases hcab : cmp a b <;> simp_all
  toDecidableLE a b := inferInstanceAs (Decidable (cmp a b ≠ .gt))
  toDecidableEq a b := decidable_of_iff (cmp a b = .eq)
    ((h.eq_iff a a.2 b b.2).trans Subtype.ext_iff.symm)
  toDecidableLT a b := inferInstanceAs (Decidable (cmp a b = .lt))
  compare a b := cmp a b
  compare_eq_compareOfLessAndEq a b := by
    have heq : cmp a b = .eq ↔ a = b := (h.eq_iff a a.2 b b.2).trans Subtype.ext_iff.symm
    unfold compareOfLessAndEq
    split_ifs with hlt hab
    · exact hlt
    · exact heq.2 hab
    · cases hcab : cmp a b with
      | lt => exact absurd hcab hlt
      | eq => exact absurd (heq.1 hcab) hab
      | gt => rfl

/-- The pairs of a run, with their keys as elements of the domain. -/
theorem exists_mapPairs {ops : List (κ × RowId)} (hops : ∀ op ∈ ops, op.1 ∈ D) :
    ∃ ops' : List (D × RowId), mapPairs Subtype.val ops' = ops := by
  refine ⟨ops.pmap (fun op h ↦ (⟨op.1, h⟩, op.2)) hops, ?_⟩
  simp [mapPairs, List.map_pmap]

/-- The tree built by any run of inserts whose keys come from a domain on which the comparison is a
strict total order keeps the contract of the component, for the pairs that the run stores. -/
theorem indexes_insertAll (hD : StrictTotalOn cmp D) (maxKeys : Nat) {ops : List (κ × RowId)}
    (hops : ∀ op ∈ ops, op.1 ∈ D) :
    ∃ pairs, pairs.Perm (inserted cmp ops) ∧
      Indexes cmp D ((new maxKeys).insertAll cmp ops) pairs := by
  let _ := hD.linearOrder
  obtain ⟨ops, rfl⟩ := exists_mapPairs hops
  have hval : ∀ a b : D, cmp (Subtype.val a) (Subtype.val b) = compare a b := fun _ _ ↦ rfl
  have hnew : (entries (new maxKeys : BPlusTree D).root).Perm [] := by
    simp [new, entries, leaves, Leaf.entries]
  obtain ⟨hinvariant, hperm⟩ := insertAll_invariant (invariant_new maxKeys) hnew ops
  have hmap := hinvariant.indexes.map hval
  rw [← insertAll_map hval, Subtype.range_val] at hmap
  refine ⟨_, ?_, hmap⟩
  rw [inserted_map hval]
  exact hperm.map _

end Domain

end BPlusTree

end SkibidiQL
