import SkibidiQL.Storage.Value

/-!
# The B+ tree index

`class BPlusTree` over an arbitrary key type `κ` with the three-way comparison `cmp` that the source
takes from `Value::compare`.

A node owns its children (`std::unique_ptr`), so the nodes form an inductive tree. The raw pointer
`next` of a leaf is the *address* of another leaf: every leaf carries the address it was allocated
at, and following `next` means looking that address up among the leaves. Internal nodes are reached
through their owners only and need none.

`std::lower_bound` and `std::upper_bound` are specified on a sorted range as the number of elements
below the key, and the number of elements not above it; that is what `lowerBound` and `upperBound`
count.
-/

namespace SkibidiQL

namespace BPlusTree

universe u

/-- A leaf `Node`: `keys[i]` is indexed to `rows[i]`, and `next` points to the leaf after it. -/
structure Leaf (κ : Type u) where
  addr : Nat
  keys : List κ
  rows : List RowId
  next : Option Nat
deriving DecidableEq

/-- `struct Node`, by the value of its flag `leaf`. -/
inductive Node (κ : Type u) where
  | leaf (node : Leaf κ)
  | inner (keys : List κ) (children : List (Node κ))

/-- `struct Split`: what a split node hands to its parent. -/
structure Split (κ : Type u) where
  separator : κ
  right : Node κ

/-- The outcome of `insert` on one node: the node as the call leaves it, and the split it returns or
the exception it throws. -/
abbrev Outcome (κ : Type u) :=
  Node κ × Except Error (Option (Split κ))

variable {κ : Type u} (cmp : κ → κ → Ordering)

/-- `BPlusTree::lowerBound`. -/
def lowerBound (keys : List κ) (key : κ) : Nat :=
  (keys.takeWhile fun k ↦ cmp k key == .lt).length

/-- `BPlusTree::upperBound`. -/
def upperBound (keys : List κ) (key : κ) : Nat :=
  (keys.takeWhile fun k ↦ cmp key k != .lt).length

/-- The leaf branch of `BPlusTree::insert(Node&)`. A split moves the upper half to a new leaf at
address `fresh`, linked between the old leaf and its successor. -/
def insertLeaf (maxKeys : Nat) (leaf : Leaf κ) (key : κ) (row : RowId) (fresh : Nat) : Outcome κ :=
  let position := lowerBound cmp leaf.keys key
  if (leaf.keys[position]?).any fun k ↦ cmp k key == .eq then
    (.leaf leaf, throw (lit "Duplicate B+ tree key"))
  else
    let keys := leaf.keys.insertIdx position key
    let rows := leaf.rows.insertIdx position row
    if keys.length ≤ maxKeys then
      (.leaf { leaf with keys, rows }, pure none)
    else
      let middle := keys.length / 2
      let right : Leaf κ :=
        { addr := fresh, keys := keys.drop middle, rows := rows.drop middle, next := leaf.next }
      let left : Leaf κ :=
        { leaf with keys := keys.take middle, rows := rows.take middle, next := some fresh }
      match right.keys with
      | separator :: _ => (.leaf left, pure (some ⟨separator, .leaf right⟩))
      -- `right->keys.front()` of a vector that is never empty here
      | [] => (.leaf left, pure none)

/-- What an internal node does once its child at `childIndex` has returned. -/
def absorbSplit (maxKeys : Nat) (keys : List κ) (children : List (Node κ)) (childIndex : Nat)
    (split : Option (Split κ)) : Node κ × Option (Split κ) :=
  match split with
  | none => (.inner keys children, none)
  | some split =>
    let keys := keys.insertIdx childIndex split.separator
    let children := children.insertIdx (childIndex + 1) split.right
    if keys.length ≤ maxKeys then
      (.inner keys children, none)
    else
      let middle := keys.length / 2
      match keys[middle]? with
      | some separator =>
        (.inner (keys.take middle) (children.take (middle + 1)),
          some ⟨separator, .inner (keys.drop (middle + 1)) (children.drop (middle + 1))⟩)
      -- `node.keys[middle]` is in range, as the vector is not empty
      | none => (.inner keys children, none)

mutual

/-- `BPlusTree::insert(Node&)`. `fresh` is the address a new leaf would get. -/
def insertNode (maxKeys : Nat) (key : κ) (row : RowId) (fresh : Nat) : Node κ → Outcome κ
  | .leaf leaf => insertLeaf cmp maxKeys leaf key row fresh
  | .inner keys children =>
    let childIndex := upperBound cmp keys key
    match insertChild maxKeys key row fresh children childIndex with
    | (children, .error e) => (.inner keys children, .error e)
    | (children, .ok split) =>
      let (node, split) := absorbSplit maxKeys keys children childIndex split
      (node, .ok split)

/-- The recursive call on `*node.children[childIndex]`, which updates that child in place. -/
def insertChild (maxKeys : Nat) (key : κ) (row : RowId) (fresh : Nat) :
    List (Node κ) → Nat → List (Node κ) × Except Error (Option (Split κ))
  | [], _ => ([], pure none)
  | child :: children, 0 =>
    let (child, outcome) := insertNode maxKeys key row fresh child
    (child :: children, outcome)
  | child :: children, i + 1 =>
    let (children, outcome) := insertChild maxKeys key row fresh children i
    (child :: children, outcome)

end

mutual

/-- `BPlusTree::findLeaf`, from a node of the tree. -/
def findLeaf (key : κ) : Node κ → Option (Leaf κ)
  | .leaf leaf => some leaf
  | .inner keys children => findLeafChild key children (upperBound cmp keys key)

/-- The descent into `node->children[i]`. -/
def findLeafChild (key : κ) : List (Node κ) → Nat → Option (Leaf κ)
  | [], _ => none
  | child :: _, 0 => findLeaf key child
  | _ :: children, i + 1 => findLeafChild key children i

end

/-- The descent along `children.front()`. -/
def frontLeaf : Node κ → Option (Leaf κ)
  | .leaf leaf => some leaf
  | .inner _ [] => none
  | .inner _ (child :: _) => frontLeaf child

mutual

/-- The leaves a node owns, in the order of its children. -/
def leaves : Node κ → List (Leaf κ)
  | .leaf leaf => [leaf]
  | .inner _ children => childLeaves children

/-- The leaves owned by a list of children. -/
def childLeaves : List (Node κ) → List (Leaf κ)
  | [] => []
  | child :: children => leaves child ++ childLeaves children

end

/-- Following a raw pointer: the leaf allocated at that address. -/
def deref (heap : List (Leaf κ)) (addr : Option Nat) : Option (Leaf κ) :=
  addr.bind fun a ↦ heap.find? (·.addr == a)

/-- The inner loop of `BPlusTree::range` over one leaf: the rows it pushes, and whether it returned
early on a key above `upper`. -/
def scanLeaf (upper : Option κ) : List κ → List RowId → List RowId × Bool
  | key :: keys, row :: rows =>
    if upper.any fun u ↦ cmp key u == .gt then ([], true)
    else
      let (result, stopped) := scanLeaf upper keys rows
      (row :: result, stopped)
  | _, _ => ([], false)

/-- The outer loop of `BPlusTree::range` from the leaf `leaf`, whose scan starts at `start`; every
later leaf is scanned from its first key. The fuel bounds the number of leaves visited. -/
def walk (heap : List (Leaf κ)) (upper : Option κ) : Nat → Option (Leaf κ) → Nat → List RowId
  | 0, _, _ => []
  | _ + 1, none, _ => []
  | fuel + 1, some leaf, start =>
    match scanLeaf cmp upper (leaf.keys.drop start) (leaf.rows.drop start) with
    | (result, true) => result
    | (result, false) => result ++ walk heap upper fuel (deref heap leaf.next) 0

/-- `height`, from a node of the tree. -/
def heightOf : Node κ → Nat
  | .leaf _ => 1
  | .inner _ [] => 1
  | .inner _ (child :: _) => heightOf child + 1

end BPlusTree

/-- `class BPlusTree`. `fresh` is above the address of every leaf allocated so far. -/
structure BPlusTree (κ : Type*) where
  maxKeys : Nat
  size : Nat
  root : BPlusTree.Node κ
  fresh : Nat

namespace BPlusTree

universe u

variable {κ : Type u} (cmp : κ → κ → Ordering)

/-- `BPlusTree::BPlusTree`, which ends in `clear`. -/
def new (maxKeys : Nat) : BPlusTree κ where
  maxKeys := max 3 maxKeys
  size := 0
  root := .leaf { addr := 0, keys := [], rows := [], next := none }
  fresh := 1

/-- `BPlusTree::insert`: the tree as the call leaves it, and the exception it may throw. `++size_`
and the allocation of a leaf happen in the leaf branch, which is reached exactly when nothing is
thrown. -/
def insert (tree : BPlusTree κ) (key : κ) (row : RowId) : BPlusTree κ × Except Error Unit :=
  match insertNode cmp tree.maxKeys key row tree.fresh tree.root with
  | (root, .error e) => ({ tree with root }, .error e)
  | (root, .ok none) =>
    ({ tree with root, size := tree.size + 1, fresh := tree.fresh + 1 }, .ok ())
  | (root, .ok (some split)) =>
    ({ tree with
        root := .inner [split.separator] [root, split.right]
        size := tree.size + 1
        fresh := tree.fresh + 1 }, .ok ())

/-- `BPlusTree::find`. -/
def find (tree : BPlusTree κ) (key : κ) : Option RowId :=
  match findLeaf cmp key tree.root with
  | none => none
  | some leaf =>
    let position := lowerBound cmp leaf.keys key
    match leaf.keys[position]? with
    | none => none
    | some found => if cmp found key ≠ .eq then none else leaf.rows[position]?

/-- `BPlusTree::range`. -/
def range (tree : BPlusTree κ) (lower upper : Option κ) : List RowId :=
  let heap := leaves tree.root
  match lower with
  | none => walk cmp heap upper heap.length (frontLeaf tree.root) 0
  | some key =>
    let leaf := findLeaf cmp key tree.root
    walk cmp heap upper heap.length leaf
      (leaf.elim 0 fun l ↦ lowerBound cmp l.keys key)

/-- `BPlusTree::height`. -/
def height (tree : BPlusTree κ) : Nat :=
  heightOf tree.root

end BPlusTree

end SkibidiQL
