import Mathlib.Data.List.Induction
import Mathlib.Data.List.Nodup
import Mathlib.Data.List.TakeWhile
import SkibidiQL.Index.BPlusTreeKeys

/-!
# B+ trees under any comparison

What survives when the comparison is not an order, as with a key that ties with every other. The leaves of a
tree that has received a pair are never empty, and its keys are those it received (`Populated`). So a key that
ties with all of them is found wherever the search ends, and an insert of it is refused.
-/

namespace SkibidiQL

namespace BPlusTree

universe u

variable {κ : Type u}

/-- Every leaf below the node has a key, every internal node has its children, and the keys satisfy `P`. -/
inductive Populated (P : κ → Prop) : Node κ → Prop
  | leaf {leaf : Leaf κ} (keys_ne : leaf.keys ≠ []) (rows_length : leaf.rows.length = leaf.keys.length)
      (keys_mem : ∀ k ∈ leaf.keys, P k) : Populated P (.leaf leaf)
  | inner {keys : List κ} {children : List (Node κ)} (length : children.length = keys.length + 1)
      (keys_mem : ∀ k ∈ keys, P k) (children_populated : ∀ c ∈ children, Populated P c) :
      Populated P (.inner keys children)

/-- What an insert that returns leaves: the node, and the sibling it may have split off. -/
def OutcomePopulated (P : κ → Prop) (node : Node κ) (split : Option (Split κ)) : Prop :=
  Populated P node ∧ ∀ s, split = some s → P s.separator ∧ Populated P s.right

section

variable {cmp : κ → κ → Ordering} {P : κ → Prop} {maxKeys : Nat} {key : κ} {row : RowId} {fresh : Nat}

theorem lowerBound_le_length (cmp : κ → κ → Ordering) (keys : List κ) (key : κ) : lowerBound cmp keys key ≤ keys.length :=
  (List.takeWhile_sublist _).length_le

/-- The recursive call replaces the child at the index. -/
theorem insertChild_eq {children : List (Node κ)} {i : Nat} {child : Node κ}
    (h : children[i]? = some child) :
    insertChild cmp maxKeys key row fresh children i =
      (children.set i (insertNode cmp maxKeys key row fresh child).1,
        (insertNode cmp maxKeys key row fresh child).2) := by
  induction children generalizing i with
  | nil => simp at h
  | cons c children ih =>
    cases i with
    | zero =>
      obtain rfl : c = child := by simpa using h
      rfl
    | succ i =>
      rw [insertChild, ih (by simpa using h)]
      rfl

/-- The leaf branch fills the leaf. -/
theorem insertLeaf_populated (hmax : 1 ≤ maxKeys) {leaf : Leaf κ}
    (hlength : leaf.rows.length = leaf.keys.length) (hkeys : ∀ k ∈ leaf.keys, P k) (hkey : P key)
    {node : Node κ} {split : Option (Split κ)}
    (h : insertLeaf cmp maxKeys leaf key row fresh = (node, .ok split)) :
    OutcomePopulated P node split := by
  have hposition := lowerBound_le_length cmp leaf.keys key
  have hmem : ∀ k ∈ leaf.keys.insertIdx (lowerBound cmp leaf.keys key) key, P k := by
    intro k hk
    rcases (List.mem_insertIdx hposition).1 hk with rfl | hk
    · exact hkey
    · exact hkeys k hk
  have hkeysLength := List.length_insertIdx_of_le_length hposition key
  have hrowsLength := List.length_insertIdx_of_le_length (hlength ▸ hposition) row
  rw [insertLeaf] at h
  split at h
  · cases h
  · simp only at h
    split at h
    · cases h
      refine ⟨.leaf ?_ ?_ hmem, by rintro _ ⟨⟩⟩
      · exact List.ne_nil_of_length_pos (by simp only; omega)
      · simp only
        omega
    -- A leaf that overflows has at least two keys, so both halves get one.
    · rename_i hsplit
      split at h
      · rename_i separator rest hright
        cases h
        refine ⟨.leaf ?_ ?_ fun k hk ↦ hmem k (List.mem_of_mem_take hk), ?_⟩
        · exact List.ne_nil_of_length_pos (by simp only [List.length_take]; omega)
        · simp only [List.length_take]
          omega
        · rintro _ ⟨⟩
          refine ⟨hmem _ (List.mem_of_mem_drop (hright ▸ List.mem_cons_self)), .leaf ?_ ?_ fun k hk ↦
            hmem k (List.mem_of_mem_drop hk)⟩
          · exact List.ne_nil_of_mem (hright ▸ List.mem_cons_self)
          · simp only [List.length_drop]
            omega
      · rename_i hright
        have hnone := congrArg List.length hright
        simp only [List.length_drop, List.length_nil] at hnone
        omega

/-- An internal node absorbs what its child has split off. -/
theorem absorbSplit_populated (hmax : 1 ≤ maxKeys) {keys : List κ} {children : List (Node κ)}
    (hlength : children.length = keys.length + 1) (hkeys : ∀ k ∈ keys, P k)
    (hchildren : ∀ c ∈ children, Populated P c) {i : Nat} (hi : i ≤ keys.length)
    {split : Option (Split κ)} (hsplit : ∀ s, split = some s → P s.separator ∧ Populated P s.right) :
    OutcomePopulated P (absorbSplit maxKeys keys children i split).1
      (absorbSplit maxKeys keys children i split).2 := by
  cases split with
  | none => exact ⟨.inner hlength hkeys hchildren, by rintro _ ⟨⟩⟩
  | some s =>
    obtain ⟨hseparator, hright⟩ := hsplit s rfl
    have hkeysMem : ∀ k ∈ keys.insertIdx i s.separator, P k := by
      intro k hk
      rcases (List.mem_insertIdx hi).1 hk with rfl | hk
      · exact hseparator
      · exact hkeys k hk
    have hchildrenMem : ∀ c ∈ children.insertIdx (i + 1) s.right, Populated P c := by
      intro c hc
      rcases (List.mem_insertIdx (by omega)).1 hc with rfl | hc
      · exact hright
      · exact hchildren c hc
    have hkeysLength := List.length_insertIdx_of_le_length hi s.separator
    have hchildrenLength :=
      List.length_insertIdx_of_le_length (show i + 1 ≤ children.length by omega) s.right
    simp only [absorbSplit]
    split
    · exact ⟨.inner (by omega) hkeysMem hchildrenMem, by rintro _ ⟨⟩⟩
    · split
      · rename_i separator hmiddle
        refine ⟨.inner ?_ (fun k hk ↦ hkeysMem k (List.mem_of_mem_take hk)) fun c hc ↦
          hchildrenMem c (List.mem_of_mem_take hc), ?_⟩
        · rw [List.length_take, List.length_take]
          omega
        · rintro _ ⟨⟩
          refine ⟨hkeysMem _ (List.mem_of_getElem? hmiddle), .inner ?_ (fun k hk ↦
            hkeysMem k (List.mem_of_mem_drop hk)) fun c hc ↦ hchildrenMem c (List.mem_of_mem_drop hc)⟩
          rw [List.length_drop, List.length_drop]
          have hlt := (List.getElem?_eq_some_iff.1 hmiddle).1
          omega
      · exact ⟨.inner (by omega) hkeysMem hchildrenMem, by rintro _ ⟨⟩⟩

/-- An insert that returns keeps a populated node populated. -/
theorem insertNode_populated (hmax : 1 ≤ maxKeys) (hkey : P key) {node : Node κ}
    (hnode : Populated P node) : ∀ {node' : Node κ} {split : Option (Split κ)},
    insertNode cmp maxKeys key row fresh node = (node', .ok split) → OutcomePopulated P node' split := by
  induction hnode with
  | leaf _ hlength hkeys => exact fun h ↦ insertLeaf_populated hmax hlength hkeys hkey h
  | @inner keys children hlength hkeys hchildren ih =>
    intro node' split h
    have hindex : upperBound cmp keys key ≤ keys.length := (List.takeWhile_sublist _).length_le
    have hlt : upperBound cmp keys key < children.length := by omega
    rw [insertNode, insertChild_eq (List.getElem?_eq_getElem hlt)] at h
    have hstep := @ih _ (List.getElem_mem hlt)
    revert hstep h
    rcases insertNode cmp maxKeys key row fresh children[upperBound cmp keys key] with ⟨child, e | s⟩
    · exact fun h ↦ nomatch h
    · intro h hstep
      cases h
      obtain ⟨hchild, hsplit⟩ := hstep rfl
      refine absorbSplit_populated hmax (by rw [List.length_set, hlength]) hkeys ?_ hindex hsplit
      intro c hc
      rcases List.mem_or_eq_of_mem_set hc with hc | rfl
      · exact hchildren c hc
      · exact hchild

/-! ### Keys that compare alike -/

/-- The comparison with the keys in `P` treats two keys alike. -/
def Alike (cmp : κ → κ → Ordering) (P : κ → Prop) (key key' : κ) : Prop :=
  ∀ k, P k → cmp k key = cmp k key' ∧ cmp key k = cmp key' k

/-- Alike keys are searched for alike. -/
theorem upperBound_congr {key' : κ} (h : Alike cmp P key key') {keys : List κ} (hkeys : ∀ k ∈ keys, P k) :
    upperBound cmp keys key = upperBound cmp keys key' := by
  induction keys with
  | nil => rfl
  | cons k keys ih =>
    have hrest := ih fun k hk ↦ hkeys k (List.mem_cons_of_mem _ hk)
    simp only [upperBound, List.takeWhile_cons, (h k (hkeys k List.mem_cons_self)).2] at hrest ⊢
    split
    · rw [List.length_cons, List.length_cons, hrest]
    · rfl

/-- Alike keys are searched for alike from below. -/
theorem lowerBound_congr {key' : κ} (h : Alike cmp P key key') {keys : List κ} (hkeys : ∀ k ∈ keys, P k) :
    lowerBound cmp keys key = lowerBound cmp keys key' := by
  induction keys with
  | nil => rfl
  | cons k keys ih =>
    have hrest := ih fun k hk ↦ hkeys k (List.mem_cons_of_mem _ hk)
    simp only [lowerBound, List.takeWhile_cons, (h k (hkeys k List.mem_cons_self)).1] at hrest ⊢
    split
    · rw [List.length_cons, List.length_cons, hrest]
    · rfl

/-- The search goes on in the child at its place. -/
theorem findLeafChild_eq {children : List (Node κ)} {i : Nat} {child : Node κ}
    (h : children[i]? = some child) : findLeafChild cmp key children i = findLeaf cmp key child := by
  induction children generalizing i with
  | nil => simp at h
  | cons c children ih =>
    cases i with
    | zero =>
      obtain rfl : c = child := by simpa using h
      rfl
    | succ i =>
      rw [findLeafChild]
      exact ih (by simpa using h)

/-- The search for a key ends at a populated leaf. -/
theorem exists_findLeaf (cmp : κ → κ → Ordering) {node : Node κ} (hnode : Populated P node) (key : κ) :
    ∃ leaf, findLeaf cmp key node = some leaf ∧ Populated P (.leaf leaf) := by
  induction hnode with
  | @leaf leaf hne hlength hkeys => exact ⟨leaf, rfl, .leaf hne hlength hkeys⟩
  | @inner keys children hlength _ _ ih =>
    have hle : upperBound cmp keys key ≤ keys.length := (List.takeWhile_sublist _).length_le
    have hlt : upperBound cmp keys key < children.length := by omega
    rw [findLeaf, findLeafChild_eq (List.getElem?_eq_getElem hlt)]
    exact ih _ (List.getElem_mem hlt)

/-- Alike keys lead to the same leaf. -/
theorem findLeaf_congr {key' : κ} (h : Alike cmp P key key') {node : Node κ} (hnode : Populated P node) :
    findLeaf cmp key node = findLeaf cmp key' node := by
  induction hnode with
  | leaf => rfl
  | @inner keys children hlength hkeys _ ih =>
    have hle : upperBound cmp keys key' ≤ keys.length := (List.takeWhile_sublist _).length_le
    have hlt : upperBound cmp keys key' < children.length := by omega
    have hget := List.getElem?_eq_getElem hlt
    rw [findLeaf, findLeaf, upperBound_congr h hkeys, findLeafChild_eq hget, findLeafChild_eq hget]
    exact ih _ (List.getElem_mem hlt)

/-- Keys that compare alike with those of the tree are found alike. -/
theorem find_congr {key' : κ} (h : Alike cmp P key key') {tree : BPlusTree κ}
    (htree : Populated P tree.root) : tree.find cmp key = tree.find cmp key' := by
  obtain ⟨leaf, hleaf, hpopulated⟩ := exists_findLeaf cmp htree key'
  cases hpopulated with
  | leaf _ _ hkeys =>
    simp only [find, findLeaf_congr h htree, hleaf, lowerBound_congr h hkeys]
    cases hfound : leaf.keys[lowerBound cmp leaf.keys key']? with
    | none => rfl
    | some found => simp only [(h found (hkeys found (List.mem_of_getElem? hfound))).1]

/-! ### A key that ties with all others -/

/-- The comparison does not tell the keys apart. -/
def Ties (cmp : κ → κ → Ordering) (key k : κ) : Prop :=
  cmp k key = .eq ∧ cmp key k = .eq

/-- A key that ties with all stands behind them. -/
theorem upperBound_of_ties {keys : List κ} (h : ∀ k ∈ keys, Ties cmp key k) :
    upperBound cmp keys key = keys.length := by
  rw [upperBound, List.takeWhile_eq_self_iff.2]
  intro k hk
  rw [(h k hk).2]
  rfl

/-- A key that ties with all stands before them, from below. -/
theorem lowerBound_of_ties {keys : List κ} (h : ∀ k ∈ keys, Ties cmp key k) :
    lowerBound cmp keys key = 0 := by
  cases keys with
  | nil => rfl
  | cons k keys =>
    rw [lowerBound, List.takeWhile_cons, (h k List.mem_cons_self).1]
    rfl

/-- An insert of a key that ties with all others is refused. -/
theorem insertNode_of_ties (htie : ∀ k, P k → Ties cmp key k) {node : Node κ} (hnode : Populated P node) :
    insertNode cmp maxKeys key row fresh node = (node, .error (lit "Duplicate B+ tree key")) := by
  induction hnode with
  | @leaf leaf hne _ hkeys =>
    have heq : ∀ k ∈ leaf.keys, Ties cmp key k := fun k hk ↦ htie k (hkeys k hk)
    obtain ⟨first, rest, hcons⟩ := List.exists_cons_of_ne_nil hne
    rw [insertNode, insertLeaf, lowerBound_of_ties heq, hcons]
    simp only [List.getElem?_cons_zero, Option.any_some, (heq first (hcons ▸ List.mem_cons_self)).1]
    rfl
  | @inner keys children hlength hkeys _ ih =>
    have hlt : keys.length < children.length := by omega
    have hget := List.getElem?_eq_getElem hlt
    rw [insertNode, upperBound_of_ties fun k hk ↦ htie k (hkeys k hk), insertChild_eq hget,
      ih _ (List.getElem_mem hlt)]
    simp

/-- A key that ties with all others is found. -/
theorem find_of_ties (htie : ∀ k, P k → Ties cmp key k) {tree : BPlusTree κ}
    (htree : Populated P tree.root) : ∃ row, tree.find cmp key = some row := by
  obtain ⟨leaf, hleaf, hpopulated⟩ := exists_findLeaf cmp htree key
  cases hpopulated with
  | leaf hne hlength hkeys =>
    have heq : ∀ k ∈ leaf.keys, Ties cmp key k := fun k hk ↦ htie k (hkeys k hk)
    obtain ⟨first, rest, hcons⟩ := List.exists_cons_of_ne_nil hne
    have hpos : 0 < leaf.rows.length := by rw [hlength, hcons]; simp
    refine ⟨leaf.rows[0], ?_⟩
    simp only [find, hleaf, lowerBound_of_ties heq]
    rw [hcons, List.getElem?_cons_zero]
    simp [(heq first (hcons ▸ List.mem_cons_self)).1, List.getElem?_eq_getElem hpos]

end

/-! ### Building a tree -/

section

variable (cmp : κ → κ → Ordering)

/-- The insert of a pair, with its exception. -/
def tryInsert (tree : BPlusTree κ) (entry : κ × RowId) : Except Error (BPlusTree κ) :=
  match tree.insert cmp entry.1 entry.2 with
  | (tree, .ok ()) => pure tree
  | (_, .error e) => throw e

/-- The pairs, inserted one by one. -/
def build (maxKeys : Nat) (entries : List (κ × RowId)) : Except Error (BPlusTree κ) :=
  entries.foldlM (tryInsert cmp) (new maxKeys)

variable {cmp} {tree tree' : BPlusTree κ} {P : κ → Prop} {entries : List (κ × RowId)}

/-- What is inserted is inserted into the tree. -/
theorem tryInsert_eq_ok {entry : κ × RowId} (h : tryInsert cmp tree entry = .ok tree') :
    tree' = (tree.insert cmp entry.1 entry.2).1 := by
  rw [tryInsert] at h
  revert h
  rcases tree.insert cmp entry.1 entry.2 with ⟨t, e | u⟩
  · exact nofun
  · rintro ⟨⟩
    rfl

/-- A tree that is built is the one of the run of inserts. -/
theorem foldlM_tryInsert_eq_ok (h : entries.foldlM (tryInsert cmp) tree = .ok tree') :
    tree' = tree.insertAll cmp entries := by
  induction entries generalizing tree with
  | nil => exact (Except.ok.inj h).symm
  | cons entry entries ih =>
    rw [List.foldlM_cons] at h
    cases hstep : tryInsert cmp tree entry with
    | error e =>
      rw [hstep] at h
      cases h
    | ok next =>
      rw [hstep] at h
      rw [ih h, tryInsert_eq_ok hstep]
      rfl

/-- The root of a tree that received a pair is populated, when it was or the tree was empty. -/
theorem tryInsert_populated (hmax : 1 ≤ tree.maxKeys) {entry : κ × RowId} (hkey : P entry.1)
    (hroot : Populated P tree.root ∨ ∃ leaf : Leaf κ, tree.root = .leaf leaf ∧ leaf.keys = [] ∧ leaf.rows = [])
    (h : tryInsert cmp tree entry = .ok tree') :
    Populated P tree'.root ∧ tree'.maxKeys = tree.maxKeys := by
  have houtcome : ∀ (node : Node κ) (split : Option (Split κ)),
      insertNode cmp tree.maxKeys entry.1 entry.2 tree.fresh tree.root = (node, .ok split) →
        OutcomePopulated P node split := by
    intro node split hinsert
    rcases hroot with hroot | ⟨leaf, hleaf, hkeys, hrows⟩
    · exact insertNode_populated hmax hkey hroot hinsert
    · rw [hleaf] at hinsert
      exact insertLeaf_populated hmax (by rw [hkeys, hrows]; rfl) (by simp [hkeys]) hkey hinsert
  rw [tryInsert, insert] at h
  revert houtcome h
  rcases insertNode cmp tree.maxKeys entry.1 entry.2 tree.fresh tree.root with ⟨node, e | _ | split⟩
  · rintro ⟨⟩
  · intro h houtcome
    cases h
    exact ⟨(houtcome _ _ rfl).1, rfl⟩
  · intro h houtcome
    cases h
    obtain ⟨hnode, hsplit⟩ := houtcome _ _ rfl
    obtain ⟨hseparator, hright⟩ := hsplit split rfl
    exact ⟨.inner rfl (by simpa using hseparator) (by simpa using ⟨hnode, hright⟩), rfl⟩

/-- A tree that is built of some pairs is populated. -/
theorem foldlM_tryInsert_populated (hmax : 1 ≤ tree.maxKeys) (hkeys : ∀ entry ∈ entries, P entry.1)
    (hroot : Populated P tree.root ∨
      entries ≠ [] ∧ ∃ leaf : Leaf κ, tree.root = .leaf leaf ∧ leaf.keys = [] ∧ leaf.rows = [])
    (h : entries.foldlM (tryInsert cmp) tree = .ok tree') : Populated P tree'.root := by
  induction entries generalizing tree with
  | nil =>
    cases h
    exact hroot.resolve_right fun hne ↦ hne.1 rfl
  | cons entry entries ih =>
    rw [List.foldlM_cons] at h
    cases hstep : tryInsert cmp tree entry with
    | error e =>
      rw [hstep] at h
      cases h
    | ok next =>
      rw [hstep] at h
      obtain ⟨hnext, hnextMax⟩ :=
        tryInsert_populated hmax (hkeys entry List.mem_cons_self) (hroot.imp_right And.right) hstep
      exact ih (hnextMax ▸ hmax) (fun e he ↦ hkeys e (List.mem_cons_of_mem _ he)) (.inl hnext) h

/-- A tree that was built holds keys of the entries only. -/
theorem build_populated {maxKeys : Nat} (hne : entries ≠ []) (hkeys : ∀ entry ∈ entries, P entry.1)
    (h : build cmp maxKeys entries = .ok tree) : Populated P tree.root :=
  foldlM_tryInsert_populated (by simp [new]) hkeys (.inr ⟨hne, _, rfl, rfl, rfl⟩) h

/-- A tree is not built when a key ties with all that come before it. -/
theorem build_append_tie {maxKeys : Nat} {before after : List (κ × RowId)} {entry : κ × RowId}
    (hne : before ≠ []) (htie : ∀ e ∈ before, Ties cmp entry.1 e.1) :
    build cmp maxKeys (before ++ entry :: after) ≠ .ok tree := by
  intro h
  rw [build, List.foldlM_append] at h
  cases hbefore : before.foldlM (tryInsert cmp) (new maxKeys) with
  | error e =>
    rw [hbefore] at h
    cases h
  | ok next =>
    have hpopulated : Populated (Ties cmp entry.1) next.root :=
      build_populated hne htie hbefore
    rw [hbefore] at h
    have hinsert : tryInsert cmp next entry = .error (lit "Duplicate B+ tree key") := by
      rw [tryInsert, insert, insertNode_of_ties (fun _ h ↦ h) hpopulated]
      rfl
    change (entry :: after).foldlM (tryInsert cmp) next = .ok tree at h
    rw [List.foldlM_cons, hinsert] at h
    cases h

/-- A key that ties with all others is found in a tree that is built of some pairs. -/
theorem find_of_build {maxKeys : Nat} {key : κ} (h : build cmp maxKeys entries = .ok tree)
    (hne : entries ≠ []) (htie : ∀ e ∈ entries, Ties cmp key e.1) :
    ∃ row, tree.find cmp key = some row :=
  find_of_ties (P := Ties cmp key) (fun _ h ↦ h) (build_populated hne htie h)

/-! ### Lookups -/

/-- Pairs whose keys are all different are all stored. -/
theorem inserted_eq_self (h : entries.Pairwise fun e e' ↦ cmp e.1 e'.1 ≠ .eq) :
    inserted cmp entries = entries := by
  have hfold : ∀ (entries pairs : List (κ × RowId)),
      (pairs ++ entries).Pairwise (fun e e' ↦ cmp e.1 e'.1 ≠ .eq) →
      entries.foldl (insertPair cmp) pairs = pairs ++ entries := by
    intro entries
    induction entries with
    | nil => exact fun pairs _ ↦ (List.append_nil pairs).symm
    | cons entry entries ih =>
      intro pairs hpairs
      have hnone : lookupRow cmp pairs entry.1 = none := by
        rw [lookupRow, Option.map_eq_none_iff, List.find?_eq_none]
        intro p hp heq
        exact (List.pairwise_append.1 hpairs).2.2 p hp entry List.mem_cons_self (by simpa using heq)
      rw [List.foldl_cons, insertPair, hnone, if_neg (by simp), ih _ (by simpa using hpairs),
        List.append_assoc]
      rfl
  exact hfold entries [] h

/-- Different keys of a strict total order are told apart. -/
theorem pairwise_ne_of_nodup {D : Set κ} (hD : StrictTotalOn cmp D)
    (hkeys : ∀ entry ∈ entries, entry.1 ∈ D) (hdistinct : (entries.map (·.1)).Nodup) :
    entries.Pairwise fun e e' ↦ cmp e.1 e'.1 ≠ .eq :=
  (List.pairwise_map.1 hdistinct).imp_of_mem fun he he' hne heq ↦
    hne ((hD.eq_iff _ (hkeys _ he) _ (hkeys _ he')).1 heq)

/-- A tree can be built of pairs with different keys. -/
theorem exists_build {D : Set κ} (hD : StrictTotalOn cmp D) (maxKeys : Nat)
    (hkeys : ∀ entry ∈ entries, entry.1 ∈ D) (hdistinct : (entries.map (·.1)).Nodup) :
    ∃ tree, build cmp maxKeys entries = .ok tree := by
  induction entries using List.reverseRecOn with
  | nil => exact ⟨_, rfl⟩
  | append_singleton entries entry ih =>
    have hkeys' : ∀ e ∈ entries, e.1 ∈ D := fun e he ↦ hkeys e (List.mem_append_left _ he)
    have hdistinct' : (entries.map (·.1)).Nodup := by
      rw [List.map_append] at hdistinct
      exact hdistinct.of_append_left
    obtain ⟨tree, htree⟩ := ih hkeys' hdistinct'
    obtain ⟨pairs, hperm, hindexes⟩ := indexes_insertAll hD maxKeys hkeys'
    rw [inserted_eq_self (pairwise_ne_of_nodup hD hkeys' hdistinct')] at hperm
    have hnone : lookupRow cmp pairs entry.1 = none := by
      rw [lookupRow, Option.map_eq_none_iff, List.find?_eq_none]
      intro e he heq
      have hmem := hperm.mem_iff.1 he
      have hpairwise := pairwise_ne_of_nodup hD hkeys hdistinct
      exact (List.pairwise_append.1 hpairwise).2.2 e hmem entry (List.mem_singleton_self _) (by simpa using heq)
    have hinsert := hindexes.insert_eq entry.1 (hkeys entry (by simp)) entry.2
    rw [hnone, if_neg (by simp), ← foldlM_tryInsert_eq_ok htree] at hinsert
    have hstep : tryInsert cmp tree entry = .ok (tree.insert cmp entry.1 entry.2).1 := by
      rw [tryInsert, ← Prod.eta (tree.insert cmp entry.1 entry.2), hinsert]
      rfl
    refine ⟨(tree.insert cmp entry.1 entry.2).1, ?_⟩
    rw [build, List.foldlM_append, ← build, htree]
    change List.foldlM (tryInsert cmp) tree [entry] = _
    rw [List.foldlM_cons, hstep]
    rfl

/-- A tree that is built of pairs with different keys finds the row of an equal key. -/
theorem find_build_iff {D : Set κ} (hD : StrictTotalOn cmp D) {maxKeys : Nat}
    (hkeys : ∀ entry ∈ entries, entry.1 ∈ D) (hdistinct : (entries.map (·.1)).Nodup)
    (h : build cmp maxKeys entries = .ok tree) {key : κ} (hkey : key ∈ D) {row : RowId} :
    tree.find cmp key = some row ↔ ∃ entry ∈ entries, cmp entry.1 key = .eq ∧ entry.2 = row := by
  obtain ⟨pairs, hperm, hindexes⟩ := indexes_insertAll hD maxKeys hkeys
  rw [inserted_eq_self (pairwise_ne_of_nodup hD hkeys hdistinct)] at hperm
  rw [foldlM_tryInsert_eq_ok h, hindexes.find_eq key hkey, lookupRow, Option.map_eq_some_iff]
  have hmem : ∀ entry, entry ∈ pairs ↔ entry ∈ entries := fun _ ↦ hperm.mem_iff
  constructor
  · rintro ⟨entry, hfind, rfl⟩
    exact ⟨entry, (hmem entry).1 (List.mem_of_find?_eq_some hfind),
      by simpa using List.find?_some hfind, rfl⟩
  · rintro ⟨entry, hentry, heq, rfl⟩
    cases hfind : pairs.find? fun p ↦ cmp p.1 key == .eq with
    | none => exact absurd (by simpa using heq) (List.find?_eq_none.1 hfind entry ((hmem entry).2 hentry))
    | some found =>
      have hfound := (hmem found).1 (List.mem_of_find?_eq_some hfind)
      have hfoundEq : cmp found.1 key = .eq := by simpa using List.find?_some hfind
      have hsame : found.1 = entry.1 := by
        rw [(hD.eq_iff _ (hkeys found hfound) _ hkey).1 hfoundEq,
          (hD.eq_iff _ (hkeys entry hentry) _ hkey).1 heq]
      exact ⟨found, rfl, congrArg Prod.snd (List.inj_on_of_nodup_map hdistinct hfound hentry hsame)⟩

end

end BPlusTree

end SkibidiQL
