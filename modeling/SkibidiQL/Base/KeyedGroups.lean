import SkibidiQL.Base.ExceptRules
import Mathlib.Data.Finset.Card
import Mathlib.Data.List.Infix

/-!
# Groups by key

Rows are grouped by a key into the entries of a hash map. One way keeps the rows of each group and folds
them when all are seen, the other folds each row into its group as it comes. `Folded` relates the two, and
`accumulate_folded` says that they agree: on the groups and their states, and on whether a fold fails.

A hash map is the list of its entries in the order of their insertion, searched with `==`. The order in which
it is gone through afterwards is another one (`MapOrder`), of which nothing is known but that it depends on
the keys alone: two maps with the same keys, inserted in the same order, are gone through alike.
-/

namespace KeyedGroups

variable {κ σ ρ ε : Type}

/-! ### Folds that can fail -/

section Fold

variable {step : σ → ρ → Except ε σ} {s : σ} {rows rows' : List ρ}

/-- A fold that fails on a prefix fails. -/
theorem foldlM_error_of_append (hsublist : rows <+: rows') {e : ε} (h : rows.foldlM step s = .error e) :
    rows'.foldlM step s = .error e := by
  obtain ⟨rest, rfl⟩ := hsublist
  rw [List.foldlM_append, h]
  rfl

/-- A fold over one row more. -/
theorem foldlM_snoc (row : ρ) :
    (rows ++ [row]).foldlM step s = rows.foldlM step s >>= fun t ↦ step t row := by
  rw [List.foldlM_append]
  congr 1
  funext t
  simp

end Fold

/-! ### Going through the entries -/

/-- The order in which a hash map is gone through, as positions in the order of the insertion. It depends on
the keys alone. -/
structure MapOrder (κ : Type) where
  positions : List κ → List ℕ
  perm : ∀ keys, (positions keys).Perm (List.range keys.length)

/-- The same keys in the same order, with related states. -/
def Related {κ σ σ' : Type} (R : σ → σ' → Prop) : List (κ × σ) → List (κ × σ') → Prop :=
  List.Forall₂ fun group group' ↦ group.1 = group'.1 ∧ R group.2 group'.2

/-- Related groups have the same keys. -/
theorem Related.keys_eq {κ σ σ' : Type} {R : σ → σ' → Prop} {groups : List (κ × σ)} {groups' : List (κ × σ')}
    (h : Related R groups groups') : groups.map (·.1) = groups'.map (·.1) := by
  induction h with
  | nil => rfl
  | cons hhead _ ih => exact congrArg₂ List.cons hhead.1 ih

namespace MapOrder

variable {κ σ σ' : Type} (order : MapOrder κ)

/-- The entries of the map, as a loop over it meets them. -/
def entries (groups : List (κ × σ)) : List (κ × σ) :=
  (order.positions (groups.map (·.1))).filterMap fun position ↦ groups[position]?

/-- The positions of a list pick the list. -/
theorem filterMap_range_getElem? {α : Type} (l : List α) :
    (List.range l.length).filterMap (fun position ↦ l[position]?) = l := by
  induction l with
  | nil => rfl
  | cons a l ih =>
    rw [List.length_cons, List.range_succ_eq_map, List.filterMap_cons, List.getElem?_cons_zero,
      List.filterMap_map]
    exact congrArg (a :: ·) ih

/-- A loop meets every entry once. -/
theorem entries_perm (groups : List (κ × σ)) : (order.entries groups).Perm groups := by
  have hperm := (order.perm (groups.map (·.1))).filterMap fun position ↦ groups[position]?
  rwa [List.length_map, filterMap_range_getElem?] at hperm

@[simp] theorem entries_nil : order.entries ([] : List (κ × σ)) = [] :=
  (order.entries_perm []).eq_nil

@[simp] theorem entries_singleton (group : κ × σ) : order.entries [group] = [group] :=
  List.perm_singleton.1 (order.entries_perm [group])

theorem mem_entries {groups : List (κ × σ)} {group : κ × σ} : group ∈ order.entries groups ↔ group ∈ groups :=
  (order.entries_perm groups).mem_iff

/-- What is stored under the keys has no influence on the order. -/
theorem entries_related {R : σ → σ' → Prop} {groups : List (κ × σ)} {groups' : List (κ × σ')}
    (h : Related R groups groups') : Related R (order.entries groups) (order.entries groups') := by
  rw [entries, entries, ← h.keys_eq]
  induction order.positions (groups.map (·.1)) with
  | nil => exact .nil
  | cons position positions ih =>
    rw [List.filterMap_cons, List.filterMap_cons]
    -- The two lists have the same length, so a position is in both or in none.
    rcases hget : groups[position]? with - | group
    · rw [List.getElem?_eq_none (h.length_eq ▸ List.getElem?_eq_none_iff.1 hget)]
      exact ih
    · obtain ⟨hlt, rfl⟩ := List.getElem?_eq_some_iff.1 hget
      rw [List.getElem?_eq_getElem (h.length_eq ▸ hlt)]
      exact .cons (List.forall₂_iff_get.1 h |>.2 position hlt (h.length_eq ▸ hlt)) ih

/-- The order does not depend on what the groups hold. -/
theorem entries_map (f : σ → σ') (groups : List (κ × σ)) :
    order.entries (groups.map fun group ↦ (group.1, f group.2)) =
      (order.entries groups).map fun group ↦ (group.1, f group.2) := by
  have hkeys : (groups.map fun group ↦ (group.1, f group.2)).map (·.1) = groups.map (·.1) := by
    rw [List.map_map]
    rfl
  rw [entries, entries, hkeys, List.map_filterMap]
  refine List.filterMap_congr fun position _ ↦ ?_
  rw [List.getElem?_map]

end MapOrder

/-- The map whose newest entry comes first, as in `libstdc++` as long as no two keys share a bucket. -/
def newestFirst {κ : Type} : MapOrder κ where
  positions keys := (List.range keys.length).reverse
  perm _ := List.reverse_perm _

variable [BEq κ]

/-- `operator[]` of a hash map, and a change of the entry it returns; a missing entry is first `init`. -/
def modifyAt (init : σ) (f : σ → Except ε σ) (key : κ) : List (κ × σ) → Except ε (List (κ × σ))
  | [] => do pure [(key, ← f init)]
  | (k, s) :: rest =>
    if k == key then do pure ((k, ← f s) :: rest) else do pure ((k, s) :: (← modifyAt init f key rest))

/-- Each row is folded into the entry of its key. -/
def accumulate (init : σ) (keyOf : ρ → Except ε κ) (step : σ → ρ → Except ε σ) (groups : List (κ × σ))
    (rows : List ρ) : Except ε (List (κ × σ)) :=
  rows.foldlM (fun groups row ↦ do modifyAt init (step · row) (← keyOf row) groups) groups

/-- The first row goes into its group, and then the rest follow. -/
theorem accumulate_cons {init : σ} {keyOf : ρ → Except ε κ} {step : σ → ρ → Except ε σ}
    {groups : List (κ × σ)} {row : ρ} {rows : List ρ} :
    accumulate init keyOf step groups (row :: rows) =
      keyOf row >>= fun key ↦
        modifyAt init (step · row) key groups >>= fun groups' ↦
          accumulate init keyOf step groups' rows := by
  rw [accumulate, List.foldlM_cons, bind_assoc]
  rfl

/-- Each row is stored behind the rows of its key. -/
def collect (keyOf : ρ → Except ε κ) (groups : List (κ × List ρ)) (rows : List ρ) :
    Except ε (List (κ × List ρ)) :=
  accumulate [] keyOf (fun group row ↦ pure (group ++ [row])) groups rows

/-- The groups without their error type: `row` stored behind the rows of its key. -/
def store (key : κ) (row : ρ) : List (κ × List ρ) → List (κ × List ρ)
  | [] => [(key, [row])]
  | (k, group) :: rest =>
    if k == key then (k, group ++ [row]) :: rest else (k, group) :: store key row rest

section Collect

variable {keyOf : ρ → Except ε κ} {groups groups' : List (κ × List ρ)} {row : ρ} {rows : List ρ}

/-- Storing a row is the modification that appends it. -/
theorem modifyAt_store (key : κ) (groups : List (κ × List ρ)) :
    modifyAt [] (fun group ↦ pure (group ++ [row])) key groups =
      (.ok (store key row groups) : Except ε _) := by
  induction groups with
  | nil => rfl
  | cons group rest ih =>
    obtain ⟨k, group⟩ := group
    by_cases hk : k == key
    · rw [modifyAt, store, if_pos hk, if_pos hk]
      rfl
    · rw [modifyAt, store, if_neg hk, if_neg hk, ih]
      rfl

/-- The first row is stored, and then the rest follow. -/
theorem collect_cons :
    collect keyOf groups (row :: rows) =
      keyOf row >>= fun key ↦ collect keyOf (store key row groups) rows := by
  rw [collect, accumulate_cons]
  congr 1
  funext key
  rw [modifyAt_store]
  rfl

/-- Storing commutes with a map of the rows. -/
theorem store_map {ρ' : Type} (f : ρ' → ρ) (key : κ) (row : ρ') (groups : List (κ × List ρ')) :
    store key (f row) (groups.map fun group ↦ (group.1, group.2.map f)) =
      (store key row groups).map fun group ↦ (group.1, group.2.map f) := by
  induction groups with
  | nil => rfl
  | cons group rest ih =>
    rw [List.map_cons, store, store, ih]
    split
    · rw [List.map_cons, List.map_append]
      rfl
    · rfl

/-- Rows that are read from others are grouped as those are. -/
theorem collect_map {ρ' : Type} (f : ρ' → ρ) (rows groups) :
    collect keyOf (groups.map fun group ↦ (group.1, group.2.map f)) (rows.map f) =
      collect (fun row ↦ keyOf (f row)) groups rows >>= fun groups' ↦
        .ok (groups'.map fun group ↦ (group.1, group.2.map f)) := by
  induction rows generalizing groups with
  | nil => rfl
  | cons row rows ih =>
    rw [List.map_cons, collect_cons, collect_cons, bind_assoc]
    congr 1
    funext key
    rw [store_map, ih]

/-- Storing a row only extends the groups. -/
theorem exists_prefix_store (key : κ) {group : κ × List ρ} (h : group ∈ groups) :
    ∃ rows, (group.1, rows) ∈ store key row groups ∧ group.2 <+: rows := by
  induction groups with
  | nil => exact absurd h List.not_mem_nil
  | cons first rest ih =>
    obtain ⟨k, stored⟩ := first
    rw [store]
    rcases List.mem_cons.1 h with rfl | hrest
    · split
      · exact ⟨_, List.mem_cons_self, List.prefix_append _ _⟩
      · exact ⟨_, List.mem_cons_self, List.prefix_rfl⟩
    · split
      · exact ⟨_, List.mem_cons_of_mem _ hrest, List.prefix_rfl⟩
      · obtain ⟨rows, hrows, hsublist⟩ := ih hrest
        exact ⟨rows, List.mem_cons_of_mem _ hrows, hsublist⟩

/-- A group only grows at its end while rows are collected. -/
theorem exists_prefix_collect {group : κ × List ρ} (hgroup : group ∈ groups)
    (h : collect keyOf groups rows = .ok groups') :
    ∃ rows, (group.1, rows) ∈ groups' ∧ group.2 <+: rows := by
  induction rows generalizing groups group with
  | nil =>
    obtain rfl := Except.ok.inj h
    exact ⟨_, hgroup, List.prefix_rfl⟩
  | cons row rows ih =>
    rw [collect_cons] at h
    rcases hkey : keyOf row with e | key
    · rw [hkey] at h
      exact absurd h nofun
    · rw [hkey] at h
      obtain ⟨stored, hstored, hsublist⟩ := exists_prefix_store key hgroup
      obtain ⟨all, hall, hsublist'⟩ := ih hstored h
      exact ⟨all, hall, hsublist.trans hsublist'⟩

/-- A property of groups that holds at the start and is kept when a row is added holds of all. -/
theorem forall_store {P : List ρ → Prop} (hnil : P [row]) (hsnoc : ∀ group, P group → P (group ++ [row]))
    (key : κ) (h : ∀ group ∈ groups, P group.2) : ∀ group ∈ store key row groups, P group.2 := by
  induction groups with
  | nil =>
    rintro group hgroup
    rw [store, List.mem_singleton] at hgroup
    rw [hgroup]
    exact hnil
  | cons first rest ih =>
    obtain ⟨k, stored⟩ := first
    obtain ⟨hfirst, hrest⟩ := List.forall_mem_cons.1 h
    rw [store]
    split
    · exact List.forall_mem_cons.2 ⟨hsnoc _ hfirst, hrest⟩
    · exact List.forall_mem_cons.2 ⟨hfirst, ih hrest⟩

/-- What holds of every new group and is kept by a further row holds of all groups. -/
theorem forall_collect {P : List ρ → Prop} (hnil : ∀ row ∈ rows, P [row])
    (hsnoc : ∀ group, ∀ row ∈ rows, P group → P (group ++ [row])) (h : ∀ group ∈ groups, P group.2)
    (hcollect : collect keyOf groups rows = .ok groups') : ∀ group ∈ groups', P group.2 := by
  induction rows generalizing groups with
  | nil =>
    obtain rfl := Except.ok.inj hcollect
    exact h
  | cons row rows ih =>
    rw [collect_cons] at hcollect
    rcases hkey : keyOf row with e | key
    · rw [hkey] at hcollect
      exact absurd hcollect nofun
    · rw [hkey] at hcollect
      obtain ⟨hnil_row, hnil_rows⟩ := List.forall_mem_cons.1 hnil
      have hsnoc_row : ∀ group, P group → P (group ++ [row]) := fun group ↦
        hsnoc group row List.mem_cons_self
      exact ih hnil_rows (fun group row' hrow' ↦ hsnoc group row' (List.mem_cons_of_mem _ hrow'))
        (forall_store hnil_row hsnoc_row key h) hcollect

/-- Storing adds the row and nothing else. -/
theorem store_perm (key : κ) (row : ρ) (groups : List (κ × List ρ)) :
    ((store key row groups).flatMap (·.2)).Perm (row :: groups.flatMap (·.2)) := by
  induction groups with
  | nil => exact .refl _
  | cons first rest ih =>
    obtain ⟨k, stored⟩ := first
    rw [store]
    split
    · show ((stored ++ [row]) ++ rest.flatMap (·.2)).Perm (row :: (stored ++ rest.flatMap (·.2)))
      rw [List.append_assoc]
      exact List.perm_middle
    · show (stored ++ (store key row rest).flatMap (·.2)).Perm (row :: (stored ++ rest.flatMap (·.2)))
      exact (ih.append_left stored).trans List.perm_middle

/-- Every row is in one group. -/
theorem collect_perm (hcollect : collect keyOf groups rows = .ok groups') :
    (groups'.flatMap (·.2)).Perm (groups.flatMap (·.2) ++ rows) := by
  induction rows generalizing groups with
  | nil =>
    obtain rfl := Except.ok.inj hcollect
    rw [List.append_nil]
  | cons row rows ih =>
    rw [collect_cons] at hcollect
    obtain ⟨key, -, hcollect⟩ := Except.bind_eq_ok.1 hcollect
    exact (ih hcollect).trans (((store_perm key row groups).append_right rows).trans
      List.perm_middle.symm)

/-! ### Partitions -/

/-- A row is stored behind the first group with its key, or in a new group. -/
theorem store_cases (key : κ) (row : ρ) (groups : List (κ × List ρ)) :
    (∃ front group back, groups = front ++ group :: back ∧ group.1 == key ∧
      store key row groups = front ++ (group.1, group.2 ++ [row]) :: back) ∨
    ((∀ group ∈ groups, ¬(group.1 == key)) ∧ store key row groups = groups ++ [(key, [row])]) := by
  induction groups with
  | nil => exact .inr ⟨nofun, rfl⟩
  | cons first rest ih =>
    obtain ⟨k, stored⟩ := first
    rw [store]
    by_cases hk : k == key
    · rw [if_pos hk]
      exact .inl ⟨[], (k, stored), rest, rfl, hk, rfl⟩
    · rw [if_neg hk]
      rcases ih with ⟨front, group, back, rfl, hkey, hstore⟩ | ⟨hkeys, hstore⟩
      · exact .inl ⟨(k, stored) :: front, group, back, rfl, hkey, by rw [hstore]; rfl⟩
      · refine .inr ⟨?_, by rw [hstore]; rfl⟩
        rw [List.forall_mem_cons]
        exact ⟨hk, hkeys⟩

variable {γ : Type} [DecidableEq γ] {keyOf' : ρ → κ} {code : ρ → γ}

/-- The groups of the rows, one for each code: those of its code, under the key of one of them. -/
structure Partition (keyOf' : ρ → κ) (code : ρ → γ) (rows : List ρ) (groups : List (κ × List ρ)) : Prop where
  group : ∀ group ∈ groups, ∃ row ∈ rows, group.1 = keyOf' row ∧
    group.2 = rows.filter fun r ↦ decide (code r = code row)
  disjoint : groups.Pairwise fun group group' ↦ ∀ row ∈ group.2, ∀ row' ∈ group'.2, code row ≠ code row'
  covers : ∀ row ∈ rows, ∃ group ∈ groups, row ∈ group.2

/-- A row changes the rows of no other code. -/
theorem filter_code_snoc {r : ρ} (hne : code row ≠ code r) :
    (rows ++ [row]).filter (fun r' ↦ decide (code r' = code r)) =
      rows.filter fun r' ↦ decide (code r' = code r) := by
  rw [List.filter_append, List.filter_cons_of_neg (by simpa using hne), List.filter_nil, List.append_nil]

omit [BEq κ] in
/-- The rows of a group are among the rows. -/
theorem Partition.mem_rows (h : Partition keyOf' code rows groups) {group : κ × List ρ} (hgroup : group ∈ groups)
    {r : ρ} (hr : r ∈ group.2) : r ∈ rows := by
  obtain ⟨r', -, -, hrows⟩ := h.group group hgroup
  rw [hrows] at hr
  exact (List.mem_filter.1 hr).1

section Extend

variable {front back : List (κ × List ρ)} {group : κ × List ρ} {r : ρ}

omit [BEq κ] in
/-- The rows of the other groups have other codes. -/
theorem Partition.code_ne (h : Partition keyOf' code rows (front ++ group :: back)) (hr : r ∈ group.2)
    {other : κ × List ρ} (hother : other ∈ front ++ back) {r' : ρ} (hr' : r' ∈ other.2) : code r' ≠ code r := by
  have hdisjoint := h.disjoint
  rw [List.pairwise_append, List.pairwise_cons] at hdisjoint
  rcases List.mem_append.1 hother with hother | hother
  · exact hdisjoint.2.2 other hother group List.mem_cons_self r' hr' r hr
  · exact (hdisjoint.2.1.1 other hother r hr r' hr').symm

omit [BEq κ] in
/-- With one row more in the group of its code the groups stay apart. -/
theorem Partition.extend_disjoint (h : Partition keyOf' code rows (front ++ group :: back)) (hr : r ∈ group.2)
    (heq : code r = code row) : (front ++ (group.1, group.2 ++ [row]) :: back).Pairwise fun group group' ↦
      ∀ row ∈ group.2, ∀ row' ∈ group'.2, code row ≠ code row' := by
  have hdisjoint := h.disjoint
  rw [List.pairwise_append, List.pairwise_cons] at hdisjoint ⊢
  obtain ⟨hfront, ⟨hgroupBack, hback⟩, hcross⟩ := hdisjoint
  refine ⟨hfront, ⟨fun g hg r' hr' r'' hr'' ↦ ?_, hback⟩, fun g hg g' hg' r' hr' r'' hr'' ↦ ?_⟩
  · rcases List.mem_append.1 hr' with hr' | hr'
    · exact hgroupBack g hg r' hr' r'' hr''
    · rw [List.mem_singleton.1 hr', ← heq]
      exact (h.code_ne hr (List.mem_append_right _ hg) hr'').symm
  · rcases List.mem_cons.1 hg' with rfl | hg'
    · rcases List.mem_append.1 hr'' with hr'' | hr''
      · exact hcross g hg group List.mem_cons_self r' hr' r'' hr''
      · rw [List.mem_singleton.1 hr'', ← heq]
        exact h.code_ne hr (List.mem_append_left _ hg) hr'
    · exact hcross g hg g' (List.mem_cons_of_mem _ hg') r' hr' r'' hr''

omit [BEq κ] in
/-- A row joins the group of its code. -/
theorem Partition.extend (h : Partition keyOf' code rows (front ++ group :: back)) (hr : r ∈ group.2)
    (heq : code r = code row) :
    Partition keyOf' code (rows ++ [row]) (front ++ (group.1, group.2 ++ [row]) :: back) := by
  have hrest : ∀ g ∈ front ++ back, ∃ r ∈ rows ++ [row], g.1 = keyOf' r ∧
      g.2 = (rows ++ [row]).filter fun r' ↦ decide (code r' = code r) := by
    intro g hg
    have hg' : g ∈ front ++ group :: back := by
      rw [List.mem_append, List.mem_cons]
      exact (List.mem_append.1 hg).imp_right .inr
    obtain ⟨r', hr', hkey, hrows⟩ := h.group g hg'
    have hmem : r' ∈ g.2 := by
      rw [hrows]
      exact List.mem_filter.2 ⟨hr', decide_eq_true rfl⟩
    -- Another group has another code, so the row does not belong to it.
    have hne : code row ≠ code r' := heq ▸ (h.code_ne hr hg hmem).symm
    exact ⟨r', List.mem_append_left _ hr', hkey, by rw [filter_code_snoc hne, hrows]⟩
  have hgroup : ∃ r ∈ rows ++ [row], group.1 = keyOf' r ∧
      group.2 ++ [row] = (rows ++ [row]).filter fun r' ↦ decide (code r' = code r) := by
    obtain ⟨r', hr', hkey, hrows⟩ := h.group group (List.mem_append_right _ List.mem_cons_self)
    rw [hrows] at hr
    have hcode : code row = code r' := heq ▸ of_decide_eq_true (List.mem_filter.1 hr).2
    refine ⟨r', List.mem_append_left _ hr', hkey, ?_⟩
    rw [List.filter_append, List.filter_cons_of_pos (by simpa using hcode), List.filter_nil, ← hrows]
  refine ⟨fun g hg ↦ ?_, h.extend_disjoint hr heq, fun r' hr' ↦ ?_⟩
  · rw [List.mem_append, List.mem_cons] at hg
    rcases hg with hg | rfl | hg
    · exact hrest g (List.mem_append_left _ hg)
    · exact hgroup
    · exact hrest g (List.mem_append_right _ hg)
  · rcases List.mem_append.1 hr' with hr' | hr'
    · obtain ⟨g, hg, hrg⟩ := h.covers r' hr'
      rcases List.mem_append.1 hg with hg | hg
      · exact ⟨g, List.mem_append_left _ hg, hrg⟩
      · rcases List.mem_cons.1 hg with rfl | hg
        · exact ⟨_, List.mem_append_right _ List.mem_cons_self, List.mem_append_left _ hrg⟩
        · exact ⟨g, List.mem_append_right _ (List.mem_cons_of_mem _ hg), hrg⟩
    · rw [List.mem_singleton.1 hr']
      exact ⟨_, List.mem_append_right _ List.mem_cons_self, List.mem_append_right _ (List.mem_singleton_self _)⟩

end Extend

omit [BEq κ] in
/-- A row with a code of its own makes a group. -/
theorem Partition.add (h : Partition keyOf' code rows groups) (hnew : ∀ r ∈ rows, code r ≠ code row) :
    Partition keyOf' code (rows ++ [row]) (groups ++ [(keyOf' row, [row])]) := by
  refine ⟨fun g hg ↦ ?_, ?_, fun r hr ↦ ?_⟩
  · rcases List.mem_append.1 hg with hg | hg
    · obtain ⟨r, hr, hkey, hrows⟩ := h.group g hg
      exact ⟨r, List.mem_append_left _ hr, hkey, by rw [filter_code_snoc (hnew r hr).symm, ← hrows]⟩
    · rw [List.mem_singleton.1 hg]
      refine ⟨row, List.mem_append_right _ (List.mem_singleton_self _), rfl, ?_⟩
      rw [List.filter_append, List.filter_eq_nil_iff.2 fun r hr ↦ by simpa using hnew r hr]
      simp
  · rw [List.pairwise_append]
    refine ⟨h.disjoint, List.pairwise_singleton _ _, fun g hg g' hg' r hr r' hr' ↦ ?_⟩
    rw [List.mem_singleton.1 hg', List.mem_singleton] at hr'
    rw [hr']
    exact hnew r (h.mem_rows hg hr)
  · rcases List.mem_append.1 hr with hr | hr
    · obtain ⟨g, hg, hrg⟩ := h.covers r hr
      exact ⟨g, List.mem_append_left _ hg, hrg⟩
    · rw [List.mem_singleton.1 hr]
      exact ⟨_, List.mem_append_right _ (List.mem_singleton_self _), List.mem_singleton_self _⟩

/-- The groups with one row more, when keys are equal exactly for equal codes. -/
theorem Partition.store (h : Partition keyOf' code rows groups)
    (hcode : ∀ r ∈ rows, (keyOf' r == keyOf' row) = decide (code r = code row)) :
    Partition keyOf' code (rows ++ [row]) (KeyedGroups.store (keyOf' row) row groups) := by
  rcases store_cases (keyOf' row) row groups with
    ⟨front, group, back, rfl, hkey, hstore⟩ | ⟨hkeys, hstore⟩
  · rw [hstore]
    obtain ⟨r, hr, hgroupKey, hrows⟩ := h.group group (List.mem_append_right _ List.mem_cons_self)
    rw [hgroupKey, hcode r hr, decide_eq_true_iff] at hkey
    have hmem : r ∈ group.2 := by
      rw [hrows]
      exact List.mem_filter.2 ⟨hr, decide_eq_true rfl⟩
    exact h.extend hmem hkey
  · rw [hstore]
    -- A row of the same code would be in a group, whose key is then equal to the new one.
    refine h.add fun r hr heq ↦ ?_
    obtain ⟨group, hgroup, hrow⟩ := h.covers r hr
    obtain ⟨r', hr', hkey, hrows⟩ := h.group group hgroup
    rw [hrows] at hrow
    have hcode' : code r = code r' := of_decide_eq_true (List.mem_filter.1 hrow).2
    refine hkeys group hgroup ?_
    rw [hkey, hcode r' hr', decide_eq_true_iff, ← hcode', heq]

/-- Collecting rows from the start partitions them. -/
theorem collect_partition (hkey : ∀ r ∈ rows, keyOf r = .ok (keyOf' r))
    (hcode : ∀ r ∈ rows, ∀ r' ∈ rows, (keyOf' r == keyOf' r') = decide (code r = code r')) :
    ∃ groups, collect keyOf [] rows = .ok groups ∧ Partition keyOf' code rows groups := by
  have hrun : ∀ (rest seen : List ρ) (groups : List (κ × List ρ)), (∀ r ∈ seen ++ rest, r ∈ rows) →
      Partition keyOf' code seen groups → ∃ groups', collect keyOf groups rest = .ok groups' ∧
        Partition keyOf' code (seen ++ rest) groups' := by
    intro rest
    induction rest with
    | nil => exact fun seen groups _ h ↦ ⟨groups, rfl, by rwa [List.append_nil]⟩
    | cons row rest ih =>
      intro seen groups hrows h
      have hrow : row ∈ rows := hrows row (List.mem_append_right _ List.mem_cons_self)
      have hstore := h.store fun r hr ↦ hcode r (hrows r (List.mem_append_left _ hr)) row hrow
      rw [List.append_cons] at hrows ⊢
      rw [collect_cons, hkey row hrow, Except.ok_bind]
      exact ih _ _ hrows hstore
  have hnil : Partition keyOf' code [] ([] : List (κ × List ρ)) := ⟨nofun, .nil, nofun⟩
  exact hrun rows [] [] (fun _ ↦ id) hnil

end Collect

section Partition

variable {γ δ κ κ' : Type} [DecidableEq γ] [DecidableEq δ] {keyOf : ρ → κ} {keyOf' : ρ → κ'} {code : ρ → γ}
  {code' : ρ → δ} {rows : List ρ} {groups : List (κ × List ρ)} {groups' : List (κ' × List ρ)}

/-- A loop over the groups meets a partition. -/
theorem Partition.entries (h : Partition keyOf code rows groups) (order : MapOrder κ) :
    Partition keyOf code rows (order.entries groups) where
  group group hgroup := h.group group (order.mem_entries.1 hgroup)
  disjoint := ((order.entries_perm groups).pairwise_iff
    fun hdisjoint row hrow row' hrow' heq ↦ hdisjoint row' hrow' row hrow heq.symm).2 h.disjoint
  covers row hrow := by
    obtain ⟨group, hgroup, hmem⟩ := h.covers row hrow
    exact ⟨group, order.mem_entries.2 hgroup, hmem⟩

/-- The rows of a group are those of some code. -/
theorem Partition.mem_iff (h : Partition keyOf code rows groups) {l : List ρ} :
    l ∈ groups.map (·.2) ↔ ∃ row ∈ rows, l = rows.filter fun r ↦ decide (code r = code row) := by
  rw [List.mem_map]
  constructor
  · rintro ⟨group, hgroup, rfl⟩
    obtain ⟨row, hrow, -, hrows⟩ := h.group group hgroup
    exact ⟨row, hrow, hrows⟩
  · rintro ⟨row, hrow, rfl⟩
    obtain ⟨group, hgroup, hmem⟩ := h.covers row hrow
    obtain ⟨row', -, -, hrows⟩ := h.group group hgroup
    refine ⟨group, hgroup, ?_⟩
    rw [hrows] at hmem
    have hcode : code row = code row' := by simpa using (List.mem_filter.1 hmem).2
    rw [hrows, hcode]

/-- No group of a partition is empty. -/
theorem Partition.exists_mem (h : Partition keyOf code rows groups) {group : κ × List ρ}
    (hgroup : group ∈ groups) : ∃ row, row ∈ group.2 := by
  obtain ⟨row, hrow, -, hrows⟩ := h.group group hgroup
  exact ⟨row, by rw [hrows]; exact List.mem_filter.2 ⟨hrow, decide_eq_true rfl⟩⟩

/-- No two groups of a partition have the same rows. -/
theorem Partition.nodup (h : Partition keyOf code rows groups) : (groups.map (·.2)).Nodup := by
  rw [List.Nodup, List.pairwise_map]
  refine h.disjoint.imp_of_mem fun hgroup _ hdisjoint heq ↦ ?_
  obtain ⟨row, hrow⟩ := h.exists_mem hgroup
  exact hdisjoint row hrow row (heq ▸ hrow) rfl

/-- Codes that separate the same rows make the same groups. -/
theorem Partition.perm (h : Partition keyOf code rows groups) (h' : Partition keyOf' code' rows groups')
    (hcode : ∀ r ∈ rows, ∀ r' ∈ rows, code r = code r' ↔ code' r = code' r') :
    (groups.map (·.2)).Perm (groups'.map (·.2)) := by
  refine (List.perm_ext_iff_of_nodup h.nodup h'.nodup).2 fun l ↦ ?_
  rw [h.mem_iff, h'.mem_iff]
  refine exists_congr fun row ↦ and_congr_right fun hrow ↦ ?_
  have hfilter : rows.filter (fun r ↦ decide (code r = code row)) =
      rows.filter fun r ↦ decide (code' r = code' row) :=
    List.filter_congr fun r hr ↦ decide_eq_decide.2 (hcode r hr row hrow)
  rw [hfilter]

/-- There are as many groups as codes. -/
theorem Partition.length_eq (h : Partition keyOf code rows groups) :
    groups.length = (rows.map code).toFinset.card := by
  -- The code of a group's first row tells it from the other groups.
  have hnodup : (groups.map fun group ↦ group.2.head?.map code).Nodup := by
    rw [List.Nodup, List.pairwise_map]
    refine h.disjoint.imp_of_mem fun {group group'} hgroup hgroup' hdisjoint heq ↦ ?_
    obtain ⟨row, hrow⟩ := h.exists_mem hgroup
    obtain ⟨row', hrow'⟩ := h.exists_mem hgroup'
    obtain ⟨first, rest, hcons⟩ := List.exists_cons_of_ne_nil (List.ne_nil_of_mem hrow)
    obtain ⟨first', rest', hcons'⟩ := List.exists_cons_of_ne_nil (List.ne_nil_of_mem hrow')
    rw [hcons, hcons'] at hdisjoint heq
    exact hdisjoint first List.mem_cons_self first' List.mem_cons_self (Option.some.inj heq)
  have hcodes : (groups.map fun group ↦ group.2.head?.map code).toFinset =
      (rows.map code).toFinset.map ⟨some, Option.some_injective γ⟩ := by
    ext c
    simp only [List.mem_toFinset, List.mem_map, Finset.mem_map, Function.Embedding.coeFn_mk]
    constructor
    · rintro ⟨group, hgroup, rfl⟩
      obtain ⟨row, hrow, -, hrows⟩ := h.group group hgroup
      refine ⟨code row, ⟨row, hrow, rfl⟩, ?_⟩
      obtain ⟨r, hr⟩ := h.exists_mem hgroup
      obtain ⟨first, rest, hcons⟩ := List.exists_cons_of_ne_nil (List.ne_nil_of_mem hr)
      have hfirst : first ∈ group.2 := by rw [hcons]; exact List.mem_cons_self
      rw [hrows] at hfirst
      rw [hcons, List.head?_cons, Option.map_some, of_decide_eq_true (List.mem_filter.1 hfirst).2]
    · rintro ⟨c, ⟨row, hrow, rfl⟩, rfl⟩
      obtain ⟨group, hgroup, hmem⟩ := h.covers row hrow
      refine ⟨group, hgroup, ?_⟩
      obtain ⟨row', -, -, hrows⟩ := h.group group hgroup
      obtain ⟨first, rest, hcons⟩ := List.exists_cons_of_ne_nil (List.ne_nil_of_mem hmem)
      have hfirst : first ∈ group.2 := by rw [hcons]; exact List.mem_cons_self
      rw [hrows] at hmem hfirst
      rw [hcons, List.head?_cons, Option.map_some, of_decide_eq_true (List.mem_filter.1 hfirst).2,
        of_decide_eq_true (List.mem_filter.1 hmem).2]
  rw [← List.length_map (f := fun group : κ × List ρ ↦ group.2.head?.map code),
    ← List.toFinset_card_of_nodup hnodup, hcodes, Finset.card_map]

/-- A coarser code that makes no fewer groups is no coarser. -/
theorem Partition.eq_of_length_le (h : Partition keyOf code rows groups)
    (h' : Partition keyOf' code' rows groups') {f : γ → δ} (hf : ∀ r ∈ rows, code' r = f (code r))
    (hlength : groups.length ≤ groups'.length) {r r' : ρ} (hr : r ∈ rows) (hr' : r' ∈ rows)
    (heq : code' r = code' r') : code r = code r' := by
  have himage : (rows.map code').toFinset = (rows.map code).toFinset.image f := by
    ext c
    simp only [List.mem_toFinset, List.mem_map, Finset.mem_image]
    constructor
    · rintro ⟨row, hrow, rfl⟩
      exact ⟨_, ⟨row, hrow, rfl⟩, (hf row hrow).symm⟩
    · rintro ⟨_, ⟨row, hrow, rfl⟩, rfl⟩
      exact ⟨row, hrow, hf row hrow⟩
  rw [h.length_eq, h'.length_eq, himage] at hlength
  have hinj := Finset.card_image_iff.1 (Nat.le_antisymm Finset.card_image_le hlength)
  have hmem {r : ρ} (hr : r ∈ rows) : code r ∈ ((rows.map code).toFinset : Set γ) := by
    simpa using ⟨r, hr, rfl⟩
  exact hinj (hmem hr) (hmem hr') (by rw [← hf r hr, ← hf r' hr', heq])

/-- The rows by an index below a bound. -/
theorem partition_range {index : ρ → ℕ} {n : ℕ} (hindex : ∀ r ∈ rows, index r < n) :
    Partition index index rows
      (((List.range n).map fun i ↦ (i, rows.filter fun r ↦ decide (index r = i))).filter fun group ↦
        !group.2.isEmpty) := by
  refine ⟨fun group hgroup ↦ ?_, ?_, fun r hr ↦ ?_⟩
  · obtain ⟨hgroup, hne⟩ := List.mem_filter.1 hgroup
    obtain ⟨i, -, rfl⟩ := List.mem_map.1 hgroup
    rw [Bool.not_eq_true', List.isEmpty_eq_false_iff] at hne
    obtain ⟨row, hrow⟩ := List.exists_mem_of_ne_nil _ hne
    obtain ⟨hrow, hi⟩ := List.mem_filter.1 hrow
    have hi' : index row = i := of_decide_eq_true hi
    exact ⟨row, hrow, hi'.symm, by rw [hi']⟩
  · refine List.Pairwise.filter _ (List.pairwise_map.2 ?_)
    refine List.nodup_range.imp fun hne r hr r' hr' heq ↦ hne ?_
    rw [← of_decide_eq_true (List.mem_filter.1 hr).2, ← of_decide_eq_true (List.mem_filter.1 hr').2, heq]
  · have hmem : r ∈ rows.filter fun r' ↦ decide (index r' = index r) :=
      List.mem_filter.2 ⟨hr, decide_eq_true rfl⟩
    refine ⟨(index r, rows.filter fun r' ↦ decide (index r' = index r)), List.mem_filter.2 ⟨?_, ?_⟩, hmem⟩
    · exact List.mem_map.2 ⟨index r, List.mem_range.2 (hindex r hr), rfl⟩
    · rw [Bool.not_eq_true', List.isEmpty_eq_false_iff]
      exact List.ne_nil_of_mem hmem

end Partition

/-! ### Stored rows against folded rows -/

/-- The states are those of the folds over the stored groups. -/
def Folded (init : σ) (step : σ → ρ → Except ε σ) (groups : List (κ × List ρ)) (states : List (κ × σ)) :
    Prop :=
  Related (fun group state ↦ group.foldlM step init = .ok state) groups states

/-- The fold over one of the groups fails. -/
def Fails (init : σ) (step : σ → ρ → Except ε σ) (groups : List (κ × List ρ)) : Prop :=
  ∃ group ∈ groups, ∃ e, group.2.foldlM step init = .error e

section Folded

variable {init : σ} {keyOf : ρ → Except ε κ} {step : σ → ρ → Except ε σ}
  {groups groups' : List (κ × List ρ)} {states states' : List (κ × σ)} {row : ρ} {rows : List ρ}

/-- A step that fails on a group still fails once more rows are collected. -/
theorem Fails.collect (h : Fails init step groups) (hcollect : collect keyOf groups rows = .ok groups') :
    Fails init step groups' := by
  obtain ⟨group, hgroup, e, he⟩ := h
  obtain ⟨all, hall, hsublist⟩ := exists_prefix_collect hgroup hcollect
  exact ⟨_, hall, e, foldlM_error_of_append hsublist he⟩

/-- Folding one row into the states and storing it in the groups. -/
theorem Folded.modifyAt (key : κ) (h : Folded init step groups states) :
    (∃ states', modifyAt init (step · row) key states = .ok states' ∧
      Folded init step (store key row groups) states') ∨
    ((∃ e, KeyedGroups.modifyAt init (step · row) key states = .error e) ∧
      Fails init step (store key row groups)) := by
  induction h with
  | nil =>
    rcases hstep : step init row with e | s
    · refine .inr ⟨⟨e, ?_⟩, (key, [row]), List.mem_cons_self, e, ?_⟩
      · rw [KeyedGroups.modifyAt, hstep]
        rfl
      · rw [List.foldlM_cons, hstep]
        rfl
    · refine .inl ⟨[(key, s)], ?_, .cons ⟨rfl, ?_⟩ .nil⟩
      · rw [KeyedGroups.modifyAt, hstep]
        rfl
      · show [row].foldlM step init = .ok s
        rw [List.foldlM_cons, hstep]
        rfl
  | @cons group state groups states hhead htail ih =>
    obtain ⟨k, group⟩ := group
    obtain ⟨_, s⟩ := state
    obtain ⟨rfl, hfold⟩ := hhead
    rw [store, KeyedGroups.modifyAt]
    -- The row goes on with the state of its own group, and fails with the fold over this group.
    by_cases hk : k == key
    · rw [if_pos hk, if_pos hk]
      have hsnoc : (group ++ [row]).foldlM step init = step s row := by
        rw [foldlM_snoc, hfold]
        rfl
      rcases hstep : step s row with e | s'
      · exact .inr ⟨⟨e, rfl⟩, _, List.mem_cons_self, e, hsnoc.trans hstep⟩
      · exact .inl ⟨_, rfl, .cons ⟨rfl, hsnoc.trans hstep⟩ htail⟩
    · rw [if_neg hk, if_neg hk]
      rcases ih with ⟨states', hstates', hfolded⟩ | ⟨⟨e, he⟩, group', hgroup', hfails⟩
      · rw [hstates']
        exact .inl ⟨_, rfl, .cons ⟨rfl, hfold⟩ hfolded⟩
      · rw [he]
        exact .inr ⟨⟨e, rfl⟩, group', List.mem_cons_of_mem _ hgroup', hfails⟩

/-- Folding rows into the states as they come agrees with storing them and folding each group. -/
theorem accumulate_folded (keyOf : ρ → Except ε κ) (h : Folded init step groups states)
    (rows : List ρ) :
    (∃ states' groups', accumulate init keyOf step states rows = .ok states' ∧
      KeyedGroups.collect keyOf groups rows = .ok groups' ∧ Folded init step groups' states') ∨
    ((∃ e, accumulate init keyOf step states rows = .error e) ∧
      ∀ groups', KeyedGroups.collect keyOf groups rows = .ok groups' → Fails init step groups') := by
  induction rows generalizing groups states with
  | nil => exact .inl ⟨states, groups, rfl, rfl, h⟩
  | cons row rows ih =>
    rw [accumulate_cons, collect_cons]
    rcases keyOf row with e | key
    · exact .inr ⟨⟨e, rfl⟩, nofun⟩
    · simp only [Except.ok_bind]
      rcases h.modifyAt key with ⟨states', hstates', hfolded⟩ | ⟨⟨e, he⟩, hfails⟩
      · rw [hstates']
        exact ih hfolded
      · rw [he]
        exact .inr ⟨⟨e, rfl⟩, fun groups' hcollect ↦ hfails.collect hcollect⟩

end Folded

end KeyedGroups
