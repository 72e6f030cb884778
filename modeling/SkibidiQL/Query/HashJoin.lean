import SkibidiQL.Query.BloomFilter
import SkibidiQL.Query.QualifiedNames

/-!
# The hash join and the nested loop

The hash branch of `executeSourceOrderJoins`, with its Bloom filter and its hash table, and the loop over all
pairs of rows produce the same rows for an equation between qualified columns, up to the order of the rows
with one key. The hash branch relies on the filter having words for its bits (`hashJoin_agrees_iff`).
-/

namespace SkibidiQL

open Bytes

/-! ### The hash branch -/

/-- The order in which `std::unordered_multimap` lists the entries of one key. -/
structure EqualRangeOrder where
  order : List (Value × EvalRow) → Value → List EvalRow → List EvalRow
  perm : ∀ entries key rows, (order entries key rows).Perm rows

/-- `index.equal_range(key)`: only entries with the hash of the key are compared with it. -/
def equalRange (std : StdHash) (order : EqualRangeOrder) (entries : List (Value × EvalRow)) (key : Value) :
    List EvalRow :=
  order.order entries key
    ((entries.filter fun entry ↦ entry.1.hash std == key.hash std && entry.1 == key).map (·.2))

/-- The loop over the rows of the right side: their keys, in the filter and in the hash table. -/
def indexRows (std : StdHash) (rightKey : ColumnRef) :
    List EvalRow → BloomFilter → List (Value × EvalRow) → Except Error (BloomFilter × List (Value × EvalRow))
  | [], bloom, index => pure (bloom, index)
  | row :: rows, bloom, index => do
    let key ← resolveColumn rightKey row
    if key.isNull then indexRows std rightKey rows bloom index
    else indexRows std rightKey rows (← bloom.add std key) (index ++ [(key, row)])

/-- The rows that match a key of the left side. -/
def probeIndex (std : StdHash) (order : EqualRangeOrder) (bloom : BloomFilter)
    (index : List (Value × EvalRow)) (key : Value) : Except Error (List EvalRow) := do
  if key.isNull then pure []
  else if !(← bloom.mayContain std key) then pure []
  else pure (equalRange std order index key)

/-- The hash branch of `executeSourceOrderJoins`; none when the constructor of the filter does not return. -/
def bloomHashJoin (std : StdHash) (config : BloomConfig) (order : EqualRangeOrder) (join : JoinClause)
    (schema : List BoundColumn) (width : Nat) (keys : ColumnRef × ColumnRef) (rows right : List EvalRow) :
    Option (Except Error (List EvalRow)) :=
  (BloomFilter.new config (UInt64.ofNat right.length)).map fun bloom ↦ do
    let (bloom, index) ← indexRows std keys.2 right bloom []
    let joined ← rows.mapM fun row ↦ do
      let matching ← probeIndex std order bloom index (← resolveColumn keys.1 row)
      pure (join.combinations schema width row matching)
    pure joined.flatten

/-! ### Columns of distinct relations -/

/-- The table name of a relation and its alias, if it has one. -/
def Relation.names (relation : Relation) : List Bytes :=
  relation.table :: if relation.alias'.isEmpty then [] else [relation.alias']

/-- No table name or alias of one relation is one of another relation. -/
def NamesApart (relations : List Relation) : Prop :=
  relations.Pairwise fun left right ↦ ∀ q ∈ left.names, q ∉ right.names

/-- A fully qualified reference to a column of a relation. -/
def ColumnRef.RefersTo (column : ColumnRef) (relation : Relation) : Prop :=
  ¬column.table.isEmpty ∧ column.table ∈ relation.names ∧ column.column ∈ relation.columns

/-- A reference names the column at a position of a schema, whatever the values of the row are. -/
def ColumnRef.ResolvesAt (column : ColumnRef) (schema : List BoundColumn) (position : Nat) : Prop :=
  position < schema.length ∧
    ∀ values : Tuple, resolveColumn column ⟨some schema, values⟩ = .ok (values.getD position .null)

/-- A relation goes by its table and by its alias, when it has one. -/
theorem mem_names_iff {relation : Relation} {q : Bytes} :
    q ∈ relation.names ↔ q = relation.table ∨ ¬relation.alias'.isEmpty ∧ q = relation.alias' := by
  unfold Relation.names
  by_cases hempty : relation.alias'.isEmpty
  · rw [if_pos hempty, List.mem_singleton]
    exact ⟨.inl, fun h ↦ h.resolve_right fun hand ↦ hand.1 hempty⟩
  · rw [if_neg hempty, List.mem_cons, List.mem_singleton]
    exact or_congr_right (and_iff_right hempty).symm

/-- A qualified column names the columns of that name in the relations that go by its qualifier. -/
theorem names_iff {relation : Relation} {column : ColumnRef} {name : Bytes}
    (hqualified : ¬column.table.isEmpty) :
    column.names ⟨relation.table, relation.alias', name⟩ ↔
      name = column.column ∧ column.table ∈ relation.names := by
  rw [mem_names_iff]
  exact names_bound_iff hqualified

/-- The columns of relations that do not have the qualifier as a name are not meant. -/
theorem not_names_of_notMem {relations : List Relation} {column : ColumnRef}
    (hqualified : ¬column.table.isEmpty) (h : ∀ relation ∈ relations, column.table ∉ relation.names) :
    ∀ candidate ∈ joinedSchema relations, ¬column.names candidate := by
  intro candidate hmem hnames
  obtain ⟨relation, hrelation, hbound⟩ := List.mem_flatMap.1 hmem
  obtain ⟨name, -, rfl⟩ := List.mem_map.1 hbound
  exact h relation hrelation ((names_iff hqualified).1 hnames).2

/-- A column resolves where it is named last. -/
theorem resolvesAt_of_last {column : ColumnRef} {before after : List BoundColumn} {target : BoundColumn}
    (hqualified : ¬column.table.isEmpty) (hnames : column.names target)
    (hafter : ∀ candidate ∈ after, ¬column.names candidate) :
    column.ResolvesAt (before ++ target :: after) before.length := by
  obtain ⟨position, hindex, -, hiff⟩ := resolveIndex_iff before after hqualified hnames
  obtain rfl := hiff.2 hafter
  refine ⟨by rw [List.length_append, List.length_cons]; omega, fun values ↦ ?_⟩
  rw [resolveColumn]
  simp only [hindex]
  rfl

/-- A fully qualified reference to a column of one of several relations: it has one position, which columns in
front of them move, and columns behind them leave alone. -/
theorem resolvesAt_of_refersTo {relations others : List Relation} {relation : Relation} {column : ColumnRef}
    (hrelation : relation ∈ relations) (hrefers : column.RefersTo relation)
    (hapart : NamesApart (relations ++ others)) (hnodup : relation.columns.Nodup) :
    ∃ position, ∀ front : List Relation,
      column.ResolvesAt (joinedSchema (front ++ relations)) ((joinedSchema front).length + position) ∧
      column.ResolvesAt (joinedSchema (front ++ relations ++ others))
        ((joinedSchema front).length + position) := by
  obtain ⟨hqualified, hname, hcolumn⟩ := hrefers
  obtain ⟨before, after, rfl⟩ := List.append_of_mem hrelation
  obtain ⟨left, right, hcolumns⟩ := List.append_of_mem hcolumn
  set bound : Bytes → BoundColumn := fun name ↦ ⟨relation.table, relation.alias', name⟩ with hbound
  have hbehind : ∀ other ∈ after ++ others, column.table ∉ other.names := by
    intro other hmem
    rw [List.append_assoc, List.cons_append] at hapart
    exact (List.pairwise_cons.1 (List.pairwise_append.1 hapart).2.1).1 other hmem _ hname
  have hright : ∀ candidate ∈ right.map bound, ¬column.names candidate := by
    intro candidate hmem hnames
    obtain ⟨name, hright, rfl⟩ := List.mem_map.1 hmem
    obtain ⟨rfl, -⟩ := (names_iff hqualified).1 hnames
    rw [hcolumns] at hnodup
    exact (List.nodup_cons.1 (List.nodup_append.1 hnodup).2.1).1 hright
  have htarget : column.names (bound column.column) := (names_iff hqualified).2 ⟨rfl, hname⟩
  refine ⟨(joinedSchema before ++ left.map bound).length, fun front ↦ ?_⟩
  -- The last column of a name is taken, so what stands behind the relation must not have this name.
  have hresolves (rest : List Relation) (hrest : ∀ other ∈ rest, column.table ∉ other.names) :
      column.ResolvesAt (joinedSchema (front ++ (before ++ relation :: rest)))
        ((joinedSchema front).length + (joinedSchema before ++ left.map bound).length) := by
    have hschema : joinedSchema (front ++ (before ++ relation :: rest)) =
        (joinedSchema front ++ (joinedSchema before ++ left.map bound)) ++
          bound column.column :: (right.map bound ++ joinedSchema rest) := by
      simp only [joinedSchema, List.flatMap_append, List.flatMap_cons, Relation.bound, hcolumns,
        List.map_append, List.map_cons, List.append_assoc, List.cons_append, hbound]
    rw [hschema, ← List.length_append]
    refine resolvesAt_of_last hqualified htarget fun candidate hmem ↦ ?_
    rcases List.mem_append.1 hmem with hmem | hmem
    · exact hright candidate hmem
    · exact not_names_of_notMem hqualified hrest candidate hmem
  refine ⟨hresolves after fun other hmem ↦ hbehind other (List.mem_append_left _ hmem), ?_⟩
  rw [List.append_assoc, List.append_assoc, List.cons_append]
  exact hresolves (after ++ others) hbehind

/-! ### Agreement -/

/-- An equation holds of values that are equal and not null. -/
theorem applyBinary_eq_asBoolean (left right : Value) :
    (applyBinary .eq left right).map Value.asBoolean =
      .ok (!left.isNull && !right.isNull && left == right) := by
  rw [applyBinary, ← Bool.not_or]
  rcases hnull : left.isNull || right.isNull with _ | _ <;> rfl

theorem getD_append_left {left right : Tuple} {i : Nat} (h : i < left.length) :
    (left ++ right).getD i .null = left.getD i .null :=
  List.getD_append _ _ _ _ h

theorem getD_append_right (left right : Tuple) (i : Nat) :
    (left ++ right).getD (left.length + i) .null = right.getD i .null := by
  rw [List.getD_append_right _ _ _ _ (Nat.le_add_right _ _), Nat.add_sub_cancel_left]

/-- A row of the right side has the key. -/
def matchesKey (rightKey : EvalRow → Value) (key : Value) (other : EvalRow) : Bool :=
  !key.isNull && !(rightKey other).isNull && rightKey other == key

/-- The rows of the right side that have a key, with it. -/
def indexEntries (rightKey : EvalRow → Value) (others : List EvalRow) : List (Value × EvalRow) :=
  (others.filter fun other ↦ !(rightKey other).isNull).map fun other ↦ (rightKey other, other)

/-- The condition equates the two columns, in either order. -/
def JoinClause.Equates (join : JoinClause) (left right : ColumnRef) : Prop :=
  ∃ alias', join.condition = some (.binary .eq (.column left) (.column right) alias') ∨
    join.condition = some (.binary .eq (.column right) (.column left) alias')

/-- The rows of the two sides of a join, its condition, and where their columns are. -/
structure JoinSides (join : JoinClause) (relations : List Relation) (relation : Relation)
    (left right : ColumnRef) (rows others : List EvalRow) : Prop where
  equates : join.Equates left right
  table_eq : join.table = relation.table
  alias_eq : join.alias' = relation.alias'
  apart : NamesApart (relations ++ [relation])
  nodup : ∀ other ∈ relations ++ [relation], other.columns.Nodup
  left_refers : ∃ other ∈ relations, left.RefersTo other
  right_refers : right.RefersTo relation
  rows : ∀ row ∈ rows, row.IsOf relations
  others : ∀ row ∈ others, row.IsOf [relation]

theorem EvalRow.IsOf.eq {relations : List Relation} {row : EvalRow} (h : row.IsOf relations) :
    row = ⟨some (joinedSchema relations), row.values⟩ :=
  congrArg (fun columns ↦ (⟨columns, row.values⟩ : EvalRow)) h.columns_eq

namespace JoinSides

variable {join : JoinClause} {relations : List Relation} {relation : Relation}
variable {left right : ColumnRef} {rows others : List EvalRow}

/-- The two keys are recognised, whichever side of the equation they stand on. -/
theorem keys_eq (h : JoinSides join relations relation left right rows others) :
    join.keys = some (left, right) := by
  have hbelongs {column : ColumnRef} (hqualified : ¬column.table.isEmpty) :
      join.belongsToRight column ↔ column.table ∈ relation.names := by
    rw [mem_names_iff, JoinClause.belongsToRight, h.table_eq, h.alias_eq, Bool.and_eq_true, Bool.or_eq_true,
      beq_iff_eq, beq_iff_eq, Bool.not_eq_true', ← Bool.not_eq_true, and_iff_right hqualified]
    exact or_congr_right ⟨fun heq ↦ ⟨heq ▸ hqualified, heq⟩, And.right⟩
  obtain ⟨other, hother, hleft⟩ := h.left_refers
  have hright : join.belongsToRight right = true := (hbelongs h.right_refers.1).2 h.right_refers.2.1
  have hnotLeft : join.belongsToRight left = false := by
    rw [← Bool.not_eq_true, hbelongs hleft.1]
    exact (List.pairwise_append.1 h.apart).2.2 other hother relation (List.mem_singleton_self _) _ hleft.2.1
  obtain ⟨alias', hcondition | hcondition⟩ := h.equates <;> rw [JoinClause.keys, hcondition] <;>
    simp only [hright, hnotLeft] <;> rfl

/-- The values of the two columns decide whether the condition holds on a combined row. -/
theorem exists_keys (h : JoinSides join relations relation left right rows others) :
    ∃ leftKey rightKey : EvalRow → Value,
      (∀ row ∈ rows, resolveColumn left row = .ok (leftKey row)) ∧
      (∀ other ∈ others, resolveColumn right other = .ok (rightKey other)) ∧
      ∀ row ∈ rows, ∀ other ∈ others, ∀ condition ∈ join.condition,
        (eval condition (row.combine (joinedSchema (relations ++ [relation])) other.values)).map
            Value.asBoolean =
          .ok (matchesKey rightKey (leftKey row) other) := by
  obtain ⟨owner, howner, hleft⟩ := h.left_refers
  obtain ⟨i, hi⟩ := resolvesAt_of_refersTo howner hleft h.apart
    (h.nodup owner (List.mem_append_left _ howner))
  have hsingle : NamesApart ([relation] ++ []) := List.pairwise_singleton _ _
  obtain ⟨j, hj⟩ := resolvesAt_of_refersTo (List.mem_singleton_self relation) h.right_refers hsingle
    (h.nodup relation (List.mem_append_right _ (List.mem_singleton_self _)))
  obtain ⟨⟨hlt, hleftRow⟩, -, hleftCombined⟩ := hi []
  obtain ⟨⟨-, hrightRow⟩, -⟩ := hj []
  obtain ⟨⟨-, hrightCombined⟩, -⟩ := hj relations
  rw [show (joinedSchema []).length + i = i from Nat.zero_add i, List.nil_append] at hlt hleftRow hleftCombined
  rw [show (joinedSchema []).length + j = j from Nat.zero_add j, List.nil_append] at hrightRow
  -- Each side reads its key at a fixed position, which in a combined row is shifted by the left width.
  refine ⟨fun row ↦ row.values.getD i .null, fun other ↦ other.values.getD j .null, fun row hrow ↦ ?_,
    fun other hother ↦ ?_, fun row hrow other _ condition hcondition ↦ ?_⟩
  · exact (congrArg (resolveColumn left) (h.rows row hrow).eq).trans (hleftRow row.values)
  · exact (congrArg (resolveColumn right) (h.others other hother).eq).trans (hrightRow other.values)
  · have hwidth := (h.rows row hrow).width
    have hleftKey := hleftCombined (row.values ++ other.values)
    have hrightKey := hrightCombined (row.values ++ other.values)
    rw [getD_append_left (by rw [hwidth]; exact hlt)] at hleftKey
    rw [← hwidth, getD_append_right] at hrightKey
    -- The condition may name the two columns in either order.
    obtain ⟨alias', hequates | hequates⟩ := h.equates <;> rw [hequates] at hcondition <;>
      obtain rfl := Option.some.inj hcondition
    · have heval : eval (.binary .eq (.column left) (.column right) alias')
          (row.combine (joinedSchema (relations ++ [relation])) other.values) =
          applyBinary .eq (row.values.getD i .null) (other.values.getD j .null) := by
        rw [eval, eval, eval, EvalRow.combine, hleftKey, hrightKey]
        rfl
      rw [heval, applyBinary_eq_asBoolean, Value.beq_comm, matchesKey]
    · have heval : eval (.binary .eq (.column right) (.column left) alias')
          (row.combine (joinedSchema (relations ++ [relation])) other.values) =
          applyBinary .eq (other.values.getD j .null) (row.values.getD i .null) := by
        rw [eval, eval, eval, EvalRow.combine, hleftKey, hrightKey]
        rfl
      rw [heval, applyBinary_eq_asBoolean, Bool.and_comm (!(other.values.getD j .null).isNull), matchesKey]

end JoinSides

/-- The rows that a join produces for a row, when these rows of the right side have its key. -/
def JoinClause.rowsFor (join : JoinClause) (schema : List BoundColumn) (width : Nat)
    (leftKey rightKey : EvalRow → Value) (others : List EvalRow) (row : EvalRow) : List EvalRow :=
  join.combinations schema width row (others.filter (matchesKey rightKey (leftKey row)))

/-- The combinations of a row do not depend on the order of its matches but for their own. -/
theorem combinations_perm (join : JoinClause) (schema : List BoundColumn) (width : Nat) (row : EvalRow)
    {matching matching' : List EvalRow} (h : matching.Perm matching') :
    (join.combinations schema width row matching).Perm (join.combinations schema width row matching') := by
  unfold JoinClause.combinations
  rw [h.isEmpty_eq]
  split_ifs
  · exact .refl _
  · exact h.map _

variable {std : StdHash} {order : EqualRangeOrder} {leftKey rightKey : EvalRow → Value}

/-- The nested loop visits all pairs. -/
theorem nestedLoopJoin_eq {join : JoinClause} {schema : List BoundColumn} {width : Nat}
    {rows others : List EvalRow} (hcondition : join.condition.isSome)
    (hholds : ∀ row ∈ rows, ∀ other ∈ others, ∀ condition ∈ join.condition,
      (eval condition (row.combine schema other.values)).map Value.asBoolean =
        .ok (matchesKey rightKey (leftKey row) other)) :
    nestedLoopJoin join schema width rows others =
      .ok (rows.flatMap (join.rowsFor schema width leftKey rightKey others)) := by
  obtain ⟨condition, hcondition⟩ := Option.isSome_iff_exists.1 hcondition
  unfold nestedLoopJoin
  rw [List.mapM_eq_ok (g := join.rowsFor schema width leftKey rightKey others) fun row hrow ↦ ?_]
  · rfl
  · refine Except.bind_eq_ok.2 ⟨_, List.filterM_eq_ok fun other hother ↦ ?_, rfl⟩
    simp only [hcondition]
    exact hholds row hrow other hother condition hcondition

/-- The loop over the right side: the keys are in the filter, and the rows in the index. -/
theorem indexRows_eq {column : ColumnRef} {others : List EvalRow}
    (hkeys : ∀ other ∈ others, resolveColumn column other = .ok (rightKey other)) (bloom : BloomFilter)
    (index : List (Value × EvalRow)) :
    indexRows std column others bloom index =
      ((indexEntries rightKey others).map (·.1)).foldlM (BloomFilter.add std) bloom >>=
        fun full ↦ pure (full, index ++ indexEntries rightKey others) := by
  induction others generalizing bloom index with
  | nil =>
    show Except.ok (bloom, index) = Except.ok (bloom, index ++ [])
    rw [List.append_nil]
  | cons other others ih =>
    obtain ⟨hother, hothers⟩ := List.forall_mem_cons.1 hkeys
    rw [indexRows, hother, Except.ok_bind, indexEntries, List.filter_cons]
    rcases hnull : (rightKey other).isNull with _ | _
    · rw [if_neg Bool.false_ne_true, Bool.not_false, if_pos rfl, List.map_cons, List.map_cons, List.foldlM_cons,
        bind_assoc]
      refine bind_congr fun full ↦ ?_
      rw [ih hothers, List.append_assoc, List.singleton_append]
      rfl
    · rw [if_pos rfl, Bool.not_true, if_neg Bool.false_ne_true, ih hothers]
      rfl

/-- The entries of a key in the hash table are the rows with an equal key. -/
theorem equalRange_perm (std : StdHash) (order : EqualRangeOrder) (others : List EvalRow) {key : Value}
    (hkey : key.isNull = false) :
    (equalRange std order (indexEntries rightKey others) key).Perm (others.filter (matchesKey rightKey key)) := by
  refine (order.perm _ _ _).trans (.of_eq ?_)
  rw [indexEntries, List.filter_map, List.map_map, List.filter_filter]
  show List.map id _ = _
  rw [List.map_id]
  refine List.filter_congr fun other _ ↦ ?_
  -- a row with an equal key has the hash of the key
  have hhash : rightKey other == key → (rightKey other).hash std = key.hash std := Value.hash_congr std
  rw [matchesKey, hkey, Bool.not_false, Bool.true_and]
  show ((rightKey other).hash std == key.hash std && rightKey other == key && !(rightKey other).isNull) = _
  rcases hequal : rightKey other == key with _ | _
  · rw [Bool.and_false, Bool.and_false, Bool.false_and]
  · rw [hhash hequal, beq_self_eq_true, Bool.true_and, Bool.true_and, Bool.and_true]

/-- A filter that holds the keys of the index lets through every key that has rows. -/
theorem probeIndex_perm (order : EqualRangeOrder) {bloom : BloomFilter} (husable : bloom.Usable)
    {others : List EvalRow}
    (hcontains : ∀ value ∈ (indexEntries rightKey others).map (·.1), ∀ key : Value, value == key →
      bloom.mayContain std key = .ok true) (key : Value) :
    ∃ matching, probeIndex std order bloom (indexEntries rightKey others) key = .ok matching ∧
      matching.Perm (others.filter (matchesKey rightKey key)) := by
  rcases hkey : key.isNull with _ | _
  · obtain ⟨marked, hmarked⟩ := BloomFilter.exists_mayContain std husable key
    rcases marked with _ | _
    · have hnone : others.filter (matchesKey rightKey key) = [] := by
        rw [List.filter_eq_nil_iff]
        intro other hother hmatches
        -- a row that matches would have marked the bits of the key
        simp only [matchesKey, Bool.and_eq_true] at hmatches
        have hmem : (rightKey other, other) ∈ indexEntries rightKey others :=
          List.mem_map_of_mem (List.mem_filter.2 ⟨hother, hmatches.1.2⟩)
        have hmay := hcontains _ (List.mem_map_of_mem hmem) key hmatches.2
        rw [hmarked] at hmay
        cases hmay
      refine ⟨[], ?_, by rw [hnone]⟩
      rw [probeIndex, hkey, hmarked]
      rfl
    · refine ⟨_, ?_, equalRange_perm std order others hkey⟩
      rw [probeIndex, hkey, hmarked]
      rfl
  · refine ⟨[], ?_, ?_⟩
    · rw [probeIndex, hkey]
      rfl
    · rw [List.filter_eq_nil_iff.2 fun other _ hmatches ↦ ?_]
      rw [matchesKey, hkey] at hmatches
      cases hmatches

/-- With a filter that fits, the hash branch produces the rows of the pairs with equal keys. -/
theorem bloomHashJoin_spec (std : StdHash) {config : BloomConfig} (order : EqualRangeOrder)
    (join : JoinClause) (schema : List BoundColumn) (width : Nat) {left right : ColumnRef}
    {rows others : List EvalRow}
    (hfits : BloomFilter.Fits config (UInt64.ofNat others.length))
    (hleft : ∀ row ∈ rows, resolveColumn left row = .ok (leftKey row))
    (hright : ∀ other ∈ others, resolveColumn right other = .ok (rightKey other)) :
    ∃ joined, bloomHashJoin std config order join schema width (left, right) rows others =
        some (.ok joined) ∧
      joined.Perm (rows.flatMap (join.rowsFor schema width leftKey rightKey others)) := by
  obtain ⟨bloom, hnew, husable⟩ := hfits.exists_new
  obtain ⟨full, hfull, husable', hcontains, -⟩ :=
    husable.addAll std ((indexEntries rightKey others).map (·.1))
  have hindex : indexRows std right others bloom [] = .ok (full, indexEntries rightKey others) := by
    rw [indexRows_eq hright, hfull]
    rfl
  choose matching hmatching hperm using fun key ↦ probeIndex_perm order husable' hcontains key
  refine ⟨rows.flatMap fun row ↦ join.combinations schema width row (matching (leftKey row)), ?_,
    .flatMap_left _ fun row _ ↦ combinations_perm join schema width row (hperm (leftKey row))⟩
  rw [bloomHashJoin, hnew, Option.map_some, hindex]
  refine congrArg some ?_
  show (rows.mapM (fun row ↦ do
      let matching ← probeIndex std order full (indexEntries rightKey others) (← resolveColumn left row)
      pure (join.combinations schema width row matching)) >>= fun joined ↦ pure joined.flatten) = _
  rw [List.mapM_eq_ok (g := fun row ↦ join.combinations schema width row (matching (leftKey row)))
    fun row hrow ↦ by rw [hleft row hrow, Except.ok_bind, hmatching]; rfl]
  rfl

/-- The two branches of `executeSourceOrderJoins` agree: both return, with the same rows up to their order. -/
def JoinsAgree (std : StdHash) (config : BloomConfig) (order : EqualRangeOrder) (join : JoinClause)
    (schema : List BoundColumn) (width : Nat) (keys : ColumnRef × ColumnRef) (rows others : List EvalRow) :
    Prop :=
  ∃ hashed looped, bloomHashJoin std config order join schema width keys rows others = some (.ok hashed) ∧
    nestedLoopJoin join schema ((others.head?.map (·.values.length)).getD width) rows others = .ok looped ∧
    hashed.Perm looped

/-- The loop over all pairs, and the rows that the two keys decide on. -/
theorem JoinSides.nestedLoop_eq {join : JoinClause} {relations : List Relation} {relation : Relation}
    {left right : ColumnRef} {rows others : List EvalRow}
    (h : JoinSides join relations relation left right rows others) :
    ∃ leftKey rightKey : EvalRow → Value,
      (∀ row ∈ rows, resolveColumn left row = .ok (leftKey row)) ∧
      (∀ other ∈ others, resolveColumn right other = .ok (rightKey other)) ∧
      nestedLoopJoin join (joinedSchema (relations ++ [relation]))
          ((others.head?.map (·.values.length)).getD relation.columns.length) rows others =
        .ok (rows.flatMap (join.rowsFor (joinedSchema (relations ++ [relation])) relation.columns.length leftKey
          rightKey others)) := by
  obtain ⟨leftKey, rightKey, hleft, hright, hholds⟩ := h.exists_keys
  have hwidth : (others.head?.map (·.values.length)).getD relation.columns.length =
      relation.columns.length := by
    rcases others with _ | ⟨other, others⟩
    · rfl
    · have hother := (h.others other List.mem_cons_self).width
      rwa [joinedSchema_singleton, Relation.bound, List.length_map] at hother
  refine ⟨leftKey, rightKey, hleft, hright, ?_⟩
  rw [hwidth]
  refine nestedLoopJoin_eq ?_ hholds
  obtain ⟨alias', hequates | hequates⟩ := h.equates <;> rw [hequates] <;> rfl

/-- Where the filter fits both joins agree. -/
theorem JoinSides.joinsAgree_of_fits {join : JoinClause} {relations : List Relation} {relation : Relation}
    {left right : ColumnRef} {rows others : List EvalRow} (std : StdHash) {config : BloomConfig}
    (order : EqualRangeOrder) (h : JoinSides join relations relation left right rows others)
    (hfits : BloomFilter.Fits config (UInt64.ofNat others.length)) :
    JoinsAgree std config order join (joinedSchema (relations ++ [relation])) relation.columns.length
      (left, right) rows others := by
  obtain ⟨leftKey, rightKey, hleft, hright, hlooped⟩ := h.nestedLoop_eq
  obtain ⟨joined, hjoined, hperm⟩ := bloomHashJoin_spec std order join
    (joinedSchema (relations ++ [relation])) relation.columns.length hfits hleft hright
  exact ⟨joined, _, hjoined, hlooped, hperm⟩

/-- For an equation between a column of the left side and a column of the right side, fully qualified over
distinct table names and aliases: the hash branch is chosen, it returns the rows of the nested loop, and the
filter reports no key absent that equals one that was added, exactly if the size of the filter fits. -/
theorem hashJoin_agrees_iff (std : StdHash) (config : BloomConfig) (order : EqualRangeOrder)
    (join : JoinClause) (relations : List Relation) (relation : Relation) (left right : ColumnRef)
    (rows others : List EvalRow) (h : JoinSides join relations relation left right rows others) :
    (join.keys = some (left, right) ∧
      JoinsAgree std config order join (joinedSchema (relations ++ [relation])) relation.columns.length
        (left, right) rows others ∧
      BloomFilter.NoFalseNegative std config (UInt64.ofNat others.length)) ↔
    BloomFilter.Fits config (UInt64.ofNat others.length) := by
  rw [BloomFilter.noFalseNegative_iff]
  exact ⟨fun hall ↦ hall.2.2, fun hfits ↦ ⟨h.keys_eq, h.joinsAgree_of_fits std order hfits, hfits⟩⟩

/-- Entries in the order of their insertion. -/
def insertionOrder : EqualRangeOrder where
  order _ _ rows := rows
  perm _ _ _ := .refl _

/-- `LEFT JOIN b ON a.k = b.k`. -/
def keyJoin : JoinClause where
  type := .left
  table := lit "b"
  condition := some (.binary .eq (.column { table := lit "a", column := lit "k" })
    (.column { table := lit "b", column := lit "k" }) [])

/-- The column `k` of the table `a`, or of `b`. -/
def keyRelation (table : Bytes) : Relation :=
  ⟨table, [], [lit "k"]⟩

/-- A row of such a table. -/
def keyRow (table : Bytes) (value : Value) : EvalRow :=
  ⟨some [⟨table, [], lit "k"⟩], [value]⟩

/-- The two sides of the example. -/
theorem joinSides_keyJoin (values values' : List Value) :
    JoinSides keyJoin [keyRelation (lit "a")] (keyRelation (lit "b")) { table := lit "a", column := lit "k" }
      { table := lit "b", column := lit "k" } (values.map (keyRow (lit "a"))) (values'.map (keyRow (lit "b"))) where
  equates := ⟨[], .inl rfl⟩
  table_eq := rfl
  alias_eq := rfl
  apart := by
    simp only [NamesApart, List.singleton_append, List.pairwise_cons, List.mem_singleton, forall_eq]
    exact ⟨by decide, fun _ hmem ↦ absurd hmem List.not_mem_nil, .nil⟩
  nodup := by decide
  left_refers := ⟨_, List.mem_singleton_self _, by decide, by decide, by decide⟩
  right_refers := ⟨by decide, by decide, by decide⟩
  rows row hrow := by
    obtain ⟨value, -, rfl⟩ := List.mem_map.1 hrow
    exact ⟨rfl, rfl⟩
  others row hrow := by
    obtain ⟨value, -, rfl⟩ := List.mem_map.1 hrow
    exact ⟨rfl, rfl⟩

/-- A join on keys, by both algorithms. -/
theorem hashJoin_agrees_iff_keyJoin :
    (keyJoin.keys = some ({ table := lit "a", column := lit "k" }, { table := lit "b", column := lit "k" }) ∧
      JoinsAgree Value.spreadHash {} insertionOrder keyJoin
        (joinedSchema ([keyRelation (lit "a")] ++ [keyRelation (lit "b")])) 1
        ({ table := lit "a", column := lit "k" }, { table := lit "b", column := lit "k" })
        ([.integer 1, .null].map (keyRow (lit "a"))) ([.boolean true, .null].map (keyRow (lit "b"))) ∧
      BloomFilter.NoFalseNegative Value.spreadHash {} 2) ↔ BloomFilter.Fits {} 2 :=
  hashJoin_agrees_iff Value.spreadHash {} insertionOrder keyJoin [keyRelation (lit "a")]
    (keyRelation (lit "b")) _ _ _ _ (joinSides_keyJoin [.integer 1, .null] [.boolean true, .null])

/-! ### Joins alone -/

/-- The column is null in all rows. -/
def AllNull (column : ColumnRef) (rows : List EvalRow) : Prop :=
  ∀ row ∈ rows, (resolveColumn column row).map Value.isNull = .ok true

/-- Where all keys are NULL each of them is. -/
theorem AllNull.isNull {column : ColumnRef} {rows : List EvalRow} {key : EvalRow → Value} (h : AllNull column rows)
    (hkeys : ∀ row ∈ rows, resolveColumn column row = .ok (key row)) {row : EvalRow} (hrow : row ∈ rows) :
    (key row).isNull = true := by
  have hnull := h row hrow
  rw [hkeys row hrow] at hnull
  exact Except.ok.inj hnull

/-- Keys that are NULL in every row are all NULL. -/
theorem allNull_of_isNull {column : ColumnRef} {rows : List EvalRow} {key : EvalRow → Value}
    (hkeys : ∀ row ∈ rows, resolveColumn column row = .ok (key row)) (h : ∀ row ∈ rows, (key row).isNull = true) :
    AllNull column rows := fun row hrow ↦ by
  rw [hkeys row hrow]
  exact congrArg Except.ok (h row hrow)

section NoWords

variable {join : JoinClause} {schema : List BoundColumn} {width : Nat} {left right : ColumnRef}
  {rows others joined : List EvalRow} {bloom : BloomFilter} {config : BloomConfig}

/-- A filter without words is not asked for a null. -/
theorem bloomHashJoin_eq_of_allNull (hnew : BloomFilter.new config (UInt64.ofNat others.length) = some bloom)
    (hleft : ∀ row ∈ rows, resolveColumn left row = .ok (leftKey row))
    (hright : ∀ other ∈ others, resolveColumn right other = .ok (rightKey other))
    (hrows : AllNull left rows) (hothers : AllNull right others) :
    bloomHashJoin std config order join schema width (left, right) rows others =
      some (.ok (rows.flatMap (join.rowsFor schema width leftKey rightKey others))) := by
  have hindex : indexRows std right others bloom [] = .ok (bloom, []) := by
    have hnone : indexEntries rightKey others = [] := by
      rw [indexEntries, List.map_eq_nil_iff, List.filter_eq_nil_iff]
      intro other hother
      rw [hothers.isNull hright hother]
      exact Bool.false_ne_true
    rw [indexRows_eq hright, hnone]
    rfl
  have hnone (row : EvalRow) (hrow : row ∈ rows) : others.filter (matchesKey rightKey (leftKey row)) = [] := by
    rw [List.filter_eq_nil_iff]
    intro other _
    rw [matchesKey, hrows.isNull hleft hrow]
    exact Bool.false_ne_true
  rw [bloomHashJoin, hnew, Option.map_some, hindex]
  refine congrArg some ?_
  show (rows.mapM (fun row ↦ do
      let matching ← probeIndex std order bloom [] (← resolveColumn left row)
      pure (join.combinations schema width row matching)) >>= fun joined ↦ pure joined.flatten) = _
  rw [List.mapM_eq_ok (g := join.rowsFor schema width leftKey rightKey others) fun row hrow ↦ ?_]
  · rfl
  · rw [hleft row hrow, Except.ok_bind, probeIndex, hrows.isNull hleft hrow, JoinClause.rowsFor, hnone row hrow]
    rfl

/-- A filter without words throws for every other key. -/
theorem allNull_of_bloomHashJoin (hwords : bloom.words = [])
    (hnew : BloomFilter.new config (UInt64.ofNat others.length) = some bloom)
    (hleft : ∀ row ∈ rows, resolveColumn left row = .ok (leftKey row))
    (hright : ∀ other ∈ others, resolveColumn right other = .ok (rightKey other))
    (h : bloomHashJoin std config order join schema width (left, right) rows others = some (.ok joined)) :
    AllNull left rows ∧ AllNull right others := by
  rw [bloomHashJoin, hnew, Option.map_some] at h
  obtain ⟨⟨full, index⟩, hindex, hjoined⟩ := Except.bind_eq_ok.1 (Option.some.inj h)
  rw [indexRows_eq hright] at hindex
  obtain ⟨full, hfull, heq⟩ := Except.bind_eq_ok.1 hindex
  obtain ⟨rfl, rfl⟩ := Prod.mk.inj (Except.ok.inj heq)
  -- no key was added, or the first one would have thrown
  rcases hentries : indexEntries rightKey others with _ | ⟨entry, entries⟩
  · have hothers : ∀ other ∈ others, (rightKey other).isNull = true := by
      rw [indexEntries, List.map_eq_nil_iff, List.filter_eq_nil_iff] at hentries
      intro other hother
      simpa using hentries other hother
    rw [hentries] at hfull
    obtain rfl := Except.ok.inj hfull
    refine ⟨allNull_of_isNull hleft fun row hrow ↦ ?_, allNull_of_isNull hright hothers⟩
    by_contra hnull
    obtain ⟨parts, hparts, -⟩ := Except.bind_eq_ok.1 hjoined
    refine Except.not_fails_iff.2 ⟨parts, hparts⟩ (List.mapM_fails_iff.2 ⟨row, hrow, ?_⟩)
    obtain ⟨error, hfails⟩ : (bloom.mayContain std (leftKey row)).Fails := BloomFilter.mayContain_fails hwords _
    rw [hleft row hrow, Except.ok_bind, probeIndex, if_neg hnull, hfails]
    exact ⟨error, rfl⟩
  · rw [hentries, List.map_cons, List.foldlM_cons] at hfull
    obtain ⟨first, hfirst, -⟩ := Except.bind_eq_ok.1 hfull
    exact absurd (BloomFilter.add_fails hwords entry.1) (Except.not_fails_iff.2 ⟨first, hfirst⟩)

end NoWords

/-- The joins alone agree exactly if the size of the filter fits, or its constructor returns and no key but NULL
occurs on either side, so that the filter is never used. -/
theorem joinsAgree_iff (std : StdHash) (config : BloomConfig) (order : EqualRangeOrder)
    (join : JoinClause) (relations : List Relation) (relation : Relation) (left right : ColumnRef)
    (rows others : List EvalRow) (h : JoinSides join relations relation left right rows others) :
    JoinsAgree std config order join (joinedSchema (relations ++ [relation])) relation.columns.length
      (left, right) rows others ↔
    BloomFilter.Fits config (UInt64.ofNat others.length) ∨
      (BloomFilter.new config (UInt64.ofNat others.length)).isSome ∧ AllNull left rows ∧ AllNull right others := by
  obtain ⟨leftKey, rightKey, hleft, hright, hlooped⟩ := h.nestedLoop_eq
  constructor
  · rintro ⟨hashed, looped, hhashed, -, -⟩
    refine or_iff_not_imp_left.2 fun hnot ↦ ?_
    rcases hnew : BloomFilter.new config (UInt64.ofNat others.length) with _ | bloom
    · rw [bloomHashJoin, hnew] at hhashed
      cases hhashed
    · exact ⟨rfl, allNull_of_bloomHashJoin (BloomFilter.words_eq_nil_of_not_fits hnew hnot) hnew hleft hright hhashed⟩
  · rintro (hfits | ⟨hnew, hrows, hothers⟩)
    · exact h.joinsAgree_of_fits std order hfits
    · obtain ⟨bloom, hnew⟩ := Option.isSome_iff_exists.1 hnew
      exact ⟨_, _, bloomHashJoin_eq_of_allNull hnew hleft hright hrows hothers, hlooped, .refl _⟩

/-- With a minimum of 2⁶⁴ - 1 bits, which rounds to no words, a join of one row with one row fails. -/
theorem hashJoin_not_agrees :
    ¬∀ (std : StdHash) (config : BloomConfig) (order : EqualRangeOrder) (join : JoinClause)
      (relations : List Relation) (relation : Relation) (left right : ColumnRef) (rows others : List EvalRow),
      JoinSides join relations relation left right rows others →
      JoinsAgree std config order join (joinedSchema (relations ++ [relation])) relation.columns.length
        (left, right) rows others := by
  intro h
  obtain ⟨hashed, -, hhashed, -⟩ := h Value.spreadHash { minimumBits := 18446744073709551615 }
    insertionOrder keyJoin [keyRelation (lit "a")] (keyRelation (lit "b")) _ _ _ _
    (joinSides_keyJoin [.integer 1] [.integer 1])
  have hfails : bloomHashJoin Value.spreadHash { minimumBits := 18446744073709551615 } insertionOrder keyJoin
      (joinedSchema ([keyRelation (lit "a")] ++ [keyRelation (lit "b")])) 1
      ({ table := lit "a", column := lit "k" }, { table := lit "b", column := lit "k" })
      ([.integer 1].map (keyRow (lit "a"))) ([.integer 1].map (keyRow (lit "b"))) =
      some (.error (lit "words_ is too short")) := by
    decide +kernel
  cases hfails.symm.trans hhashed

end SkibidiQL
