import SkibidiQL.Dataset.KeyedInsertSpec
import SkibidiQL.Storage.IntegerValues

/-!
# INTEGER keys

Two different integers are two keys exactly when they round to two doubles: the index and the comparisons
look at the doubles. Otherwise the second INSERT throws.
-/

namespace SkibidiQL

open HeapFile Bytes

/-- A row of an INSERT that is evaluated and coerced to a tuple that fits on a page, with an INTEGER key. -/
structure KeyRow (table : TableMeta) (position : Nat) (columns : List Bytes) (values : List Expr) (new : Tuple)
    (k : Int64) : Prop where
  coerced : ∃ tuple, insertTuple table columns values = .ok tuple ∧ coerceTuple table tuple = .ok new
  storable : Storable new
  key : new.getD position .null = .integer k

/-- The INSERT of one row. -/
def insertStatement (table : TableMeta) (columns : List Bytes) (values : List Expr) : InsertStmt where
  table := table.name
  columns
  valueRows := [values]

/-- A lookup finds the one row. -/
def LooksUp (engine : NativeEngine) (table : TableMeta) (st : EngineState) (k : Int64) (row : StoredRow) :
    Prop :=
  ∀ alias' fuel, ∃ st', engine.lookupPrimaryKey table.name alias' (.integer k) (fuel + 1) st =
    .ok (some [⟨row.id, bindRow (boundColumns table table.name alias') row⟩]) st'

/-- The comparisons of the key of the row, of which it is the first operand, with a number are those of
integers. -/
def ComparesAs (table : TableMeta) (primary : ColumnMeta) (row : StoredRow) (k k' : Int64) : Prop :=
  ∀ (op : BinaryOperator) (column : ColumnRef) (alias' opAlias : Bytes), op.IsComparison →
    column.column = primary.name → Qualified column table.name alias' →
      eval (.binary op (.column column) (.literal (.int k')) opAlias)
        (bindRow (boundColumns table table.name alias') row) =
        .ok (.boolean (op.holds (compare k.toInt k'.toInt)))

/-- What is asked of two keys: both rows come in, the lookup of a key finds the row of that key and no other,
and the rows are ordered as the integers. -/
def KeysExact (engine : NativeEngine) (table : TableMeta) (primary : ColumnMeta) (insert₁ insert₂ : InsertStmt)
    (new₁ new₂ : Tuple) (k₁ k₂ : Int64) (st : EngineState) : Prop :=
  ∃ id₁ id₂ st₁ st₂, engine.executeInsert insert₁ st = .ok (insertResult 1) st₁ ∧
    engine.executeInsert insert₂ st₁ = .ok (insertResult 1) st₂ ∧ id₁ ≠ id₂ ∧
    LooksUp engine table st₂ k₁ ⟨id₁, new₁⟩ ∧ LooksUp engine table st₂ k₂ ⟨id₂, new₂⟩ ∧
    ComparesAs table primary ⟨id₁, new₁⟩ k₁ k₂ ∧ ComparesAs table primary ⟨id₂, new₂⟩ k₂ k₁

theorem lists_empty : Lists (fun _ ↦ none) [] :=
  ⟨.nil, fun _ ↦ ⟨nofun, nofun⟩⟩

section IntegerKeys

variable {engine : NativeEngine} {table : TableMeta} {path : Path} {position : Nat} {primary : ColumnMeta}
  (hkey : KeyTable engine table path position primary)

include hkey

/-- Keys with different doubles compare as the doubles. -/
theorem KeyTable.comparesAs {row : StoredRow} {k k' : Int64} (hrow : row.field position = .integer k)
    (hne : nearestDouble k.toInt ≠ nearestDouble k'.toInt) : ComparesAs table primary row k k' := by
  intro op column alias' opAlias hop hname hqualified
  have hcolumn : eval (.column column) (bindRow (boundColumns table table.name alias') row) =
      .ok (.integer k) := by
    rw [← hrow]
    exact eval_column (resolveIndex_of_name hkey.names hqualified (primaryColumn_eq_some hkey.primary_eq)
      hname.symm) row
  rw [eval, hcolumn, eval]
  show applyBinary op (.integer k) (.integer k') = _
  rw [Value.applyBinary_integer hop, compare_nearestDouble hne]

/-- A row that comes in has found the index or built it. -/
theorem KeyTable.indexable_of_insert {st st' : EngineState} {rows : HeapMap} {result : NativeQueryResult}
    (h : KeyedFile table.name path position rows st) {columns : List Bytes} {values : List Expr} {new : Tuple}
    {k : Int64} (hrow : KeyRow table position columns values new k)
    (hrun : engine.executeInsert (insertStatement table columns values) st = .ok result st') :
    Indexable engine table.name st := by
  by_contra hindexable
  obtain ⟨⟨tuple, htuple, hcoerce⟩, -, -⟩ := hrow
  obtain ⟨error, st'', herror⟩ := hkey.insert_unindexable h hindexable htuple hcoerce
  exact nomatch herror.symm.trans hrun

section Rows

variable (htype : declaredValueType primary = .ok .integer) {st : EngineState}
  (hempty : KeyedFile table.name path position (fun _ ↦ none) st)
  (hsmall : pagesOf st.storage.disk.files path + 1 < 4294967296) {columns₁ columns₂ : List Bytes}
  {values₁ values₂ : List Expr} {new₁ new₂ : Tuple} {k₁ k₂ : Int64}
  (hrow₁ : KeyRow table position columns₁ values₁ new₁ k₁)
  (hreferences₁ : References engine table path new₁ (fun _ ↦ none) st.storage)

include htype hempty hsmall hrow₁ hreferences₁

/-- The first row comes in when the index is there or can be built. -/
theorem KeyTable.insert_first (hindexable : Indexable engine table.name st) :
    ∃ id₁ st₁, engine.executeInsert (insertStatement table columns₁ values₁) st = .ok (insertResult 1) st₁ ∧
      Inserted table path position (fun _ ↦ none) new₁ st st₁ id₁ ∧
      KeyedHeap position primary (Function.update (fun _ ↦ none) id₁ (some new₁)) := by
  obtain ⟨⟨tuple₁, htuple₁, hcoerce₁⟩, hstorable₁, hkey₁⟩ := hrow₁
  have hnumber : (new₁.getD position .null).isNaN = false := by rw [hkey₁, Value.isNaN_integer]
  have htype' : declaredValueType primary = .ok (new₁.getD position .null).type := by
    rw [hkey₁, htype]
    rfl
  obtain ⟨id₁, st₁, hrun₁, hinserted₁⟩ := hkey.insert_new hempty keyedHeap_empty hindexable (by omega) htuple₁ hcoerce₁
    hstorable₁ htype' hnumber nofun hreferences₁
  exact ⟨id₁, st₁, hrun₁, hinserted₁, keyedHeap_empty.insert lists_empty rfl htype' hnumber nofun⟩

/-- The second row is refused when its key rounds to the double of the first. -/
theorem KeyTable.not_keysExact (hrow₂ : KeyRow table position columns₂ values₂ new₂ k₂)
    (heq : nearestDouble k₁.toInt = nearestDouble k₂.toInt) :
    ¬KeysExact engine table primary (insertStatement table columns₁ values₁)
      (insertStatement table columns₂ values₂) new₁ new₂ k₁ k₂ st := by
  rintro ⟨-, -, st, st₂, hrun, hrun₂, -⟩
  have hindexable := hkey.indexable_of_insert hempty hrow₁ hrun
  obtain ⟨id₁, st₁, hrun₁, hinserted₁, hheap₁⟩ :=
    hkey.insert_first htype hempty hsmall hrow₁ hreferences₁ hindexable
  obtain ⟨⟨tuple₂, htuple₂, hcoerce₂⟩, -, hkey₂⟩ := hrow₂
  obtain ⟨-, rfl⟩ := EStateM.Result.ok.inj (hrun.symm.trans hrun₁)
  have hsame : (new₁.getD position .null).compare (new₂.getD position .null) = .eq := by
    rw [hrow₁.key, hkey₂, Value.compare_integer_eq_iff, heq]
  obtain ⟨st', hrefused⟩ := hkey.insert_duplicate hinserted₁.file hheap₁ (.inr hinserted₁.indexed) htuple₂ hcoerce₂
    (by rw [hkey₂, Value.isNaN_integer]) (Function.update_self _ _ _) hsame
  exact nomatch hrefused.symm.trans hrun₂

/-- Both rows come in when their keys round to different doubles. -/
theorem KeyTable.keysExact_of_ne (hrow₂ : KeyRow table position columns₂ values₂ new₂ k₂)
    (hreferences₂ : ∀ id, References engine table path new₂
      (Function.update (fun _ ↦ none) id (some new₁)) st.storage)
    (hne : nearestDouble k₁.toInt ≠ nearestDouble k₂.toInt) (hindexable : Indexable engine table.name st) :
    KeysExact engine table primary (insertStatement table columns₁ values₁)
      (insertStatement table columns₂ values₂) new₁ new₂ k₁ k₂ st := by
  obtain ⟨id₁, st₁, hrun₁, hinserted₁, hheap₁⟩ :=
    hkey.insert_first htype hempty hsmall hrow₁ hreferences₁ hindexable
  obtain ⟨⟨tuple₂, htuple₂, hcoerce₂⟩, hstorable₂, hkey₂⟩ := hrow₂
  have hnumber : (new₂.getD position .null).isNaN = false := by rw [hkey₂, Value.isNaN_integer]
  have htype' : declaredValueType primary = .ok (new₂.getD position .null).type := by
    rw [hkey₂, htype]
    rfl
  -- The only row so far is the first one, whose key is another double.
  have hnew : ∀ id old, Function.update (fun _ ↦ none) id₁ (some new₁) id = some old →
      (old.getD position .null).compare (new₂.getD position .null) ≠ .eq := by
    intro id old hold
    by_cases hid : id = id₁
    · rw [hid, Function.update_self] at hold
      obtain rfl := Option.some.inj hold
      rwa [hrow₁.key, hkey₂, ne_eq, Value.compare_integer_eq_iff]
    · rw [Function.update_of_ne hid] at hold
      cases hold
  have hsmall₁ : pagesOf st₁.storage.disk.files path < 4294967296 := by
    have hpages := hinserted₁.pages
    omega
  obtain ⟨id₂, st₂, hrun₂, hinserted₂⟩ := hkey.insert_new hinserted₁.file hheap₁ (.inr hinserted₁.indexed) hsmall₁ htuple₂ hcoerce₂
    hstorable₂ htype' hnumber hnew fun s' hstep ↦ hreferences₂ id₁ s' (hinserted₁.step.trans hstep)
  have hlists₁ : Lists (Function.update (fun _ ↦ none) id₁ (some new₁)) [⟨id₁, new₁⟩] :=
    lists_empty.insert rfl new₁
  have hheap₂ := hheap₁.insert hlists₁ hinserted₂.free htype' hnumber hnew
  have hid : id₁ ≠ id₂ := by
    rintro rfl
    have hfree := hinserted₂.free
    rw [Function.update_self] at hfree
    cases hfree
  refine ⟨id₁, id₂, st₁, st₂, hrun₁, hrun₂, hid, ?_, ?_, hkey.comparesAs hrow₁.key hne,
    hkey.comparesAs hkey₂ hne.symm⟩
  · refine hkey.lookupPrimaryKey_eq hinserted₂.file hheap₂ (.inr hinserted₂.indexed) (Value.isNaN_integer k₁) ?_
      (by rw [hrow₁.key, Value.compare_self])
    rw [Function.update_of_ne hid, Function.update_self]
  · exact hkey.lookupPrimaryKey_eq hinserted₂.file hheap₂ (.inr hinserted₂.indexed) (Value.isNaN_integer k₂)
      (Function.update_self _ _ _) (by rw [hkey₂, Value.compare_self])

/-- INTEGER keys are exact exactly when they round to different doubles: rows with two keys, put into an
empty table one after the other, are both there, are found each by its key, and compare as the integers. With a
batch size that no vector can hold, the scan for the first index throws whatever the keys are. -/
theorem integerKeys_exact_iff (hrow₂ : KeyRow table position columns₂ values₂ new₂ k₂)
    (hreferences₂ : ∀ id, References engine table path new₂
      (Function.update (fun _ ↦ none) id (some new₁)) st.storage) :
    KeysExact engine table primary (insertStatement table columns₁ values₁)
        (insertStatement table columns₂ values₂) new₁ new₂ k₁ k₂ st ↔
      nearestDouble k₁.toInt ≠ nearestDouble k₂.toInt ∧ Indexable engine table.name st := by
  constructor
  · intro hexact
    refine ⟨fun heq ↦ hkey.not_keysExact htype hempty hsmall hrow₁ hreferences₁ hrow₂ heq hexact, ?_⟩
    obtain ⟨_, _, _, _, hrun, -⟩ := hexact
    exact hkey.indexable_of_insert hempty hrow₁ hrun
  · rintro ⟨hne, hindexable⟩
    exact hkey.keysExact_of_ne htype hempty hsmall hrow₁ hreferences₁ hrow₂ hreferences₂ hne hindexable

end Rows

end IntegerKeys

/-! ### Keys of 54 bits -/

/-- `marks(n INTEGER PRIMARY KEY)`. -/
def keyedMarksMeta : TableMeta where
  name := marks.name
  columns := [{ name := lit "n", type := lit "INTEGER", primaryKey := true, notNull := true }]

/-- The engine of a database with that table. -/
def keyedMarksEngine : NativeEngine where
  catalog := ({} : Catalog).addTable keyedMarksMeta
  batchSize := marks.batchSize

/-- The state of the engine when the table has been created. -/
def emptyMarks : EngineState where
  storage := newTable marks (lit "/db") 1 ⟨id, List.Perm.refl⟩
  primaryIndexes := ∅

/-- `INSERT INTO marks VALUES (k)`. -/
def insertKey (k : Int64) : InsertStmt :=
  insertStatement keyedMarksMeta [] [.literal (.int k)]

/-- The primary key of the table. -/
def keyColumn : ColumnMeta :=
  { name := lit "n", type := lit "INTEGER", primaryKey := true, notNull := true }

/-- The keyed table of marks. -/
theorem keyedMarks_keyTable : KeyTable keyedMarksEngine keyedMarksMeta marks.path 0 keyColumn where
  listed := by decide +kernel
  path_eq := rfl
  primary_eq := by decide +kernel
  single other column hother _ := by
    rcases other with - | other
    · rfl
    · exact absurd hother (by simp [keyedMarksMeta])
  names := by decide +kernel
  batch := by decide

theorem emptyMarks_keyedFile : KeyedFile keyedMarksMeta.name marks.path 0 (fun _ ↦ none) emptyMarks where
  table := newTable_ok marks_isTableFile (lit "/db") 1 ⟨id, fun _ ↦ .rfl⟩
  index index hindex := by
    rw [emptyMarks, Std.ExtTreeMap.getElem?_empty] at hindex
    cases hindex

theorem insertKey_keyRow (k : Int64) :
    KeyRow keyedMarksMeta 0 [] [.literal (.int k)] [.integer k] k :=
  ⟨⟨[.integer k], rfl, rfl⟩, ⟨_, rfl, Nat.le_of_ble_eq_true rfl⟩, rfl⟩

theorem keyedMarks_references (k : Int64) (rows : HeapMap) (s : Storage) :
    References keyedMarksEngine keyedMarksMeta marks.path [.integer k] rows s :=
  fun s' _ _ ↦ ⟨s', rfl⟩

theorem emptyMarks_small : pagesOf emptyMarks.storage.disk.files marks.path + 1 < 4294967296 := by
  decide +kernel

/-- The keys `2 ^ 53` and `2 ^ 53 + 1` are not told apart. -/
theorem integerKeys_inexact : (9007199254740992 : Int64) ≠ 9007199254740993 ∧
    ¬KeysExact keyedMarksEngine keyedMarksMeta keyColumn (insertKey 9007199254740992)
      (insertKey 9007199254740993) [.integer 9007199254740992] [.integer 9007199254740993]
      9007199254740992 9007199254740993 emptyMarks :=
  ⟨by decide, keyedMarks_keyTable.not_keysExact (by decide) emptyMarks_keyedFile emptyMarks_small
    (insertKey_keyRow _) (keyedMarks_references _ _ _) (insertKey_keyRow _) (by decide +kernel)⟩

/-- The keys `2 ^ 53` and `2 ^ 53 + 2` are. -/
theorem integerKeys_exact_iff_marks :
    KeysExact keyedMarksEngine keyedMarksMeta keyColumn (insertKey 9007199254740992)
      (insertKey 9007199254740994) [.integer 9007199254740992] [.integer 9007199254740994]
      9007199254740992 9007199254740994 emptyMarks :=
  (integerKeys_exact_iff keyedMarks_keyTable (by decide) emptyMarks_keyedFile emptyMarks_small
    (insertKey_keyRow _) (keyedMarks_references _ _ _) (insertKey_keyRow _)
    fun _ ↦ keyedMarks_references _ _ _).2 ⟨by decide +kernel, .inl (by decide)⟩

end SkibidiQL
