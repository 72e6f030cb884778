import SkibidiQL.Compiler.CompileFast
import SkibidiQL.Catalog.JsonReads
import SkibidiQL.Dataset.Batches
import SkibidiQL.Dataset.RowChanges

/-!
# Capturing a dataset snapshot

`executeCreateSnapshot`: the checks of the statement, the rows of the source table that its condition selects,
each with the split that a hash of its split key gives, and the warnings about keys that occur in several
splits. The split is a function of the key, so the split key itself never gets a warning, and the column
`user_id` gets one exactly when a user is torn apart (`NativeEngine.createdSnapshot_splits`).
-/

namespace SkibidiQL

open Bytes

/-- `struct FeatureSpec`. -/
structure FeatureSpec where
  name : Bytes := []
  spec : Bytes := []

/-- `struct CreateSnapshotStmt`. -/
structure CreateSnapshotStmt where
  name : Bytes
  source : Option SelectStmt
  splitBy : Bytes := []
  seed : UInt64 := 0
  features : List FeatureSpec := []
  label : FeatureSpec := {}

/-- `rowIdString`. -/
def rowIdString (row : RowId) : Bytes :=
  ofNat row.page ++ lit ":" ++ ofNat row.slot

/-- `splitForKey`, with `kSnapshotSplitBuckets`, `kDefaultTrainSplitPercent` and
`kDefaultValidationSplitPercent`. -/
def splitForKey (seed : UInt64) (key : Bytes) : Bytes :=
  let bucket := snapshotHash seed 0 key % 100
  if bucket < 80 then lit "train"
  else if bucket < 80 + 10 then lit "validation"
  else lit "test"

/-! ### The checks -/

/-- The loop over the projected columns: their names, and whether there is a wildcard. -/
def selectedColumns : List Expr → Except Error (List Bytes × Bool)
  | [] => pure ([], false)
  | .wildcard _ :: rest => do
    let (names, _) ← selectedColumns rest
    pure (names, true)
  | .column column :: rest => do
    let (names, wildcard) ← selectedColumns rest
    pure (column.column :: names, wildcard)
  | _ :: _ => throw (lit "manifest-snapshot features must be projected columns")

/-- The label of the snapshot. -/
def snapshotLabel (statement : CreateSnapshotStmt) (table : TableMeta) (selected : List Bytes) (wildcard : Bool) :
    SnapshotFeatureMeta :=
  if statement.label.name.isEmpty then
    { name := selected.getLast?.getD (if wildcard then (table.columns.getLast?.map (·.name)).getD [] else [])
      spec := statement.label.spec }
  else ⟨statement.label.name, statement.label.spec⟩

/-- The features of the snapshot. -/
def snapshotFeatures (statement : CreateSnapshotStmt) (table : TableMeta) (selected : List Bytes) (wildcard : Bool)
    (label : Bytes) : List SnapshotFeatureMeta :=
  if statement.features.isEmpty then
    ((if wildcard then table.columns.map (·.name) else selected).filter (· != label)).map ({ name := · })
  else statement.features.map fun feature ↦ ⟨feature.name, feature.spec⟩

/-- The split key is the row. -/
def splitsByRow (splitBy : Bytes) : Bool :=
  splitBy == lit "row" || splitBy == lit "rowid"

/-- The checks of `executeCreateSnapshot` on its columns. -/
def checkSnapshotColumns (table : TableMeta) (snapshot : DatasetSnapshotMeta) : Except Error Unit := do
  if snapshot.features.isEmpty then throw (lit "manifest-snapshot requires at least one feature")
  if snapshot.label.name.isEmpty then throw (lit "manifest-snapshot requires a label")
  match snapshot.features.find? fun feature ↦ (tableColumnIndex table feature.name).isNone with
  | some feature => throw (lit "Unknown feature column: " ++ feature.name)
  | none => pure ()
  if (tableColumnIndex table snapshot.label.name).isNone then
    throw (lit "Unknown label column: " ++ snapshot.label.name)
  if !splitsByRow snapshot.splitBy && (tableColumnIndex table snapshot.splitBy).isNone then
    throw (lit "Unknown split key column: " ++ snapshot.splitBy)

/-- The snapshot before its rows are captured. The text of the query is what `CodeGen::generate` makes of the
source. -/
def snapshotRecord (generate : SelectStmt → Bytes) (catalog : Catalog) (statement : CreateSnapshotStmt)
    (source : SelectStmt) (table : TableMeta) (selected : List Bytes) (wildcard : Bool) : DatasetSnapshotMeta where
  name := statement.name
  queryText := generate source
  sourceTable := source.fromTable
  schemaFingerprint := ofNat catalog.schemaFingerprint.toNat
  tableVersion := ofNat catalog.revision.toNat
  splitBy := if statement.splitBy.isEmpty then lit "row" else statement.splitBy
  seed := statement.seed
  features := snapshotFeatures statement table selected wildcard
    (snapshotLabel statement table selected wildcard).name
  label := snapshotLabel statement table selected wildcard

/-- `executeCreateSnapshot` up to the loop over the rows: the source, its table and the snapshot without rows. -/
def snapshotShape (generate : SelectStmt → Bytes) (catalog : Catalog) (statement : CreateSnapshotStmt) :
    Except Error (SelectStmt × TableMeta × DatasetSnapshotMeta) :=
  if statement.name ∈ catalog.snapshots then throw (lit "Snapshot already exists: " ++ statement.name)
  else match statement.source with
    | none => throw (lit "Snapshot requires a source query")
    | some source =>
      if !source.joins.isEmpty || !source.groupBy.isEmpty || source.having.isSome || source.limit.isSome ||
          source.offset.isSome then
        throw (lit "manifest-snapshot currently supports one table with an optional filter")
      else match catalog.tables[source.fromTable]? with
        | none => throw (lit "Unknown source table: " ++ source.fromTable)
        | some table => do
          let selected ← selectedColumns source.columns
          let snapshot := snapshotRecord generate catalog statement source table selected.1 selected.2
          checkSnapshotColumns table snapshot
          pure (source, table, snapshot)

/-! ### The rows -/

/-- What the loop over the rows collects: the rows, and the splits of each split key and of each user. -/
structure SnapshotCapture where
  rows : List SnapshotRowMeta := []
  splitKeySplits : NameMap (List Bytes) := ∅
  userIdSplits : NameMap (List Bytes) := ∅

/-- `splits[key].insert(split)`. -/
def addSplit (splits : NameMap (List Bytes)) (key split : Bytes) : NameMap (List Bytes) :=
  splits.insert key ((splits.getD key []).insert split)

/-- The split key of a row. -/
def splitKeyOf (splitBy : Bytes) (id : RowId) (row : EvalRow) : Except Error Bytes := do
  if splitsByRow splitBy then pure (rowIdString id)
  else pure (← resolveColumn { column := splitBy } row).toString

/-- The user of a row, when users may be torn apart. -/
def userOf (table : TableMeta) (splitBy : Bytes) (row : EvalRow) : Option Bytes :=
  match tableColumnIndex table (lit "user_id") with
  | none => none
  | some index => if splitBy != lit "user_id" then row.values[index]?.map (·.toString) else none

/-- The loop of `executeCreateSnapshot`, on a row that is captured. -/
def SnapshotCapture.add (capture : SnapshotCapture) (table : TableMeta) (snapshot : DatasetSnapshotMeta) (id : RowId)
    (row : EvalRow) (splitKey : Bytes) : SnapshotCapture :=
  let split := splitForKey snapshot.seed splitKey
  { rows := capture.rows ++ [⟨rowIdString id, split⟩]
    splitKeySplits :=
      -- Row ids are not kept, since each of them occurs once.
      if splitsByRow snapshot.splitBy then capture.splitKeySplits else addSplit capture.splitKeySplits splitKey split
    userIdSplits :=
      match userOf table snapshot.splitBy row with
      | none => capture.userIdSplits
      | some user => addSplit capture.userIdSplits user split }

/-- The loop of `executeCreateSnapshot`, on one row. -/
def captureRow (table : TableMeta) (source : SelectStmt) (snapshot : DatasetSnapshotMeta) (capture : SnapshotCapture)
    (stored : StoredRow) : Except Error SnapshotCapture := do
  let row := bindRow (boundColumns table source.fromTable source.fromAlias) stored
  if ← whereHolds source.where' row then
    let splitKey ← splitKeyOf snapshot.splitBy stored.id row
    pure (capture.add table snapshot stored.id row splitKey)
  else pure capture

/-- The text of the warning about a key. -/
def leakageText (subject advice key : Bytes) : Bytes :=
  lit "leakage-check sus: " ++ subject ++ lit " '" ++ key ++ lit "' appears in multiple splits" ++ advice

/-- The warning about the first key with several splits. -/
def leakageWarning (subject advice : Bytes) (splits : NameMap (List Bytes)) : List Bytes :=
  match splits.toList.find? fun entry ↦ 1 < entry.2.length with
  | none => []
  | some entry => [leakageText subject advice entry.1]

/-- The snapshot with the rows and the warnings. -/
def SnapshotCapture.complete (capture : SnapshotCapture) (snapshot : DatasetSnapshotMeta) : DatasetSnapshotMeta :=
  { snapshot with
    rows := capture.rows
    warnings := leakageWarning (lit "split key") [] capture.splitKeySplits ++
      leakageWarning (lit "user_id") (lit "; prefer split-by user_id") capture.userIdSplits }

/-- The result of `executeCreateSnapshot`. -/
def createSnapshotResult (snapshot : DatasetSnapshotMeta) : NativeQueryResult where
  columns := [lit "field", lit "value"]
  rows := [
    keyValue (lit "snapshot") snapshot.name,
    keyValue (lit "rows") (ofNat snapshot.rows.length),
    keyValue (lit "train_rows") (ofNat (snapshot.rows.countP (·.split == lit "train"))),
    keyValue (lit "validation_rows") (ofNat (snapshot.rows.countP (·.split == lit "validation"))),
    keyValue (lit "test_rows") (ofNat (snapshot.rows.countP (·.split == lit "test"))),
    keyValue (lit "split_by") snapshot.splitBy,
    keyValue (lit "seed") (ofNat snapshot.seed.toNat),
    keyValue (lit "features") (joinStrings (lit ",") (snapshot.features.map (·.name))),
    keyValue (lit "label") snapshot.label.name] ++
    if snapshot.warnings.isEmpty then []
    else [keyValue (lit "warning") (joinStrings (lit " | ") snapshot.warnings)]
  message := lit "manifested snapshot " ++ snapshot.name

namespace NativeEngine

variable (engine : NativeEngine)

/-- The snapshot that `NativeEngine::executeCreateSnapshot` adds to the catalog. -/
def createdSnapshot (generate : SelectStmt → Bytes) (statement : CreateSnapshotStmt) :
    StorageM DatasetSnapshotMeta := do
  let (source, table, snapshot) ← EStateM.answer (snapshotShape generate engine.catalog statement)
  let path ← EStateM.answer (tablePath source.fromTable)
  let rows ← (engine.tableOf source.fromTable table path).scanTable
  let capture ← EStateM.answer (rows.foldlM (captureRow table source snapshot) {})
  pure (capture.complete snapshot)

end NativeEngine

/-! ### Splits and keys -/

/-- The map has the splits of each key, each once. -/
structure Records (splits : NameMap (List Bytes)) (pairs : List (Bytes × Bytes)) : Prop where
  nodup : ∀ key, (splits.getD key []).Nodup
  mem : ∀ key split, split ∈ splits.getD key [] ↔ (key, split) ∈ pairs

theorem records_empty : Records ∅ [] where
  nodup key := by simp
  mem key split := by simp

/-- A further pair is recorded. -/
theorem Records.add {splits : NameMap (List Bytes)} {pairs : List (Bytes × Bytes)} (h : Records splits pairs)
    (key split : Bytes) : Records (addSplit splits key split) (pairs ++ [(key, split)]) := by
  have hgetD (key' : Bytes) : (addSplit splits key split).getD key' [] =
      if key = key' then (splits.getD key []).insert split else splits.getD key' [] := by
    rw [addSplit, Std.ExtTreeMap.getD_insert]
    simp only [Std.LawfulEqOrd.compare_eq_iff_eq]
  refine ⟨fun key' ↦ ?_, fun key' split' ↦ ?_⟩
  · rw [hgetD]
    split
    · exact (h.nodup key).insert
    · exact h.nodup key'
  · rw [hgetD, List.mem_append, List.mem_singleton, Prod.mk.injEq]
    by_cases hkey : key = key'
    · rw [if_pos hkey, List.mem_insert_iff, h.mem, hkey, or_comm, and_iff_right rfl]
    · rw [if_neg hkey, h.mem, or_iff_left fun hboth ↦ hkey hboth.1.symm]

/-- A key that occurs in two splits. -/
def Torn (pairs : List (Bytes × Bytes)) (key : Bytes) : Prop :=
  ∃ split split', (key, split) ∈ pairs ∧ (key, split') ∈ pairs ∧ split ≠ split'

/-- A key is torn between splits when more than one is recorded for it. -/
theorem Records.torn_iff {splits : NameMap (List Bytes)} {pairs : List (Bytes × Bytes)} (h : Records splits pairs)
    (key : Bytes) : 1 < (splits.getD key []).length ↔ Torn pairs key := by
  have hnodup := h.nodup key
  simp only [Torn, ← h.mem]
  generalize splits.getD key [] = found at hnodup
  cases found with
  | nil => simp
  | cons split rest =>
    cases rest with
    | nil => simp
    | cons split' rest =>
      have hne : split ≠ split' := by
        rintro rfl
        exact (List.nodup_cons.1 hnodup).1 List.mem_cons_self
      exact iff_of_true (by simp) ⟨split, split', by simp, by simp, hne⟩

/-- The warning names a key that occurs in several splits, and there is one when there is such a key. -/
theorem Records.leakageWarning {splits : NameMap (List Bytes)} {pairs : List (Bytes × Bytes)}
    (h : Records splits pairs) (subject advice : Bytes) :
    (leakageWarning subject advice splits = [] ∧ ∀ key, ¬Torn pairs key) ∨
      ∃ key, Torn pairs key ∧ leakageWarning subject advice splits = [leakageText subject advice key] := by
  cases hfind : splits.toList.find? fun entry ↦ 1 < entry.2.length with
  | none =>
    refine .inl ⟨by rw [SkibidiQL.leakageWarning, hfind], fun key htorn ↦ ?_⟩
    rw [← h.torn_iff] at htorn
    cases hkey : splits[key]? with
    | none =>
      rw [Std.ExtTreeMap.getD_eq_getD_getElem?, hkey] at htorn
      cases htorn
    | some found =>
      rw [Std.ExtTreeMap.getD_eq_getD_getElem?, hkey] at htorn
      have hnot := List.find?_eq_none.1 hfind (key, found) (Std.ExtTreeMap.mem_toList_iff_getElem?_eq_some.2 hkey)
      exact hnot (decide_eq_true htorn)
  | some entry =>
    refine .inr ⟨entry.1, ?_, by rw [SkibidiQL.leakageWarning, hfind]⟩
    have hentry := Std.ExtTreeMap.mem_toList_iff_getElem?_eq_some.1 (List.mem_of_find?_eq_some hfind)
    have hlength := List.find?_some hfind
    rw [← h.torn_iff, Std.ExtTreeMap.getD_eq_getD_getElem?, hentry]
    simpa using hlength

/-! ### The captured rows -/

/-- A row that is captured, with its split key. -/
structure CapturedRow where
  stored : StoredRow
  splitKey : Bytes

/-- The rows that the condition of the source selects, with their split keys. -/
def capturedRows (table : TableMeta) (source : SelectStmt) (splitBy : Bytes) :
    List StoredRow → Except Error (List CapturedRow)
  | [] => pure []
  | stored :: rest => do
    let row := bindRow (boundColumns table source.fromTable source.fromAlias) stored
    if ← whereHolds source.where' row then
      let splitKey ← splitKeyOf splitBy stored.id row
      pure (⟨stored, splitKey⟩ :: (← capturedRows table source splitBy rest))
    else capturedRows table source splitBy rest

/-- The users and the splits of the captured rows. -/
def userSplits (table : TableMeta) (snapshot : DatasetSnapshotMeta) (captured : List CapturedRow) :
    List (Bytes × Bytes) :=
  captured.filterMap fun row ↦ (userOf table snapshot.splitBy { values := row.stored.values }).map
    (·, splitForKey snapshot.seed row.splitKey)

/-- What the loop has collected, of the captured rows. -/
structure SnapshotCapture.Of (table : TableMeta) (snapshot : DatasetSnapshotMeta) (captured : List CapturedRow)
    (capture : SnapshotCapture) : Prop where
  rows : capture.rows = captured.map fun row ↦ ⟨rowIdString row.stored.id, splitForKey snapshot.seed row.splitKey⟩
  keys : Records capture.splitKeySplits (if splitsByRow snapshot.splitBy then []
    else captured.map fun row ↦ (row.splitKey, splitForKey snapshot.seed row.splitKey))
  users : Records capture.userIdSplits (userSplits table snapshot captured)

namespace SnapshotCapture

variable {table : TableMeta} {source : SelectStmt} {snapshot : DatasetSnapshotMeta} {captured : List CapturedRow}
  {capture : SnapshotCapture}

/-- The split is a function of the split key. -/
theorem not_torn_keys (byRow : Bool) (seed : UInt64) (captured : List CapturedRow) (key : Bytes) :
    ¬Torn (if byRow then [] else captured.map fun row ↦ (row.splitKey, splitForKey seed row.splitKey)) key := by
  rintro ⟨split, split', hmem, hmem', hne⟩
  split at hmem
  · cases hmem
  · next hbyRow =>
    rw [if_neg hbyRow] at hmem'
    obtain ⟨row, -, hrow⟩ := List.mem_map.1 hmem
    obtain ⟨row', -, hrow'⟩ := List.mem_map.1 hmem'
    obtain ⟨rfl, rfl⟩ := Prod.mk.inj hrow
    obtain ⟨hkey, rfl⟩ := Prod.mk.inj hrow'
    exact hne (congrArg (splitForKey seed) hkey.symm)

/-- A capture begins with no rows. -/
theorem of_nil : Of table snapshot [] {} where
  rows := rfl
  keys := by
    rw [List.map_nil, ite_self]
    exact records_empty
  users := records_empty

/-- A further row is captured. -/
theorem Of.add (h : Of table snapshot captured capture) (row : CapturedRow) {evaluated : EvalRow}
    (hvalues : evaluated.values = row.stored.values) :
    Of table snapshot (captured ++ [row]) (capture.add table snapshot row.stored.id evaluated row.splitKey) where
  rows := by rw [SnapshotCapture.add, h.rows, List.map_append]; rfl
  keys := by
    have hkeys := h.keys
    rw [SnapshotCapture.add]
    dsimp only
    cases hbyRow : splitsByRow snapshot.splitBy with
    | true =>
      rw [hbyRow] at hkeys
      exact hkeys
    | false =>
      rw [hbyRow] at hkeys
      rw [List.map_append]
      exact hkeys.add row.splitKey _
  users := by
    have huser : userOf table snapshot.splitBy evaluated =
        userOf table snapshot.splitBy { values := row.stored.values } := by
      rw [userOf, userOf, hvalues]
    rw [SnapshotCapture.add, huser, userSplits, List.filterMap_append, List.filterMap_cons, List.filterMap_nil]
    dsimp only
    cases userOf table snapshot.splitBy { values := row.stored.values } with
    | none =>
      rw [Option.map_none, List.append_nil]
      exact h.users
    | some user => exact h.users.add user _

/-- Capturing rows captures each of them. -/
theorem of_foldlM {rows : List StoredRow} {capture' : SnapshotCapture} (h : Of table snapshot captured capture)
    (hrun : rows.foldlM (captureRow table source snapshot) capture = .ok capture') :
    ∃ more, capturedRows table source snapshot.splitBy rows = .ok more ∧
      Of table snapshot (captured ++ more) capture' := by
  induction rows generalizing captured capture with
  | nil =>
    obtain rfl := Except.ok.inj hrun
    exact ⟨[], rfl, by rwa [List.append_nil]⟩
  | cons stored rows ih =>
    rw [List.foldlM_cons] at hrun
    obtain ⟨middle, hrow, hrest⟩ := Except.bind_eq_ok.1 hrun
    rw [captureRow] at hrow
    obtain ⟨selected, hselected, hrow⟩ := Except.bind_eq_ok.1 hrow
    rw [capturedRows, hselected]
    cases selected with
    | false =>
      obtain rfl := Except.ok.inj hrow
      exact ih h hrest
    | true =>
      obtain ⟨splitKey, hkey, hadd⟩ := Except.bind_eq_ok.1 hrow
      obtain rfl := Except.ok.inj hadd
      obtain ⟨more, hmore, hof⟩ := ih (h.add ⟨stored, splitKey⟩ rfl) hrest
      refine ⟨⟨stored, splitKey⟩ :: more, ?_, by rwa [List.append_assoc] at hof⟩
      show (splitKeyOf snapshot.splitBy stored.id _ >>= _) = _
      rw [hkey]
      show (capturedRows table source snapshot.splitBy rows >>= _) = _
      rw [hmore]
      rfl

end SnapshotCapture

/-- The three splits. -/
theorem splitForKey_cases (seed : UInt64) (key : Bytes) : splitForKey seed key = lit "train" ∨
    splitForKey seed key = lit "validation" ∨ splitForKey seed key = lit "test" := by
  unfold splitForKey
  dsimp only
  split
  · exact .inl rfl
  · split
    · exact .inr (.inl rfl)
    · exact .inr (.inr rfl)

/-- The counts of the splits, as the result of the statement reports them, add up. -/
theorem countP_splits (seed : UInt64) (captured : List CapturedRow) :
    let rows : List SnapshotRowMeta :=
      captured.map fun row ↦ ⟨rowIdString row.stored.id, splitForKey seed row.splitKey⟩
    rows.countP (·.split == lit "train") + rows.countP (·.split == lit "validation") +
      rows.countP (·.split == lit "test") = rows.length := by
  dsimp only
  induction captured with
  | nil => rfl
  | cons row captured ih =>
    simp only [List.map_cons, List.countP_cons, List.length_cons]
    have hone : (if (splitForKey seed row.splitKey == lit "train") = true then 1 else 0) +
        (if (splitForKey seed row.splitKey == lit "validation") = true then 1 else 0) +
        (if (splitForKey seed row.splitKey == lit "test") = true then 1 else 0) = 1 := by
      rcases splitForKey_cases seed row.splitKey with hsplit | hsplit | hsplit <;> rw [hsplit] <;> decide
    omega

/-! ### The snapshot -/

/-- What `executeCreateSnapshot` has checked of its statement, and what it records of it in the snapshot. -/
structure CreateSnapshotStmt.Recorded (statement : CreateSnapshotStmt) (generate : SelectStmt → Bytes)
    (catalog : Catalog) (source : SelectStmt) (table : TableMeta) (snapshot : DatasetSnapshotMeta) : Prop where
  fresh : statement.name ∉ catalog.snapshots
  source_eq : statement.source = some source
  plain : source.joins = [] ∧ source.groupBy = [] ∧ source.having = none ∧ source.limit = none ∧ source.offset = none
  table_eq : catalog.tables[source.fromTable]? = some table
  name : snapshot.name = statement.name
  queryText : snapshot.queryText = generate source
  sourceTable : snapshot.sourceTable = source.fromTable
  schemaFingerprint : snapshot.schemaFingerprint = ofNat catalog.schemaFingerprint.toNat
  tableVersion : snapshot.tableVersion = ofNat catalog.revision.toNat
  splitBy : snapshot.splitBy = if statement.splitBy.isEmpty then lit "row" else statement.splitBy
  seed : snapshot.seed = statement.seed
  /-- Label and features are those of the statement, and what it leaves out comes from the projected columns. -/
  columns : ∃ selected wildcard, selectedColumns source.columns = .ok (selected, wildcard) ∧
    snapshot.label = snapshotLabel statement table selected wildcard ∧
    snapshot.features = snapshotFeatures statement table selected wildcard snapshot.label.name
  features_ne : snapshot.features ≠ []
  label_ne : snapshot.label.name ≠ []
  feature_column : ∀ feature ∈ snapshot.features, (tableColumnIndex table feature.name).isSome
  label_column : (tableColumnIndex table snapshot.label.name).isSome
  split_column : splitsByRow snapshot.splitBy = true ∨ (tableColumnIndex table snapshot.splitBy).isSome

/-- The columns that pass the checks: features and a label, and they and the split key are in the table. -/
theorem checkSnapshotColumns_eq_ok {table : TableMeta} {snapshot : DatasetSnapshotMeta}
    (h : checkSnapshotColumns table snapshot = .ok ()) :
    snapshot.features ≠ [] ∧ snapshot.label.name ≠ [] ∧
      (∀ feature ∈ snapshot.features, (tableColumnIndex table feature.name).isSome) ∧
      (tableColumnIndex table snapshot.label.name).isSome ∧
      (splitsByRow snapshot.splitBy = true ∨ (tableColumnIndex table snapshot.splitBy).isSome) := by
  rw [checkSnapshotColumns] at h
  -- each check throws, so a success has passed all of them in the order of the source
  split at h
  · cases h
  next hfeatures =>
  dsimp only at h
  split at h
  · cases h
  next hlabel =>
  split at h
  · cases h
  next hfind =>
  split at h
  · cases h
  next hcolumn =>
  split at h
  · cases h
  next hsplit =>
  refine ⟨by simpa using hfeatures, by simpa using hlabel, fun feature hfeature ↦ ?_, ?_, ?_⟩
  · have hnone := List.find?_eq_none.1 hfind feature hfeature
    rwa [Bool.not_eq_true, Option.isNone_eq_false_iff] at hnone
  · rwa [Bool.not_eq_true, Option.isNone_eq_false_iff] at hcolumn
  · rw [Bool.not_eq_true, Bool.and_eq_false_iff, Bool.not_eq_false', Option.isNone_eq_false_iff] at hsplit
    exact hsplit

/-- A statement that passes its checks is recorded in the snapshot. -/
theorem recorded_of_snapshotShape {generate : SelectStmt → Bytes} {catalog : Catalog}
    {statement : CreateSnapshotStmt} {source : SelectStmt} {table : TableMeta} {snapshot : DatasetSnapshotMeta}
    (h : snapshotShape generate catalog statement = .ok (source, table, snapshot)) :
    statement.Recorded generate catalog source table snapshot := by
  -- The checks in the order of the source, each of which ends in a field of the record.
  rw [snapshotShape] at h
  split at h
  · cases h
  next hfresh =>
  rcases hsource : statement.source with _ | source'
  · rw [hsource] at h
    cases h
  rw [hsource] at h
  dsimp only at h
  split at h
  · cases h
  next hplain =>
  rcases htable : catalog.tables[source'.fromTable]? with _ | table'
  · rw [htable] at h
    cases h
  rw [htable] at h
  obtain ⟨⟨selected, wildcard⟩, hselected, h⟩ := Except.bind_eq_ok.1 h
  obtain ⟨⟨⟩, hcheck, h⟩ := Except.bind_eq_ok.1 h
  obtain ⟨rfl, rfl, rfl⟩ : source' = source ∧ table' = table ∧
      snapshotRecord generate catalog statement source' table' selected wildcard = snapshot := by
    simpa using Except.ok.inj h
  obtain ⟨hfeatures, hlabel, hfeature, hcolumn, hsplit⟩ := checkSnapshotColumns_eq_ok hcheck
  exact {
    fresh := hfresh
    source_eq := hsource
    plain := by simpa [and_assoc] using hplain
    table_eq := htable
    name := rfl
    queryText := rfl
    sourceTable := rfl
    schemaFingerprint := rfl
    tableVersion := rfl
    splitBy := rfl
    seed := rfl
    columns := ⟨selected, wildcard, hselected, rfl, rfl⟩
    features_ne := hfeatures
    label_ne := hlabel
    feature_column := hfeature
    label_column := hcolumn
    split_column := hsplit }

/-- The rows and the warnings do not change what is recorded of the statement. -/
theorem CreateSnapshotStmt.Recorded.complete {statement : CreateSnapshotStmt} {generate : SelectStmt → Bytes}
    {catalog : Catalog} {source : SelectStmt} {table : TableMeta} {snapshot : DatasetSnapshotMeta}
    (h : statement.Recorded generate catalog source table snapshot) (capture : SnapshotCapture) :
    statement.Recorded generate catalog source table (capture.complete snapshot) :=
  { h with }

/-- A snapshot that is created records its statement, has the rows of the source table that the condition of the
statement selects, each in the split of its split key. No warning is about the split key, and there is one about
users exactly when a user occurs in two splits. -/
theorem NativeEngine.createdSnapshot_splits {engine : NativeEngine} {generate : SelectStmt → Bytes}
    {statement : CreateSnapshotStmt} {s s' : Storage} {snapshot : DatasetSnapshotMeta}
    (h : engine.createdSnapshot generate statement s = .ok snapshot s') :
    ∃ source table path rows captured,
      statement.Recorded generate engine.catalog source table snapshot ∧
      tablePath source.fromTable = .ok path ∧
      (engine.tableOf source.fromTable table path).scanTable s = .ok rows s' ∧
      capturedRows table source snapshot.splitBy rows = .ok captured ∧
      snapshot.rows = captured.map (fun row ↦
        ⟨rowIdString row.stored.id, splitForKey snapshot.seed row.splitKey⟩) ∧
      snapshot.rows.countP (·.split == lit "train") + snapshot.rows.countP (·.split == lit "validation") +
        snapshot.rows.countP (·.split == lit "test") = captured.length ∧
      ((snapshot.warnings = [] ∧ ∀ user, ¬Torn (userSplits table snapshot captured) user) ∨
        ∃ user, Torn (userSplits table snapshot captured) user ∧
          snapshot.warnings = [leakageText (lit "user_id") (lit "; prefer split-by user_id") user]) := by
  rw [createdSnapshot] at h
  obtain ⟨⟨source, table, shape⟩, s₁, hshape, h⟩ := EStateM.exists_of_bind_eq_ok h
  obtain ⟨path, s₂, hpath, h⟩ := EStateM.exists_of_bind_eq_ok h
  obtain ⟨rows, s₃, hrows, h⟩ := EStateM.exists_of_bind_eq_ok h
  obtain ⟨capture, s₄, hcapture, h⟩ := EStateM.exists_of_bind_eq_ok h
  obtain ⟨hshape, hs₁⟩ := EStateM.answer_eq_ok hshape
  obtain ⟨hpath, hs₂⟩ := EStateM.answer_eq_ok hpath
  obtain ⟨hcapture, hs₄⟩ := EStateM.answer_eq_ok hcapture
  obtain ⟨rfl, hs'⟩ := EStateM.Result.ok.inj h
  rw [hs₂, hs₁, ← hs₄, hs'] at hrows
  obtain ⟨captured, hcaptured, hof⟩ := SnapshotCapture.of_foldlM SnapshotCapture.of_nil hcapture
  rw [List.nil_append] at hof
  refine ⟨source, table, path, rows, captured, (recorded_of_snapshotShape hshape).complete capture, hpath, hrows,
    hcaptured, hof.rows, ?_, ?_⟩
  · rw [SnapshotCapture.complete, hof.rows]
    exact (countP_splits shape.seed captured).trans (List.length_map _)
  -- A split key decides its split, so it is never in two of them.
  · have hkeys : leakageWarning (lit "split key") [] capture.splitKeySplits = [] := by
      rcases hof.keys.leakageWarning (lit "split key") [] with ⟨hnone, -⟩ | ⟨key, htorn, -⟩
      · exact hnone
      · exact absurd htorn (SnapshotCapture.not_torn_keys _ _ _ _)
    have hwarnings : (capture.complete shape).warnings =
        leakageWarning (lit "user_id") (lit "; prefer split-by user_id") capture.userIdSplits := by
      rw [SnapshotCapture.complete, hkeys, List.nil_append]
    rw [hwarnings]
    exact hof.users.leakageWarning (lit "user_id") (lit "; prefer split-by user_id")

/-- `visits(user_id INTEGER, page INTEGER)`. -/
def visitsEngine : NativeEngine where
  catalog := ({} : Catalog).addTable {
    name := lit "visits"
    columns := [{ name := lit "user_id", type := lit "INTEGER" }, { name := lit "page", type := lit "INTEGER" }] }
  batchSize := 16

/-- Two visits of one user. -/
def twoVisits : Storage :=
  (onHeap (lit "tables/visits.heap") (do
    discard (HeapFile.insert [.integer 1, .integer 0])
    discard (HeapFile.insert [.integer 1, .integer 2]))).final
    { disk := { root := lit "/db" }, pool := .new 4 ⟨id, fun _ ↦ .rfl⟩ }

/-- The source of the snapshot: `SELECT user_id, page FROM visits`. -/
def allVisits : SelectStmt where
  columns := [.column { column := lit "user_id" }, .column { column := lit "page" }]
  fromTable := lit "visits"

/-- A snapshot of all visits, split by the page. -/
def snapshotVisits : CreateSnapshotStmt where
  name := lit "clicks"
  source := some allVisits
  splitBy := lit "page"

set_option maxRecDepth 100000 in
/-- Two visits, captured. -/
theorem createdSnapshot_splits_visits : ∃ snapshot s',
    visitsEngine.createdSnapshot (fun _ ↦ []) snapshotVisits twoVisits = .ok snapshot s' ∧
    ∃ source table path rows captured,
      snapshotVisits.Recorded (fun _ ↦ []) visitsEngine.catalog source table snapshot ∧
      tablePath source.fromTable = .ok path ∧
      (visitsEngine.tableOf source.fromTable table path).scanTable twoVisits = .ok rows s' ∧
      capturedRows table source snapshot.splitBy rows = .ok captured ∧
      snapshot.rows = captured.map (fun row ↦
        ⟨rowIdString row.stored.id, splitForKey snapshot.seed row.splitKey⟩) ∧
      snapshot.rows.countP (·.split == lit "train") + snapshot.rows.countP (·.split == lit "validation") +
        snapshot.rows.countP (·.split == lit "test") = captured.length ∧
      ((snapshot.warnings = [] ∧ ∀ user, ¬Torn (userSplits table snapshot captured) user) ∨
        ∃ user, Torn (userSplits table snapshot captured) user ∧
          snapshot.warnings = [leakageText (lit "user_id") (lit "; prefer split-by user_id") user]) := by
  obtain ⟨snapshot, hrun⟩ : ∃ snapshot,
      (visitsEngine.createdSnapshot (fun _ ↦ []) snapshotVisits).run' twoVisits = some snapshot :=
    Option.isSome_iff_exists.1 (by decide +kernel)
  have hcreated := EStateM.eq_of_run' hrun
  exact ⟨snapshot, _, hcreated, NativeEngine.createdSnapshot_splits hcreated⟩

end SkibidiQL
