import SkibidiQL.Base.Batching
import SkibidiQL.Catalog.JsonReader
import SkibidiQL.Dataset.RowChanges
import SkibidiQL.Dataset.SnapshotPlan
import Mathlib.Data.Nat.Prime.Basic

/-!
# Batches of a shard

`EXPLAIN BATCH` selects the rows of one batch of a plan and `EXPORT TORCH` reports how many batches there
are, both in unsigned 64-bit arithmetic; `explain_batch` of the Python package selects the rows with unbounded
integers. The product of a batch number and the batch size may wrap around. Batches past the last one are
empty exactly for the plans and batch sizes of `batches_partition_iff`.
-/

namespace SkibidiQL

open Bytes

/-! ### The engine -/

/-- `struct ExportTorchStmt`. -/
structure ExportTorchStmt where
  dataset : Bytes
  batchSize : UInt64 := 256
  deterministicShuffle : Bool := true
  epoch : UInt64 := 0
  rank : UInt64 := 0
  worldSize : UInt64 := 1

/-- `struct ExplainBatchStmt`. -/
structure ExplainBatchStmt where
  dataset : Bytes
  batchSize : UInt64 := 256
  epoch : UInt64 := 0
  batch : UInt64 := 0
  rank : UInt64 := 0
  worldSize : UInt64 := 1

/-- The rows of a batch: the range of the plan from `start` to `end`. Inserting a range that ends before it
starts throws. -/
def selectBatch {α : Type} (planned : List α) (batch batchSize : UInt64) : Except Error (List α) :=
  let start := batch * batchSize
  let stop := if start + batchSize < UInt64.ofNat planned.length then start + batchSize
    else UInt64.ofNat planned.length
  if start < UInt64.ofNat planned.length then
    if stop < start then throw (lit "vector::_M_range_insert")
    else pure ((planned.drop start.toNat).take (stop.toNat - start.toNat))
  else pure []

/-- `Catalog::getSnapshot` and the check of the batch size, then `plannedSnapshotRows`. -/
def plannedBatches (catalog : Catalog) (dataset : Bytes) (batchSize epoch rank worldSize : UInt64) :
    Except Error (DatasetSnapshotMeta × List SnapshotRowMeta) := do
  let some snapshot := catalog.snapshots[dataset]? | throw (lit "Unknown snapshot: " ++ dataset)
  if batchSize = 0 then throw (lit "batch-size must be greater than zero")
  return (snapshot, ← plannedSnapshotRows snapshot epoch rank worldSize (lit "train"))

/-- `NativeEngine::executeExportTorch`. -/
def executeExportTorch (catalog : Catalog) (statement : ExportTorchStmt) : Except Error NativeQueryResult := do
  let (snapshot, planned) ← plannedBatches catalog statement.dataset statement.batchSize statement.epoch
    statement.rank statement.worldSize
  -- The sum wraps around at 2^64.
  let batches := (UInt64.ofNat planned.length + statement.batchSize - 1) / statement.batchSize
  return {
    columns := [lit "field", lit "value"]
    rows := [
      keyValue (lit "snapshot") snapshot.name,
      keyValue (lit "torch_dataset") (lit "from tensorql import TensorQLDataset"),
      keyValue (lit "python") (lit "TensorQLDataset(db_path, dataset=\"" ++ snapshot.name ++
        lit "\", batch_size=" ++ ofNat statement.batchSize.toNat ++ lit ")"),
      keyValue (lit "samples") (ofNat planned.length),
      keyValue (lit "batches") (ofNat batches.toNat),
      keyValue (lit "batch_size") (ofNat statement.batchSize.toNat),
      keyValue (lit "shuffle") (if statement.deterministicShuffle then lit "deterministic" else lit "off"),
      keyValue (lit "epoch") (ofNat statement.epoch.toNat),
      keyValue (lit "rank") (ofNat statement.rank.toNat),
      keyValue (lit "world_size") (ofNat statement.worldSize.toNat)]
    message := lit "torch export plan ready for " ++ snapshot.name }

/-- The snapshot and the rows that `NativeEngine::executeExplainBatch` selects. -/
def explainBatchRows (catalog : Catalog) (statement : ExplainBatchStmt) :
    Except Error (DatasetSnapshotMeta × List SnapshotRowMeta) := do
  let (snapshot, planned) ← plannedBatches catalog statement.dataset statement.batchSize statement.epoch
    statement.rank statement.worldSize
  return (snapshot, ← selectBatch planned statement.batch statement.batchSize)

/-- `std::stoul`. -/
def stoul (text : Bytes) : Except Error Nat :=
  let text := text.dropWhile isSpace
  let digits := (text.drop (if text.head? = some 43 ∨ text.head? = some 45 then 1 else 0)).takeWhile isDigit
  let value := Json.decimal digits
  if digits.isEmpty ∨ 2 ^ 64 ≤ value then throw (lit "stoul")
  else if text.head? = some 45 then pure ((2 ^ 64 - value) % 2 ^ 64)
  else pure value

/-- `parseRowIdString`. -/
def parseRowIdString (text : Bytes) : Except Error RowId :=
  match text.find [58] with
  | none => throw (lit "Malformed snapshot row id: " ++ text)
  | some colon => do
    let page ← stoul (text.take colon)
    let slot ← stoul (text.drop (colon + 1))
    return ⟨page % 2 ^ 32, slot % 2 ^ 16⟩

/-- `tableColumnIndex`. -/
def tableColumnIndex (table : TableMeta) (column : Bytes) : Option Nat :=
  table.columns.findIdx? (·.name == column)

/-- The loop over the rows of a batch: how often each label occurs. Rows that are gone are left out. -/
def countLabels (labelIndex : Nat) : List SnapshotRowMeta → NameMap Nat → HeapM (NameMap Nat)
  | [], counts => pure counts
  | row :: rows, counts => do
    let id ← EStateM.answer (parseRowIdString row.rowid)
    match (← HeapFile.read id).bind (·.values[labelIndex]?) with
    | none => countLabels labelIndex rows counts
    | some label =>
      countLabels labelIndex rows (counts.insert label.toString (counts.getD label.toString 0 + 1))

/-- The result of `NativeEngine::executeExplainBatch`. -/
def explainBatchResult (statement : ExplainBatchStmt) (snapshot : DatasetSnapshotMeta)
    (rowids labelParts : List Bytes) : NativeQueryResult where
  columns := [lit "field", lit "value"]
  rows := [
    keyValue (lit "snapshot") snapshot.name,
    keyValue (lit "batch") (ofNat statement.batch.toNat),
    keyValue (lit "samples") (ofNat rowids.length),
    keyValue (lit "source_rows") (joinStrings (lit ",") rowids)] ++
    (match rowids.head?, rowids.getLast? with
    | some first, some last => [keyValue (lit "source_range") (first ++ lit "-" ++ last)]
    | _, _ => []) ++ [
    keyValue (lit "feature_columns") (joinStrings (lit ",") (snapshot.features.map (·.name))),
    keyValue (lit "label_distribution") (joinStrings (lit ",") labelParts),
    keyValue (lit "split") (lit "train"),
    keyValue (lit "seed") (ofNat snapshot.seed.toNat),
    keyValue (lit "epoch") (ofNat statement.epoch.toNat),
    keyValue (lit "rank") (ofNat statement.rank.toNat ++ lit "/" ++ ofNat statement.worldSize.toNat),
    keyValue (lit "worker") (lit "0"),
    keyValue (lit "resume_token") (snapshot.name ++ lit ":epoch=" ++ ofNat statement.epoch.toNat ++
      lit ":batch=" ++ ofNat statement.batch.toNat ++ lit ":rank=" ++ ofNat statement.rank.toNat)]
  message := lit "spilled batch provenance for " ++ snapshot.name

/-- `NativeEngine::executeExplainBatch`. -/
def executeExplainBatch (catalog : Catalog) (statement : ExplainBatchStmt) : StorageM NativeQueryResult := do
  let (snapshot, batchRows) ← EStateM.answer (explainBatchRows catalog statement)
  let some table := catalog.tables[snapshot.sourceTable]?
    | throw (lit "Snapshot source table disappeared: " ++ snapshot.sourceTable)
  let some labelIndex := tableColumnIndex table snapshot.label.name
    | throw (lit "Snapshot label column disappeared: " ++ snapshot.label.name)
  let path ← EStateM.answer (tablePath snapshot.sourceTable)
  let labelCounts ← onHeap path (countLabels labelIndex batchRows ∅)
  return explainBatchResult statement snapshot (batchRows.map (·.rowid))
    (labelCounts.toList.map fun entry ↦ entry.1 ++ lit "=" ++ ofNat entry.2)

/-! ### The Python reader -/

/-- The attributes of `TensorQLDataset` that `explain_batch` reads. -/
structure PyDataset where
  dataset : List Char
  batchSize : Nat
  split : List Char
  epoch : Nat
  rank : Nat
  worldSize : Nat
  seed : Nat
  rows : List PySnapshotRow

/-- `TensorQLDataset.__init__`. -/
def pyDataset (dataset : List Char) (snapshot : PySnapshot) (batchSize : Int) (split : List Char)
    (epoch : Nat) (rank worldSize : Int) : Except Error PyDataset := do
  let rows ← pyPlannedRows snapshot batchSize split epoch rank worldSize
  return {
    dataset
    batchSize := batchSize.toNat
    split
    epoch
    rank := rank.toNat
    worldSize := worldSize.toNat
    seed := snapshot.seed
    rows }

/-- What `explain_batch` returns. -/
structure PyBatch where
  dataset : List Char
  batch : Nat
  samples : Nat
  sourceRows : List (List Char)
  split : List Char
  seed : Nat
  epoch : Nat
  rank : Nat
  worldSize : Nat

/-- `explain_batch`. -/
def PyDataset.explainBatch (self : PyDataset) (batch : Nat) : PyBatch :=
  let start := batch * self.batchSize
  let rows := (self.rows.take (start + self.batchSize)).drop start
  { dataset := self.dataset
    batch
    samples := rows.length
    sourceRows := rows.map (·.rowid)
    split := self.split
    seed := self.seed
    epoch := self.epoch
    rank := self.rank
    worldSize := self.worldSize }

/-- The rows that a batch is explained with are those of the batch. -/
theorem PyDataset.explainBatch_sourceRows (self : PyDataset) (batch : Nat) :
    (self.explainBatch batch).sourceRows = (self.rows.batch self.batchSize batch).map (·.rowid) := by
  show (List.drop _ (List.take _ self.rows)).map _ = _
  rw [List.batch, List.drop_take, Nat.add_sub_cancel_left]

/-! ### One batch -/

section Selection

variable {α : Type} {planned : List α} {batch batchSize : UInt64}

/-- The selection, in terms of the remainders that the engine computes. -/
theorem selectBatch_eq (hlength : planned.length < 2 ^ 63) :
    selectBatch planned batch batchSize =
      let start := batch.toNat * batchSize.toNat % 2 ^ 64
      let stop := min planned.length ((start + batchSize.toNat) % 2 ^ 64)
      if start < planned.length then
        if stop < start then throw (lit "vector::_M_range_insert")
        else pure ((planned.drop start).take (stop - start))
      else pure [] := by
  have hn : (UInt64.ofNat planned.length).toNat = planned.length :=
    UInt64.toNat_ofNat_of_lt' (hlength.trans (by decide))
  have hmin (x y : Nat) : (if y < x then y else x) = min x y := by
    split_ifs <;> omega
  simp only [selectBatch, UInt64.lt_iff_toNat_lt, apply_ite UInt64.toNat, hn, UInt64.toNat_mul,
    UInt64.toNat_add, hmin]

/-- As long as the product does not wrap around, the engine selects the rows of the batch. -/
theorem selectBatch_of_lt (hlength : planned.length < 2 ^ 63) (hpos : 0 < batchSize.toNat)
    (hproduct : batch.toNat * batchSize.toNat < 2 ^ 64) :
    selectBatch planned batch batchSize = .ok (planned.batch batchSize.toNat batch.toNat) := by
  rw [selectBatch_eq hlength]
  simp only [Nat.mod_eq_of_lt hproduct]
  by_cases hstart : batch.toNat * batchSize.toNat < planned.length
  · -- the end does not wrap around either: the batch is the first one, or no longer than the start
    have hstop : batch.toNat * batchSize.toNat + batchSize.toNat < 2 ^ 64 := by
      have hsize := batchSize.toNat_lt
      rcases Nat.eq_zero_or_pos batch.toNat with hzero | hbatch
      · rw [hzero, Nat.zero_mul]
        omega
      · have hle := Nat.le_mul_of_pos_left batchSize.toNat hbatch
        omega
    rw [if_pos hstart, Nat.mod_eq_of_lt hstop, if_neg (by omega)]
    show Except.ok _ = Except.ok _
    rw [List.batch, List.take_eq_take_iff.2]
    rw [List.length_drop]
    omega
  · rw [if_neg hstart, (List.batch_eq_nil_iff hpos).2 (Nat.le_of_not_lt hstart)]
    rfl

/-- The selection of no rows. -/
theorem selectBatch_eq_nil_iff (hlength : planned.length < 2 ^ 63) (hpos : 0 < batchSize.toNat) :
    selectBatch planned batch batchSize = .ok [] ↔
      planned.length ≤ batch.toNat * batchSize.toNat % 2 ^ 64 := by
  rw [selectBatch_eq hlength]
  set start := batch.toNat * batchSize.toNat % 2 ^ 64 with hdef
  have hsize := batchSize.toNat_lt
  by_cases hstart : start < planned.length
  · refine iff_of_false (fun hnil ↦ ?_) (Nat.not_le.2 hstart)
    simp only [if_pos hstart] at hnil
    split_ifs at hnil with hstop
    have htake := Except.ok.inj hnil
    rw [List.take_eq_nil_iff, List.drop_eq_nil_iff] at htake
    omega
  · simp only [if_neg hstart]
    exact iff_of_true rfl (Nat.le_of_not_lt hstart)

/-- The engine selects the rows of a batch exactly if the product of its number and the batch size does not
wrap around into the plan. -/
theorem selectBatch_eq_iff (hlength : planned.length < 2 ^ 63) (hpos : 0 < batchSize.toNat) :
    selectBatch planned batch batchSize = .ok (planned.batch batchSize.toNat batch.toNat) ↔
      batch.toNat * batchSize.toNat < 2 ^ 64 ∨
        planned.length ≤ batch.toNat * batchSize.toNat % 2 ^ 64 := by
  by_cases hproduct : batch.toNat * batchSize.toNat < 2 ^ 64
  · exact iff_of_true (selectBatch_of_lt hlength hpos hproduct) (.inl hproduct)
  · have hbeyond : planned.batch batchSize.toNat batch.toNat = [] :=
      (List.batch_eq_nil_iff hpos).2 (by omega)
    rw [hbeyond, selectBatch_eq_nil_iff hlength hpos, or_iff_right hproduct]

/-- The plans and batch sizes for which no product wraps around into the plan. -/
def NoWrap (n size : Nat) : Prop :=
  n = 0 ∨ size = 1 ∨ n = 1 ∧ size % 2 = 1

/-- No batch wraps around when the product of its number and the size stays below `2 ^ 64` or falls
behind the rows. -/
theorem noWrap_iff {n : Nat} (hn : n < 2 ^ 63) (hpos : 0 < batchSize.toNat) :
    NoWrap n batchSize.toNat ↔ ∀ batch : UInt64, batch.toNat * batchSize.toNat < 2 ^ 64 ∨
      n ≤ batch.toNat * batchSize.toNat % 2 ^ 64 := by
  set size := batchSize.toNat with hsize
  constructor
  · rintro (rfl | hone | ⟨rfl, hodd⟩) batch
    · exact .inr (Nat.zero_le _)
    · rw [hone, Nat.mul_one]
      exact .inl batch.toNat_lt
    · -- an odd batch size only divides a multiple of 2 ^ 64 if the batch number is one
      rcases Nat.eq_zero_or_pos (batch.toNat * size % 2 ^ 64) with hzero | hrest
      · have hcoprime : Nat.Coprime (2 ^ 64) size :=
          (Nat.coprime_two_left.2 (Nat.odd_iff.2 hodd)).pow_left 64
        have hdvd := hcoprime.dvd_of_dvd_mul_right (Nat.dvd_of_mod_eq_zero hzero)
        rw [Nat.eq_zero_of_dvd_of_lt hdvd batch.toNat_lt, Nat.zero_mul]
        exact .inl (by decide)
      · exact .inr hrest
  · intro hall
    by_contra hwrap
    obtain ⟨hn0, hwrap⟩ := not_or.1 hwrap
    obtain ⟨hone, hwrap⟩ := not_or.1 hwrap
    rcases Nat.mod_two_eq_zero_or_one size with heven | hodd
    · -- half of 2 ^ 64 times an even batch size is the first row again
      obtain ⟨half, hhalf⟩ := Nat.dvd_of_mod_eq_zero heven
      have hproduct : (9223372036854775808 : UInt64).toNat * size = half * 2 ^ 64 := by
        rw [hhalf]
        show 2 ^ 63 * (2 * half) = half * 2 ^ 64
        ring
      have hbatch := hall 9223372036854775808
      rw [hproduct, Nat.mul_mod_left] at hbatch
      omega
    · -- the inverse of an odd batch size starts at the second row
      have hcoprime : Nat.Coprime size (2 ^ 64) :=
        (Nat.coprime_two_right.2 (Nat.odd_iff.2 hodd)).pow_right 64
      obtain ⟨inverse, -, hinverse⟩ := Nat.exists_mul_mod_eq_one_of_coprime hcoprime (by decide)
      have hmod : (UInt64.ofNat inverse).toNat * size % 2 ^ 64 = 1 := by
        rw [UInt64.toNat_ofNat', Nat.mod_mul_mod, Nat.mul_comm]
        exact hinverse
      have hbatch := hall (UInt64.ofNat inverse)
      rw [hmod] at hbatch
      rcases hbatch with hlt | hle
      · rw [Nat.mod_eq_of_lt hlt] at hmod
        exact hone (Nat.eq_one_of_mul_eq_one_left hmod)
      · exact hwrap ⟨by omega, hodd⟩

end Selection

/-! ### The batches of a plan -/

/-- The value that a result reports for a field. -/
def NativeQueryResult.fieldRow (result : NativeQueryResult) (field : Bytes) : Option Tuple :=
  result.rows.find? fun row ↦ row.head? == some (.text field)

/-- The result of EXPLAIN BATCH reports the selected rows. -/
theorem executeExplainBatch_reports {catalog : Catalog} {statement : ExplainBatchStmt}
    {result : NativeQueryResult} {s s' : Storage}
    (h : executeExplainBatch catalog statement s = .ok result s') :
    ∃ snapshot rows, explainBatchRows catalog statement = .ok (snapshot, rows) ∧
      result.fieldRow (lit "samples") = some (keyValue (lit "samples") (ofNat rows.length)) ∧
      result.fieldRow (lit "source_rows") =
        some (keyValue (lit "source_rows") (joinStrings (lit ",") (rows.map (·.rowid)))) := by
  obtain ⟨⟨snapshot, rows⟩, s₁, hanswer, h⟩ := EStateM.exists_of_bind_eq_ok h
  have hrows := (EStateM.answer_eq_ok hanswer).1
  dsimp only at h
  suffices hresult : ∃ labels, result = explainBatchResult statement snapshot (rows.map (·.rowid)) labels by
    obtain ⟨labels, rfl⟩ := hresult
    refine ⟨snapshot, rows, hrows, ?_, rfl⟩
    rw [← List.length_map (·.rowid)]
    rfl
  rcases htable : catalog.tables[snapshot.sourceTable]? with _ | table
  · simp only [htable] at h
    exact nomatch h
  · simp only [htable] at h
    rcases hlabel : tableColumnIndex table snapshot.label.name with _ | labelIndex
    · simp only [hlabel] at h
      exact nomatch h
    · simp only [hlabel] at h
      obtain ⟨path, s₂, -, h⟩ := EStateM.exists_of_bind_eq_ok h
      obtain ⟨labelCounts, s₃, -, h⟩ := EStateM.exists_of_bind_eq_ok h
      obtain ⟨rfl, -⟩ := EStateM.Result.ok.inj h
      exact ⟨_, rfl⟩

/-- What is expected of the batches of a plan of `EXPLAIN BATCH`: the selections of the first
`batchCount` batch numbers make up the plan, all other batch numbers select no row, EXPORT TORCH reports the
number of batches, and `explain_batch` of the Python package selects the same rows. -/
structure BatchesPartition (catalog : Catalog) (snapshot : DatasetSnapshotMeta) (view : PySnapshot)
    (statement : ExplainBatchStmt) (planned : List SnapshotRowMeta) : Prop where
  concatenate : ∃ batches : List (List SnapshotRowMeta),
    batches.length = List.batchCount statement.batchSize.toNat planned.length ∧
    (∀ (batch : UInt64) (h : batch.toNat < batches.length),
      explainBatchRows catalog { statement with batch } = .ok (snapshot, batches[batch.toNat])) ∧
    batches.flatten = planned
  beyond : ∀ batch : UInt64, List.batchCount statement.batchSize.toNat planned.length ≤ batch.toNat →
    explainBatchRows catalog { statement with batch } = .ok (snapshot, [])
  reported : ∀ deterministicShuffle, ∃ result,
    executeExportTorch catalog ⟨statement.dataset, statement.batchSize, deterministicShuffle,
      statement.epoch, statement.rank, statement.worldSize⟩ = .ok result ∧
    result.fieldRow (lit "batches") = some (keyValue (lit "batches")
      (ofNat (List.batchCount statement.batchSize.toNat planned.length)))
  python : ∀ (dataset : List Char) (batch : UInt64), ∃ reader rows,
    pyDataset dataset view statement.batchSize.toNat ("train".toList) statement.epoch.toNat
      statement.rank.toNat statement.worldSize.toNat = .ok reader ∧
    explainBatchRows catalog { statement with batch } = .ok (snapshot, rows) ∧
    (reader.explainBatch batch.toNat).sourceRows.map encodeUtf8 = rows.map (·.rowid)

section Plan

variable {catalog : Catalog} {snapshot : DatasetSnapshotMeta} {view : PySnapshot}
variable {statement : ExplainBatchStmt} {planned : List SnapshotRowMeta}

/-- A plan is that of a rank of the world, and the Python reader has the same one. -/
theorem exists_pyDataset (hsame : SameSnapshot snapshot view) (hpos : 1 ≤ statement.batchSize)
    (hplan : plannedSnapshotRows snapshot statement.epoch statement.rank statement.worldSize (lit "train") =
      .ok planned) (dataset : List Char) :
    ∃ reader, pyDataset dataset view statement.batchSize.toNat ("train".toList) statement.epoch.toNat
        statement.rank.toNat statement.worldSize.toNat = .ok reader ∧
      reader.batchSize = statement.batchSize.toNat ∧ reader.rows.map PySnapshotRow.toMeta = planned := by
  have hsize : (0 : Int) < statement.batchSize.toNat := by
    have hle := UInt64.le_iff_toNat_le.1 hpos
    exact Int.natCast_pos.2 hle
  unfold plannedSnapshotRows at hplan
  split_ifs at hplan with hzero hrank
  have hlt : statement.rank < statement.worldSize := UInt64.not_le.1 hrank
  obtain ⟨rows, hrows, hmap⟩ := pyPlannedRows_eq hsame hsize "train".toList statement.epoch statement.rank
    statement.worldSize hlt
  refine ⟨_, by rw [pyDataset, hrows]; rfl, rfl, ?_⟩
  rw [hmap]
  exact Except.ok.inj hplan

section Selected

variable (hsnapshot : catalog.snapshots[statement.dataset]? = some snapshot)
variable (hpos : 1 ≤ statement.batchSize)
variable (hplan : plannedSnapshotRows snapshot statement.epoch statement.rank statement.worldSize
  (lit "train") = .ok planned)
include hsnapshot hpos hplan

/-- The batches are planned over the rows of the plan. -/
theorem plannedBatches_of_plan :
    plannedBatches catalog statement.dataset statement.batchSize statement.epoch statement.rank
      statement.worldSize = .ok (snapshot, planned) := by
  have hne : statement.batchSize ≠ 0 := by
    intro hzero
    rw [hzero] at hpos
    exact absurd hpos (by decide)
  simp only [plannedBatches, hsnapshot, if_neg hne, hplan]
  rfl

/-- A batch is explained by the rows that are selected for it. -/
theorem explainBatchRows_eq_ok_iff {batch : UInt64} {rows : List SnapshotRowMeta} :
    explainBatchRows catalog { statement with batch } = .ok (snapshot, rows) ↔
      selectBatch planned batch statement.batchSize = .ok rows := by
  simp only [explainBatchRows, plannedBatches_of_plan hsnapshot hpos hplan]
  show ((selectBatch planned batch statement.batchSize >>= fun rows ↦ pure (snapshot, rows)) = _) ↔ _
  rcases selectBatch planned batch statement.batchSize with error | selected
  · exact iff_of_false nofun nofun
  · show (Except.ok (snapshot, selected) = Except.ok (snapshot, rows)) ↔ Except.ok selected = Except.ok rows
    rw [Except.ok.injEq, Except.ok.injEq, Prod.mk.injEq]
    exact and_iff_right rfl

/-- The export reports the rows of the plan and their batches. -/
theorem executeExportTorch_reports (hlength : planned.length < 2 ^ 63)
    (hcount : planned.length + statement.batchSize.toNat - 1 < 2 ^ 64) (deterministicShuffle : Bool) :
    ∃ result, executeExportTorch catalog ⟨statement.dataset, statement.batchSize, deterministicShuffle,
        statement.epoch, statement.rank, statement.worldSize⟩ = .ok result ∧
      result.fieldRow (lit "batches") = some (keyValue (lit "batches")
        (ofNat (List.batchCount statement.batchSize.toNat planned.length))) := by
  have hbatches : ((UInt64.ofNat planned.length + statement.batchSize - 1) / statement.batchSize).toNat =
      List.batchCount statement.batchSize.toNat planned.length := by
    have hsize := UInt64.le_iff_toNat_le.1 hpos
    have hn : (UInt64.ofNat planned.length).toNat = planned.length :=
      UInt64.toNat_ofNat_of_lt' (hlength.trans (by decide))
    rw [List.batchCount, UInt64.toNat_div, UInt64.toNat_sub, UInt64.toNat_add, hn]
    rw [show (1 : UInt64).toNat = 1 from rfl] at hsize ⊢
    refine congrArg (· / statement.batchSize.toNat) ?_
    omega
  refine ⟨_, by simp only [executeExportTorch, plannedBatches_of_plan hsnapshot hpos hplan]; rfl, ?_⟩
  rw [← hbatches]
  rfl

end Selected

/-- For every plan and batch size the selections partition the plan exactly if no product wraps around. -/
theorem batches_partition_iff (catalog : Catalog) (snapshot : DatasetSnapshotMeta) (view : PySnapshot)
    (statement : ExplainBatchStmt) (planned : List SnapshotRowMeta)
    (hsnapshot : catalog.snapshots[statement.dataset]? = some snapshot) (hsame : SameSnapshot snapshot view)
    (hpos : 1 ≤ statement.batchSize) (hlength : planned.length < 2 ^ 63)
    (hplan : plannedSnapshotRows snapshot statement.epoch statement.rank statement.worldSize (lit "train") =
      .ok planned) :
    BatchesPartition catalog snapshot view statement planned ↔
      NoWrap planned.length statement.batchSize.toNat := by
  have hsize : 0 < statement.batchSize.toNat := UInt64.le_iff_toNat_le.1 hpos
  have hrows {batch : UInt64} {rows : List SnapshotRowMeta} :
      explainBatchRows catalog { statement with batch } = .ok (snapshot, rows) ↔
        selectBatch planned batch statement.batchSize = .ok rows :=
    explainBatchRows_eq_ok_iff hsnapshot hpos hplan
  rw [noWrap_iff hlength hsize]
  constructor
  · intro h batch
    -- A batch within the rows starts below their number, which is far below 2^64.
    rcases Nat.lt_or_ge batch.toNat (List.batchCount statement.batchSize.toNat planned.length) with hlt | hge
    · have hstart := (List.lt_batchCount_iff hsize).1 hlt
      omega
    · exact .inr ((selectBatch_eq_nil_iff hlength hsize).1 (hrows.1 (h.beyond batch hge)))
  · intro hall
    have hselect (batch : UInt64) : explainBatchRows catalog { statement with batch } =
        .ok (snapshot, planned.batch statement.batchSize.toNat batch.toNat) :=
      hrows.2 ((selectBatch_eq_iff hlength hsize).2 (hall batch))
    refine ⟨⟨(List.range (List.batchCount statement.batchSize.toNat planned.length)).map fun i ↦
      planned.batch statement.batchSize.toNat i, ?_, fun batch hbatch ↦ ?_, List.flatten_batches hsize planned⟩,
      fun batch hge ↦ ?_, fun shuffle ↦ ?_, fun dataset batch ↦ ?_⟩
    · rw [List.length_map, List.length_range]
    · rw [List.getElem_map, List.getElem_range]
      exact hselect batch
    · rw [hselect, List.batch_eq_nil_of_count_le hsize hge]
    · refine executeExportTorch_reports hsnapshot hpos hplan hlength ?_ shuffle
      have hlt := statement.batchSize.toNat_lt
      rcases (noWrap_iff hlength hsize).2 hall with hn | hone | ⟨hn, -⟩ <;> omega
    · obtain ⟨reader, hreader, hreaderSize, hmap⟩ := exists_pyDataset hsame hpos hplan dataset
      refine ⟨reader, _, hreader, hselect batch, ?_⟩
      rw [reader.explainBatch_sourceRows, hreaderSize, ← hmap, List.batch_map, List.map_map, List.map_map]
      rfl

end Plan

/-- A snapshot of three rows. -/
def pups : DatasetSnapshotMeta where
  name := lit "pups"
  seed := 7
  rows := [⟨lit "0:0", lit "train"⟩, ⟨lit "0:1", lit "train"⟩, ⟨lit "0:2", lit "train"⟩]

/-- The snapshot as the Python package reads it. -/
def pyPups : PySnapshot where
  seed := 7
  rows := [⟨"0:0".toList, "train".toList⟩, ⟨"0:1".toList, "train".toList⟩, ⟨"0:2".toList, "train".toList⟩]

def pupsCatalog : Catalog where
  snapshots := (∅ : NameMap DatasetSnapshotMeta).insert (lit "pups") pups

/-- All rows of the snapshot in the order of the first epoch. -/
def pupsPlan : List SnapshotRowMeta :=
  (snapshotOrder pups 0 (lit "train")).stride 1 0

theorem sameSnapshot_pups : SameSnapshot pups pyPups :=
  ⟨rfl, by decide +kernel⟩

theorem pups_mem : pupsCatalog.snapshots[lit "pups"]? = some pups := by
  decide +kernel

theorem plannedSnapshotRows_pups : plannedSnapshotRows pups 0 0 1 (lit "train") = .ok pupsPlan :=
  rfl

theorem length_pupsPlan : pupsPlan.length = 3 := by
  have hlength : (snapshotOrder pups 0 (lit "train")).length = 3 :=
    (snapshotOrder_perm pups 0 (lit "train")).length_eq.trans (by decide +kernel)
  rw [pupsPlan, List.length_stride Nat.one_pos, hlength]
  rfl

/-- Three pups in batches of two. -/
theorem batches_partition_iff_pups :
    BatchesPartition pupsCatalog pups pyPups { dataset := lit "pups", batchSize := 1 } pupsPlan ↔
      NoWrap 3 1 := by
  rw [← length_pupsPlan]
  exact batches_partition_iff pupsCatalog pups pyPups { dataset := lit "pups", batchSize := 1 } pupsPlan
    pups_mem sameSnapshot_pups (by decide) (by rw [length_pupsPlan]; decide) plannedSnapshotRows_pups

/-- With batches of two rows the batch with the number 2⁶³ selects rows again. -/
theorem batches_not_partition :
    ¬∀ (catalog : Catalog) (snapshot : DatasetSnapshotMeta) (view : PySnapshot)
      (statement : ExplainBatchStmt) (planned : List SnapshotRowMeta),
      catalog.snapshots[statement.dataset]? = some snapshot → SameSnapshot snapshot view →
      1 ≤ statement.batchSize → planned.length < 2 ^ 63 →
      plannedSnapshotRows snapshot statement.epoch statement.rank statement.worldSize (lit "train") =
        .ok planned →
      BatchesPartition catalog snapshot view statement planned := by
  intro h
  have hlength : pupsPlan.length < 2 ^ 63 := by
    rw [length_pupsPlan]
    decide
  have hpartition := h pupsCatalog pups pyPups { dataset := lit "pups", batchSize := 2 } pupsPlan pups_mem
    sameSnapshot_pups (by decide) hlength plannedSnapshotRows_pups
  have hbeyond := hpartition.beyond 9223372036854775808 (by rw [length_pupsPlan]; decide)
  rw [explainBatchRows_eq_ok_iff pups_mem (by decide) plannedSnapshotRows_pups,
    selectBatch_eq_nil_iff hlength (by decide), length_pupsPlan] at hbeyond
  exact absurd hbeyond (by decide)

end SkibidiQL
